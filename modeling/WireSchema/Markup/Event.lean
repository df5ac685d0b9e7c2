import WireSchema.Markup.Element
import WireSchema.Markup.Entity

namespace WireSchema.Markup

inductive Event where
  | start (name : String) (attributes : List (String × String)) (line : Nat)
  | stop (name : String) (line : Nat)
  deriving DecidableEq, Repr

inductive Error where
  | malformed
  | mismatchedEnd (line : Nat) (expected found : String)
  | duplicateAttribute (line : Nat) (element name : String)
  | entity (line : Nat) (error : EntityError)
  deriving DecidableEq, Repr

namespace Error

def message : Error → String
  | malformed => "syntax"
  | mismatchedEnd line expected found =>
    s!"line {line}: end tag </{found}> does not match <{expected}>"
  | duplicateAttribute line element name =>
    s!"line {line}: duplicate attribute `{name}` on <{element}>"
  | entity line error =>
    let reason := error.message
    s!"line {line}: {reason}"

end Error

def readAttributes (element : String) (line : Nat) (done : List (String × String)) :
    List Attribute → Except Error (List (String × String))
  | [] => .ok done
  | a :: as =>
    let name := String.ofList a.name
    match decodeEntities (String.ofList a.value) with
    | .error e => .error (.entity line e)
    | .ok value =>
      if done.any (·.1 == name) then .error (.duplicateAttribute line element name)
      else readAttributes element line (done ++ [(name, value)]) as

structure Trace where
  events : List Event
  error : Option Error
  deriving DecidableEq, Repr

namespace Trace

def append (a b : Trace) : Trace :=
  match a.error with
  | some _ => a
  | none => ⟨a.events ++ b.events, b.error⟩

def event (e : Event) : Trace := ⟨[e], none⟩

def fail (e : Error) : Trace := ⟨[], some e⟩

end Trace

mutual

def Element.trace : Element → Trace
  | .mk tag line children endName endLine =>
    let name := String.ofList tag.name
    match readAttributes name line [] tag.attributes with
    | .error e => .fail e
    | .ok attributes =>
      let ending :=
        if endName = tag.name then Trace.event (.stop name endLine)
        else Trace.fail (.mismatchedEnd endLine name (String.ofList endName))
      (Trace.event (.start name attributes line)).append
        ((Element.traces children).append ending)

def Element.traces : List Element → Trace
  | [] => ⟨[], none⟩
  | e :: es => (Element.trace e).append (Element.traces es)

end

/-- What is wrong with a document is found while its events are delivered, except that a document
that does not parse has no events at all. -/
def trace (source : String) : Trace :=
  match parse? source with
  | none => .fail .malformed
  | some root => root.trace

inductive Stop (ε : Type) where
  | markup (error : Error)
  | handler (error : ε)

structure Walk (ε σ : Type) where
  state : σ
  stop : Option (Stop ε)

variable {ε σ : Type}

namespace Walk

def andThen (w : Walk ε σ) (next : σ → Walk ε σ) : Walk ε σ :=
  match w.stop with
  | some _ => w
  | none => next w.state

def fail (state : σ) (error : Error) : Walk ε σ := ⟨state, some (.markup error)⟩

def deliver (handle : σ → Event → Except ε σ) (state : σ) (e : Event) : Walk ε σ :=
  match handle state e with
  | .error x => ⟨state, some (.handler x)⟩
  | .ok next => ⟨next, none⟩

end Walk

mutual

def Element.walk (handle : σ → Event → Except ε σ) (state : σ) : Element → Walk ε σ
  | .mk tag line children endName endLine =>
    let name := String.ofList tag.name
    match readAttributes name line [] tag.attributes with
    | .error e => .fail state e
    | .ok attributes =>
      (Walk.deliver handle state (.start name attributes line)).andThen fun state =>
        (Element.walkAll handle state children).andThen fun state =>
          if endName = tag.name then .deliver handle state (.stop name endLine)
          else .fail state (.mismatchedEnd endLine name (String.ofList endName))

def Element.walkAll (handle : σ → Event → Except ε σ) (state : σ) : List Element → Walk ε σ
  | [] => ⟨state, none⟩
  | e :: es => (Element.walk handle state e).andThen fun state => Element.walkAll handle state es

end

/-- Delivers the events of a document to a handler, each as soon as it is known, until the handler
refuses one. -/
def walk (handle : σ → Event → Except ε σ) (state : σ) (source : String) : Walk ε σ :=
  match parse? source with
  | none => .fail state .malformed
  | some root => root.walk handle state

end WireSchema.Markup
