import WireSchema.Proofs.Markup.Node

namespace WireSchema.Markup

open Outcome

/-- The names of the elements that are open after events, innermost first, given those open before
them. There are none if an element ends that is not the innermost one. -/
def openNames : List String → List Event → Option (List String)
  | names, [] => some names
  | names, .start name _ _ :: es => openNames (name :: names) es
  | [], .stop _ _ :: _ => none
  | top :: names, .stop name _ :: es => if name = top then openNames names es else none

def IsElement (es : List Event) : Prop :=
  ∃ name attributes line inner endLine,
    es = .start name attributes line :: (inner ++ [.stop name endLine]) ∧
      openNames [] inner = some []

theorem openNames_append (names : List String) (es es' : List Event) :
    openNames names (es ++ es') = (openNames names es).bind fun names => openNames names es' := by
  fun_induction openNames names es with
  | case1 names => rfl
  | case2 names name attributes line es ih => exact ih
  | case3 name line es => rfl
  | case4 name names line es ih =>
      rw [List.cons_append, openNames, if_pos rfl]
      exact ih
  | case5 top names name line es hne =>
      rw [List.cons_append, openNames, if_neg hne]
      rfl

namespace Trace

/-- Events that close no element but their own, and all of these if nothing is wrong. -/
structure Nested (t : Trace) : Prop where
  extends_open : ∀ names, ∃ opened, openNames names t.events = some (opened ++ names)
  closed : t.error = none → ∀ names, openNames names t.events = some names

theorem Nested.append {a b : Trace} (ha : a.Nested) (hb : b.Nested) : (a.append b).Nested := by
  obtain ⟨es, error⟩ := a
  cases error with
  | some e => exact ha
  | none =>
      have hevents (names : List String) :
          openNames names (es ++ b.events) = openNames names b.events := by
        rw [openNames_append, ha.closed rfl names, Option.bind_some]
      constructor
      · intro names
        obtain ⟨opened, h⟩ := hb.extends_open names
        exact ⟨opened, (hevents names).trans h⟩
      · intro hnone names
        exact (hevents names).trans (hb.closed hnone names)

theorem Nested.element {t : Trace} (ht : t.Nested) (name : String)
    (attributes : List (String × String)) (line : Nat) {ending : Trace}
    (hending : (∃ endLine, ending = .event (.stop name endLine)) ∨ ∃ e, ending = .fail e) :
    ((Trace.event (.start name attributes line)).append (t.append ending)).Nested := by
  obtain ⟨es, error⟩ := t
  cases error with
  | some e =>
      refine ⟨fun names => ?_, fun h => by cases h⟩
      obtain ⟨opened, h⟩ := ht.extends_open (name :: names)
      refine ⟨opened ++ [name], ?_⟩
      rw [List.append_assoc]
      exact h
  | none =>
      have hevents (names : List String) (es' : List Event) :
          openNames names (.start name attributes line :: (es ++ es')) =
            openNames (name :: names) es' := by
        rw [openNames, openNames_append, ht.closed rfl (name :: names), Option.bind_some]
      rcases hending with ⟨endLine, rfl⟩ | ⟨e, rfl⟩
      · have hclosed (names : List String) : openNames names
            (.start name attributes line :: (es ++ [.stop name endLine])) = some names := by
          rw [hevents, openNames, if_pos rfl, openNames]
        exact ⟨fun names => ⟨[], hclosed names⟩, fun _ => hclosed⟩
      · exact ⟨fun names => ⟨[name], hevents names []⟩, fun h => by cases h⟩

end Trace

namespace Element

mutual

theorem nested_trace (e : Element) : e.trace.Nested := by
  cases e with
  | mk tag line children endName endLine =>
      rw [trace]
      cases readAttributes (String.ofList tag.name) line [] tag.attributes with
      | error x => exact ⟨fun names => ⟨[], rfl⟩, fun h => by cases h⟩
      | ok attributes =>
          apply (nested_traces children).element
          split
          next => exact .inl ⟨endLine, rfl⟩
          next => exact .inr ⟨_, rfl⟩

theorem nested_traces (es : List Element) : (traces es).Nested := by
  cases es with
  | nil => exact ⟨fun names => ⟨[], rfl⟩, fun _ names => rfl⟩
  | cons e es =>
      rw [traces]
      exact (nested_trace e).append (nested_traces es)

end

theorem isElement_trace {e : Element} (h : e.trace.error = none) : IsElement e.trace.events := by
  obtain ⟨n, hn⟩ := exists_node e h
  rw [trace_of_node? hn]
  cases e with
  | mk tag line children endName endLine =>
      obtain ⟨attributes, nodes, -, hnodes, -, rfl⟩ := node?_eq_some.1 hn
      have hinner := (nested_traces children).closed
      rw [traces_of_nodes? hnodes] at hinner
      exact ⟨_, attributes, line, Node.eventsAll nodes, endLine, rfl, hinner rfl []⟩

end Element

theorem nested_trace (source : String) : (trace source).Nested := by
  rw [trace]
  cases parse? source with
  | none => exact ⟨fun names => ⟨[], rfl⟩, fun h => by cases h⟩
  | some root => exact root.nested_trace

theorem isElement_trace {source : String} (h : (trace source).error = none) :
    IsElement (trace source).events := by
  rw [trace] at h ⊢
  cases hroot : parse? source with
  | none =>
      rw [hroot] at h
      cases h
  | some root =>
      rw [hroot] at h
      exact Element.isElement_trace h

theorem error_append_ne {a b : Trace} {x : Error} (ha : a.error ≠ some x) (hb : b.error ≠ some x) :
    (a.append b).error ≠ some x := by
  obtain ⟨es, error⟩ := a
  cases error with
  | none => exact hb
  | some e => exact ha

theorem readAttributes_ne_malformed (element : String) (line : Nat)
    (done : List (String × String)) (as : List Attribute) :
    readAttributes element line done as ≠ .error .malformed := by
  fun_induction readAttributes element line done as with
  | case1 | case2 | case3 => simp
  | case4 => assumption

mutual

theorem Element.error_trace_ne (e : Element) : e.trace.error ≠ some .malformed := by
  cases e with
  | mk tag line children endName endLine =>
      rw [Element.trace]
      cases h : readAttributes (String.ofList tag.name) line [] tag.attributes with
      | error x =>
          have hx : x ≠ .malformed := by
            rintro rfl
            exact readAttributes_ne_malformed _ _ _ _ h
          simpa [Trace.fail] using hx
      | ok attributes =>
          apply error_append_ne (by simp [Trace.event])
          apply error_append_ne (Element.error_traces_ne children)
          split
          next => simp [Trace.event]
          next => simp [Trace.fail]

theorem Element.error_traces_ne (es : List Element) :
    (Element.traces es).error ≠ some .malformed := by
  cases es with
  | nil => simp [Element.traces]
  | cons e es =>
      rw [Element.traces]
      exact error_append_ne (Element.error_trace_ne e) (Element.error_traces_ne es)

end

theorem events_of_malformed {source : String} (h : (trace source).error = some .malformed) :
    (trace source).events = [] := by
  rw [trace] at h ⊢
  cases hroot : parse? source with
  | none => rfl
  | some root =>
      rw [hroot] at h
      exact absurd h root.error_trace_ne

variable {ε σ : Type}

def logged (handle : σ → Event → Except ε σ) (s : σ × List Event) (e : Event) :
    Except (ε × List Event) (σ × List Event) :=
  match handle s.1 e with
  | .error x => .error (x, s.2 ++ [e])
  | .ok t => .ok (t, s.2 ++ [e])

/-- The calls that a walk makes to a handler, in order. The last one may be refused. -/
def calls (handle : σ → Event → Except ε σ) (s : σ) (source : String) : List Event :=
  let w := walk (logged handle) (s, []) source
  match w.stop with
  | some (.handler x) => x.2
  | _ => w.state.2

section Calls

variable {handle : σ → Event → Except ε σ} {s t : σ} {es : List Event}

theorem foldlM_logged (h : es.foldlM handle s = .ok t) (done : List Event) :
    es.foldlM (logged handle) (s, done) = .ok (t, done ++ es) := by
  induction es generalizing s done with
  | nil =>
      cases h
      rw [List.append_nil]
      rfl
  | cons e es ih =>
      rw [List.foldlM_cons] at h
      obtain ⟨u, hu, h⟩ := bind_eq_ok.1 h
      have hlogged : logged handle (s, done) e = .ok (u, done ++ [e]) := by simp only [logged, hu]
      rw [List.foldlM_cons, hlogged, ok_bind, ih h, List.append_assoc, List.singleton_append]

theorem calls_of_ok {source : String} (h : (trace source).events.foldlM handle s = .ok t) :
    calls handle s source = (trace source).events := by
  rw [calls, walk_eq, walkEvents_of_ok _ (foldlM_logged h [])]
  cases (trace source).error <;> rfl

theorem calls_of_refused {source : String} {done rest : List Event} {e : Event} {x : ε}
    (hevents : (trace source).events = done ++ e :: rest) (h : done.foldlM handle s = .ok t)
    (he : handle t e = .error x) : calls handle s source = done ++ [e] := by
  have hlogged : logged handle (t, [] ++ done) e = .error (x, done ++ [e]) := by
    simp only [logged, he, List.nil_append]
  rw [calls, walk_eq, hevents, walkEvents_of_refused _ (foldlM_logged h []) hlogged]

theorem exists_foldlM_of_accepts (h : ∀ t e, ∃ u, handle t e = .ok u) (s : σ) (es : List Event) :
    ∃ t, es.foldlM handle s = .ok t := by
  induction es generalizing s with
  | nil => exact ⟨s, rfl⟩
  | cons e es ih =>
      obtain ⟨u, hu⟩ := h s e
      obtain ⟨t, ht⟩ := ih u
      exact ⟨t, by rw [List.foldlM_cons, hu, ok_bind, ht]⟩

end Calls

/-- A handler gets the events that one that accepts everything gets, up to the first one that it
refuses. All of them are the events of one element if nothing is wrong with the document; they are
well nested, with elements left open, if something is; and there are none if it does not parse. -/
theorem walk_wellNested {ε' σ' : Type} (source : String) (handle : σ → Event → Except ε σ) (s : σ)
    {accept : σ' → Event → Except ε' σ'} (haccept : ∀ t e, ∃ u, accept t e = .ok u) (s' : σ') :
    (calls handle s source <+: calls accept s' source ∧
      (∀ x, (walk handle s source).stop = some (.handler x) → ∃ done e t,
        calls handle s source = done ++ [e] ∧ done.foldlM handle s = .ok t ∧
          handle t e = .error x) ∧
      ((∀ x, (walk handle s source).stop ≠ some (.handler x)) →
        calls handle s source = calls accept s' source ∧
          ∃ t, (calls handle s source).foldlM handle s = .ok t)) ∧
    ((walk accept s' source).stop = none → IsElement (calls accept s' source)) ∧
    (∀ e, (walk accept s' source).stop = some (.markup e) →
      ∃ names, openNames [] (calls accept s' source) = some names) ∧
    ((walk accept s' source).stop = some (.markup .malformed) → calls accept s' source = []) := by
  obtain ⟨t', haccepted⟩ := exists_foldlM_of_accepts haccept s' (trace source).events
  have hstop : (walk accept s' source).stop = (trace source).error.map .markup := by
    rw [walk_eq, walkEvents_of_ok _ haccepted]
  rw [hstop, calls_of_ok haccepted]
  refine ⟨?_, ?_, ?_, ?_⟩
  · cases h : (trace source).events.foldlM handle s with
    | ok t =>
        have hwalk : (walk handle s source).stop = (trace source).error.map .markup := by
          rw [walk_eq, walkEvents_of_ok _ h]
        rw [calls_of_ok h]
        refine ⟨List.prefix_rfl, ?_, fun _ => ⟨rfl, t, h⟩⟩
        intro x hx
        rw [hwalk] at hx
        cases herror : (trace source).error <;> simp [herror] at hx
    | error x =>
        obtain ⟨done, e, rest, t, hevents, hdone, he⟩ := exists_refused h
        have hwalk : (walk handle s source).stop = some (.handler x) := by
          rw [walk_eq, hevents, walkEvents_of_refused _ hdone he]
        rw [calls_of_refused hevents hdone he, hwalk]
        refine ⟨⟨rest, by simp [hevents]⟩, ?_, fun hne => absurd rfl (hne x)⟩
        intro y hy
        cases hy
        exact ⟨done, e, t, rfl, hdone, he⟩
  · intro hnone
    exact isElement_trace (Option.map_eq_none_iff.1 hnone)
  · intro e _
    obtain ⟨opened, h⟩ := (nested_trace source).extends_open []
    exact ⟨opened ++ [], h⟩
  · intro hmalformed
    obtain ⟨error, herror, hx⟩ := Option.map_eq_some_iff.1 hmalformed
    cases hx
    exact events_of_malformed herror

def takeEvents : Nat → Event → Except Event Nat
  | 0, e => .error e
  | n + 1, _ => .ok n

def countEvents (n : Nat) (_ : Event) : Except Event Nat :=
  .ok (n + 1)

def mismatchedDocument : String :=
  "<a><b/></c>"

theorem trace_mismatchedDocument : trace mismatchedDocument =
    ⟨[.start "a" [] 1, .start "b" [] 1, .stop "b" 1], some (.mismatchedEnd 1 "a" "c")⟩ := by
  decide +kernel

theorem walk_wellNested_mismatched :
    (∀ t e, ∃ u, countEvents t e = .ok u) ∧
    calls takeEvents 1 mismatchedDocument = [.start "a" [] 1, .start "b" [] 1] ∧
    calls takeEvents 1 mismatchedDocument <+: calls countEvents 0 mismatchedDocument ∧
    (walk countEvents 0 mismatchedDocument).stop = some (.markup (.mismatchedEnd 1 "a" "c")) ∧
    ∃ names, openNames [] (calls countEvents 0 mismatchedDocument) = some names := by
  have haccept (t : Nat) (e : Event) : ∃ u, countEvents t e = .ok u := ⟨t + 1, rfl⟩
  have hcalls : calls takeEvents 1 mismatchedDocument = [.start "a" [] 1, .start "b" [] 1] := by
    rw [calls, walk_eq, trace_mismatchedDocument]
    rfl
  have hstop : (walk countEvents 0 mismatchedDocument).stop =
      some (.markup (.mismatchedEnd 1 "a" "c")) := by
    rw [walk_eq, trace_mismatchedDocument]
    rfl
  obtain ⟨⟨hinitial, -⟩, -, hnested, -⟩ := walk_wellNested mismatchedDocument takeEvents 1 haccept 0
  exact ⟨haccept, hcalls, hinitial, hstop, hnested _ hstop⟩

end WireSchema.Markup
