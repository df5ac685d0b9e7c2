import Mathlib.Data.List.Basic
import WireSchema.Proofs.Markup.Node
import WireSchema.Proofs.Markup.References

namespace WireSchema.Markup

def IsBlanks (cs : List Char) : Prop :=
  ∀ c ∈ cs, isBlank c = true

def IsName : List Char → Prop
  | [] => False
  | c :: cs => isNameStart c = true ∧ ∀ d ∈ cs, isNameChar d = true

instance : DecidablePred IsBlanks := fun _ =>
  decidable_of_decidable_of_iff List.all_eq_true

instance : DecidablePred IsName
  | [] => inferInstanceAs (Decidable False)
  | c :: _ => decidable_of_decidable_of_iff (and_congr_right fun (_ : isNameStart c = true) =>
      List.all_eq_true)

inductive Escapes (quote : Quote) : List Char → List Char → Prop
  | nil : Escapes quote [] []
  | plain {c : Char} {value raw : List Char} (amp : c ≠ '&') (less : c ≠ '<')
      (inside : c ≠ quote.char) (rest : Escapes quote value raw) :
      Escapes quote (c :: value) (c :: raw)
  | reference {c : Char} {name value raw : List Char} (refers : Reference name c)
      (rest : Escapes quote value raw) : Escapes quote (c :: value) ('&' :: (name ++ ';' :: raw))

structure Attribute.Writes (a : Attribute) (name value : String) : Prop where
  lead : a.lead ≠ []
  blank : IsBlanks a.lead ∧ IsBlanks a.beforeEquals ∧ IsBlanks a.afterEquals
  isName : IsName a.name
  named : String.ofList a.name = name
  escapes : Escapes a.quote value.toList a.value

structure Tag.Writes (t : Tag) (name : String) (attributes : List (String × String)) : Prop where
  isName : IsName t.name
  named : String.ofList t.name = name
  written : List.Forall₂ (fun a e => a.Writes e.1 e.2) t.attributes attributes
  distinct : (attributes.map Prod.fst).Nodup
  trail : IsBlanks t.trail

def Token.IsFiller : Token → Prop
  | comment body => ¬"-->".toList <:+: body
  | instruction body => ¬"?>".toList <:+: body
  | cdata body => ¬"]]>".toList <:+: body
  | text body => '<' ∉ body
  | _ => False

instance : DecidablePred Token.IsFiller
  | .comment body => inferInstanceAs (Decidable (¬"-->".toList <:+: body))
  | .instruction body => inferInstanceAs (Decidable (¬"?>".toList <:+: body))
  | .cdata body => inferInstanceAs (Decidable (¬"]]>".toList <:+: body))
  | .text body => inferInstanceAs (Decidable ('<' ∉ body))
  | .start _ | .empty _ | .close _ _ | .doctype _ => inferInstanceAs (Decidable False)

def Token.IsMargin : Token → Prop
  | comment body => ¬"-->".toList <:+: body
  | instruction body => ¬"?>".toList <:+: body
  | doctype body => '>' ∉ body
  | text body => IsBlanks body
  | _ => False

instance : DecidablePred Token.IsMargin
  | .comment body => inferInstanceAs (Decidable (¬"-->".toList <:+: body))
  | .instruction body => inferInstanceAs (Decidable (¬"?>".toList <:+: body))
  | .doctype body => inferInstanceAs (Decidable ('>' ∉ body))
  | .text body => inferInstanceAs (Decidable (IsBlanks body))
  | .start _ | .empty _ | .close _ _ | .cdata _ => inferInstanceAs (Decidable False)

/-- The line that a tag stands on, given what is written before its bracket. -/
def lineAfter (before : List Char) : Nat :=
  1 + before.count '\n'

mutual

/-- `text`, written behind `before`, is a way of writing an element. -/
inductive Writes : List Char → Node → List Char → Prop
  | empty {before : List Char} {tag : Tag} {name : String} {attributes : List (String × String)}
      (tagWrites : tag.Writes name attributes) :
      Writes before (.mk name attributes (lineAfter before) [] (lineAfter before))
        (Token.empty tag).render
  | full {before content trail : List Char} {tag : Tag} {name : String}
      {attributes : List (String × String)} {children : List Node}
      (tagWrites : tag.Writes name attributes)
      (inside : WritesAll (before ++ (Token.start tag).render) children content)
      (blank : IsBlanks trail) :
      Writes before
        (.mk name attributes (lineAfter before) children
          (lineAfter (before ++ (Token.start tag).render ++ content)))
        ((Token.start tag).render ++ content ++ (Token.close tag.name trail).render)

inductive WritesAll : List Char → List Node → List Char → Prop
  | nil {before : List Char} : WritesAll before [] []
  | filler {before text : List Char} {t : Token} {nodes : List Node} (isFiller : t.IsFiller)
      (rest : WritesAll (before ++ t.render) nodes text) : WritesAll before nodes (t.render ++ text)
  | child {before text text' : List Char} {node : Node} {nodes : List Node}
      (first : Writes before node text) (rest : WritesAll (before ++ text) nodes text') :
      WritesAll before (node :: nodes) (text ++ text')

end

def WritesDocument (root : Node) (source : String) : Prop :=
  ∃ (lead : List Token) (text : List Char) (trail : List Token),
    (∀ t ∈ lead, t.IsMargin) ∧ (∀ t ∈ trail, t.IsMargin) ∧
    Writes (lead.flatMap Token.render) root text ∧
    source.toList = lead.flatMap Token.render ++ text ++ trail.flatMap Token.render

end WireSchema.Markup
