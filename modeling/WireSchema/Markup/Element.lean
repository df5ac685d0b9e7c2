import WireSchema.Markup.Token

namespace WireSchema.Markup

inductive Element where
  | mk (tag : Tag) (line : Nat) (children : List Element) (endName : List Char) (endLine : Nat)

namespace Element

def leaf (tag : Tag) (line : Nat) : Element :=
  mk tag line [] tag.name line

end Element

structure Located where
  line : Nat
  token : Token

def locate (line : Nat) : List Token → List Located
  | [] => []
  | t :: ts => ⟨line, t⟩ :: locate (line + t.newlines) ts

def Token.isMisc : Token → Bool
  | comment _ | instruction _ | doctype _ => true
  | text body => body.all isBlank
  | _ => false

/-- An element whose end tag is still to come, with the children read so far, last one first. -/
structure OpenElement where
  tag : Tag
  line : Nat
  children : List Element

/-- Reads the rest of the element `inner`, which stands inside the elements `outer`, up to the end
of the outermost one. -/
def closeAll? (inner : OpenElement) (outer : List OpenElement) :
    List Located → Option (Element × List Located)
  | [] => none
  | ⟨line, token⟩ :: rest =>
    match token with
    | .start tag => closeAll? ⟨tag, line, []⟩ (inner :: outer) rest
    | .empty tag => closeAll? ⟨inner.tag, inner.line, .leaf tag line :: inner.children⟩ outer rest
    | .close name _ =>
      let element := Element.mk inner.tag inner.line inner.children.reverse name line
      match outer with
      | [] => some (element, rest)
      | next :: outer => closeAll? ⟨next.tag, next.line, element :: next.children⟩ outer rest
    | .comment _ | .instruction _ | .cdata _ | .text _ => closeAll? inner outer rest
    | .doctype _ => none

def rootElement? : List Located → Option Element
  | [] => none
  | ⟨line, token⟩ :: rest =>
    if token.isMisc then rootElement? rest
    else
      let root : Option (Element × List Located) := match token with
        | .start tag => closeAll? ⟨tag, line, []⟩ [] rest
        | .empty tag => some (.leaf tag line, rest)
        | _ => none
      (root.filter fun (_, rest) => rest.all (·.token.isMisc)).map Prod.fst

/-- A document is one element with comments, instructions, document types and blanks around it. That
an end tag has the name of its start tag is not required here. -/
def parse? (source : String) : Option Element :=
  (tokens? source.toList).bind fun ts => rootElement? (locate 1 ts)

end WireSchema.Markup
