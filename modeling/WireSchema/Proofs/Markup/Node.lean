import WireSchema.Proofs.Markup.Delivery

namespace WireSchema.Markup

open Outcome

inductive Node where
  | mk (name : String) (attributes : List (String × String)) (line : Nat) (children : List Node)
      (endLine : Nat)

namespace Node

def name : Node → String
  | mk name .. => name

def attributes : Node → List (String × String)
  | mk _ attributes .. => attributes

def line : Node → Nat
  | mk _ _ line .. => line

def children : Node → List Node
  | mk _ _ _ children _ => children

def endLine : Node → Nat
  | mk _ _ _ _ endLine => endLine

mutual

def events : Node → List Event
  | mk name attributes line children endLine =>
    .start name attributes line :: (eventsAll children ++ [.stop name endLine])

def eventsAll : List Node → List Event
  | [] => []
  | n :: ns => events n ++ eventsAll ns

end

end Node

mutual

def Element.node? : Element → Option Node
  | .mk tag line children endName endLine => do
    let name := String.ofList tag.name
    let attributes ← (readAttributes name line [] tag.attributes).toOption
    let nodes ← Element.nodes? children
    if endName = tag.name then some (.mk name attributes line nodes endLine) else none

def Element.nodes? : List Element → Option (List Node)
  | [] => some []
  | e :: es => do
    let node ← Element.node? e
    let nodes ← Element.nodes? es
    return node :: nodes

end

def tree? (source : String) : Option Node :=
  (parse? source).bind Element.node?

namespace Trace

theorem append_of_error {a : Trace} (h : a.error ≠ none) (b : Trace) : a.append b = a := by
  obtain ⟨events, error⟩ := a
  cases error with
  | none => exact absurd rfl h
  | some e => rfl

theorem append_ok (es : List Event) (b : Trace) :
    append ⟨es, none⟩ b = ⟨es ++ b.events, b.error⟩ := rfl

theorem error_append {a b : Trace} (h : (a.append b).error = none) :
    a.error = none ∧ b.error = none := by
  by_cases ha : a.error = none
  · obtain ⟨events, error⟩ := a
    cases ha
    exact ⟨rfl, h⟩
  · rw [append_of_error ha] at h
    exact absurd h ha

end Trace

namespace Element

theorem node?_eq_some {tag : Tag} {line endLine : Nat} {children : List Element}
    {endName : List Char} {n : Node} :
    node? (.mk tag line children endName endLine) = some n ↔ ∃ attributes nodes,
      readAttributes (String.ofList tag.name) line [] tag.attributes = .ok attributes ∧
      nodes? children = some nodes ∧ endName = tag.name ∧
      n = .mk (String.ofList tag.name) attributes line nodes endLine := by
  rw [node?]
  cases readAttributes (String.ofList tag.name) line [] tag.attributes with
  | error e => simp [Except.toOption]
  | ok attributes =>
      cases nodes? children with
      | none => simp [Except.toOption]
      | some nodes => simp [Except.toOption, eq_comm]

theorem nodes?_cons {e : Element} {es : List Element} {nodes : List Node} :
    nodes? (e :: es) = some nodes ↔
      ∃ n ns, e.node? = some n ∧ nodes? es = some ns ∧ nodes = n :: ns := by
  rw [nodes?]
  cases e.node? <;> cases nodes? es <;> simp [eq_comm]

mutual

theorem trace_of_node? {e : Element} {n : Node} (h : e.node? = some n) :
    e.trace = ⟨n.events, none⟩ := by
  cases e with
  | mk tag line children endName endLine =>
      obtain ⟨attributes, nodes, hattributes, hnodes, hname, rfl⟩ := node?_eq_some.1 h
      rw [trace, hattributes]
      simp only [hname, if_true, traces_of_nodes? hnodes]
      rfl

theorem traces_of_nodes? {es : List Element} {ns : List Node} (h : nodes? es = some ns) :
    traces es = ⟨Node.eventsAll ns, none⟩ := by
  cases es with
  | nil =>
      cases h
      rfl
  | cons e es =>
      obtain ⟨n, ns, hn, hns, rfl⟩ := nodes?_cons.1 h
      rw [traces, trace_of_node? hn, traces_of_nodes? hns, Trace.append_ok, Node.eventsAll]

end

mutual

theorem exists_node (e : Element) (h : e.trace.error = none) : ∃ n, e.node? = some n := by
  cases e with
  | mk tag line children endName endLine =>
      rw [trace] at h
      cases hattributes : readAttributes (String.ofList tag.name) line [] tag.attributes with
      | error e =>
          rw [hattributes] at h
          cases h
      | ok attributes =>
          rw [hattributes] at h
          obtain ⟨hchildren, hending⟩ := Trace.error_append (Trace.error_append h).2
          obtain ⟨nodes, hnodes⟩ := exists_nodes children hchildren
          refine ⟨_, node?_eq_some.2 ⟨attributes, nodes, hattributes, hnodes, ?_, rfl⟩⟩
          by_contra hne
          rw [if_neg hne] at hending
          cases hending

theorem exists_nodes (es : List Element) (h : (traces es).error = none) :
    ∃ ns, nodes? es = some ns := by
  cases es with
  | nil => exact ⟨[], rfl⟩
  | cons e es =>
      obtain ⟨he, hes⟩ := Trace.error_append h
      obtain ⟨n, hn⟩ := exists_node e he
      obtain ⟨ns, hns⟩ := exists_nodes es hes
      exact ⟨n :: ns, nodes?_cons.2 ⟨n, ns, hn, hns, rfl⟩⟩

end

end Element

theorem trace_of_tree? {source : String} {root : Node} (h : tree? source = some root) :
    trace source = ⟨root.events, none⟩ := by
  obtain ⟨e, he, hroot⟩ := Option.bind_eq_some_iff.1 h
  rw [trace, he]
  exact Element.trace_of_node? hroot

theorem exists_tree {source : String} (h : (trace source).error = none) :
    ∃ root, tree? source = some root := by
  rw [trace] at h
  cases he : parse? source with
  | none =>
      rw [he] at h
      cases h
  | some e =>
      rw [he] at h
      obtain ⟨n, hn⟩ := e.exists_node h
      exact ⟨n, by rw [tree?, he]; exact hn⟩

def openAfter (k : Nat) : List Event → Nat
  | [] => k
  | .start .. :: es => openAfter (k + 1) es
  | .stop .. :: es => openAfter (k - 1) es

theorem openAfter_append (k : Nat) (es es' : List Event) :
    openAfter k (es ++ es') = openAfter (openAfter k es) es' := by
  induction es generalizing k with
  | nil => rfl
  | cons e es ih => cases e <;> exact ih _

mutual

theorem openAfter_events (k : Nat) (n : Node) : openAfter k n.events = k := by
  cases n with
  | mk name attributes line children endLine =>
      rw [Node.events, openAfter, openAfter_append, openAfter_eventsAll (k + 1) children]
      rfl

theorem openAfter_eventsAll (k : Nat) (ns : List Node) : openAfter k (Node.eventsAll ns) = k := by
  cases ns with
  | nil => rfl
  | cons n ns =>
      rw [Node.eventsAll, openAfter_append, openAfter_events k n, openAfter_eventsAll k ns]

end

mutual

theorem lt_openAfter {k : Nat} (n : Node) {es es' : List Event} (h : n.events = es ++ es')
    (hes : es ≠ []) (hes' : es' ≠ []) : k < openAfter k es := by
  cases n with
  | mk name attributes line children endLine =>
      obtain ⟨e, es, rfl⟩ := List.exists_cons_of_ne_nil hes
      rw [Node.events, List.cons_append, List.cons.injEq] at h
      obtain ⟨rfl, h⟩ := h
      rw [openAfter]
      rcases List.append_eq_append_iff.1 h with ⟨mid, rfl, hstop⟩ | ⟨mid, hchildren, -⟩
      · -- All children are behind, and only the end is left.
        have hmid : mid = [] := by
          have hlength := congrArg List.length hstop
          have hpos := List.length_pos_iff.2 hes'
          simp only [List.length_cons, List.length_nil, List.length_append] at hlength
          exact List.eq_nil_of_length_eq_zero (by omega)
        rw [hmid, List.append_nil, openAfter_eventsAll]
        omega
      · exact le_openAfter children hchildren

theorem le_openAfter {k : Nat} (ns : List Node) {es es' : List Event}
    (h : Node.eventsAll ns = es ++ es') : k ≤ openAfter k es := by
  cases ns with
  | nil =>
      obtain ⟨rfl, -⟩ := List.append_eq_nil_iff.1 h.symm
      exact Nat.le_refl k
  | cons n ns =>
      rw [Node.eventsAll] at h
      rcases List.append_eq_append_iff.1 h with ⟨mid, rfl, hmid⟩ | ⟨mid, hn, -⟩
      · rw [openAfter_append, openAfter_events]
        exact le_openAfter ns hmid
      · by_cases hes : es = []
        · rw [hes]
          exact Nat.le_refl k
        · by_cases hmid : mid = []
          · rw [hmid, List.append_nil] at hn
            exact (Nat.le_of_eq (hn ▸ openAfter_events k n).symm)
          · exact Nat.le_of_lt (lt_openAfter n hn hes hmid)

end

end WireSchema.Markup
