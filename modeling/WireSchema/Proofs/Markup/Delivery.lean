import WireSchema.Markup.Event
import WireSchema.Proofs.Outcome

namespace WireSchema.Markup

open Outcome

variable {ε σ : Type}

/-- Delivers events until one is refused. `error` is what is wrong behind them. -/
def walkEvents (handle : σ → Event → Except ε σ) (state : σ) (error : Option Error) :
    List Event → Walk ε σ
  | [] => ⟨state, error.map .markup⟩
  | e :: es =>
    match handle state e with
    | .error x => ⟨state, some (.handler x)⟩
    | .ok next => walkEvents handle next error es

section Trace

variable (handle : σ → Event → Except ε σ)

theorem andThen_of_stop {w : Walk ε σ} (h : w.stop ≠ none) (next : σ → Walk ε σ) :
    w.andThen next = w := by
  rw [Walk.andThen]
  cases hw : w.stop with
  | none => exact absurd hw h
  | some x => rfl

theorem stop_walkEvents_some (s : σ) (error : Error) (es : List Event) :
    (walkEvents handle s (some error) es).stop ≠ none := by
  induction es generalizing s with
  | nil => simp [walkEvents]
  | cons e es ih =>
      rw [walkEvents]
      split
      next => simp
      next t _ => exact ih t

theorem walkEvents_append (s : σ) (es es' : List Event) (error : Option Error) :
    walkEvents handle s error (es ++ es') =
      (walkEvents handle s none es).andThen fun t => walkEvents handle t error es' := by
  induction es generalizing s with
  | nil => rfl
  | cons e es ih =>
      rw [List.cons_append, walkEvents, walkEvents]
      cases handle s e with
      | error x => rfl
      | ok t => exact ih t

def Trace.deliver (t : Trace) (s : σ) : Walk ε σ :=
  walkEvents handle s t.error t.events

theorem deliver_append (a b : Trace) (s : σ) :
    (a.append b).deliver handle s = (a.deliver handle s).andThen (b.deliver handle) := by
  obtain ⟨es, error⟩ := a
  cases error with
  | none => exact walkEvents_append handle s es b.events b.error
  | some e => exact (andThen_of_stop (stop_walkEvents_some handle s e es) _).symm

theorem deliver_event (e : Event) (s : σ) :
    (Trace.event e).deliver handle s = Walk.deliver handle s e := by
  simp only [Trace.deliver, Trace.event, walkEvents, Walk.deliver]
  cases handle s e <;> rfl

theorem deliver_fail (e : Error) (s : σ) : (Trace.fail e).deliver handle s = Walk.fail s e := rfl

mutual

theorem Element.walk_eq (e : Element) (s : σ) : e.walk handle s = e.trace.deliver handle s := by
  cases e with
  | mk tag line children endName endLine =>
      rw [Element.walk, Element.trace]
      cases readAttributes (String.ofList tag.name) line [] tag.attributes with
      | error x => rfl
      | ok attributes =>
          simp only [deliver_append, deliver_event]
          congr 1
          funext t
          rw [Element.walkAll_eq children t, deliver_append]
          congr 1
          funext u
          split
          next => rw [deliver_event]
          next => rw [deliver_fail]

theorem Element.walkAll_eq (es : List Element) (s : σ) :
    Element.walkAll handle s es = (Element.traces es).deliver handle s := by
  cases es with
  | nil => rfl
  | cons e es =>
      rw [Element.walkAll, Element.traces, deliver_append, Element.walk_eq e s]
      congr 1
      funext t
      exact Element.walkAll_eq es t

end

theorem walk_eq (s : σ) (source : String) :
    walk handle s source = walkEvents handle s (trace source).error (trace source).events := by
  rw [walk, trace]
  cases parse? source with
  | none => rfl
  | some root => exact Element.walk_eq handle root s

end Trace

section Handler

variable {handle : σ → Event → Except ε σ} {s t : σ} {es : List Event}

theorem walkEvents_of_ok (error : Option Error) (h : es.foldlM handle s = .ok t) :
    walkEvents handle s error es = ⟨t, error.map .markup⟩ := by
  induction es generalizing s with
  | nil =>
      cases h
      rfl
  | cons e es ih =>
      rw [List.foldlM_cons] at h
      obtain ⟨u, hu, h⟩ := bind_eq_ok.1 h
      rw [walkEvents, hu]
      exact ih h

theorem walkEvents_of_refused (error : Option Error) {e : Event} {x : ε}
    (h : es.foldlM handle s = .ok t) (he : handle t e = .error x) (rest : List Event) :
    walkEvents handle s error (es ++ e :: rest) = ⟨t, some (.handler x)⟩ := by
  rw [walkEvents_append, walkEvents_of_ok none h]
  change walkEvents handle t error (e :: rest) = _
  rw [walkEvents, he]

theorem exists_refused {x : ε} (h : es.foldlM handle s = .error x) : ∃ done e rest t,
    es = done ++ e :: rest ∧ done.foldlM handle s = .ok t ∧ handle t e = .error x := by
  induction es generalizing s with
  | nil => cases h
  | cons e es ih =>
      rw [List.foldlM_cons] at h
      rcases bind_eq_error.1 h with h | ⟨u, hu, h⟩
      · exact ⟨[], e, es, s, rfl, rfl, h⟩
      · obtain ⟨done, e', rest, t, rfl, hdone, he⟩ := ih h
        refine ⟨e :: done, e', rest, t, rfl, ?_, he⟩
        rw [List.foldlM_cons, hu]
        exact hdone

theorem stop_walkEvents {x : ε} (error : Option Error) (h : es.foldlM handle s = .error x) :
    (walkEvents handle s error es).stop = some (.handler x) := by
  obtain ⟨done, e, rest, t, rfl, hdone, he⟩ := exists_refused h
  rw [walkEvents_of_refused error hdone he]

end Handler

end WireSchema.Markup
