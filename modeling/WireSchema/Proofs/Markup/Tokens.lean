import WireSchema.Proofs.Markup.Scanning

namespace WireSchema.Markup

section Parts

variable {cs rest : List Char}

theorem scanName?_eq_some {name : List Char} (h : scanName? cs = some (name, rest)) :
    cs = name ++ rest ∧ IsName name := by
  cases cs with
  | nil => cases h
  | cons c cs =>
      rw [scanName?] at h
      split at h
      next hc =>
        cases h
        exact ⟨by simp, hc, fun d hd => List.mem_takeWhile_imp hd⟩
      next => cases h

theorem isBlanks_takeWhile (cs : List Char) : IsBlanks (cs.takeWhile isBlank) :=
  fun _ hc => List.mem_takeWhile_imp hc

theorem stops_dropWhile (p : Char → Bool) (cs : List Char) : Stops p (cs.dropWhile p) := by
  have hfirst := List.head?_dropWhile_not p cs
  intro c hc
  rw [Option.mem_def.1 hc] at hfirst
  exact hfirst

theorem scanValue?_eq_some {quote : Quote} {value : List Char}
    (h : Attribute.scanValue? quote cs = some (value, rest)) :
    cs = value ++ quote.char :: rest ∧ ∀ c ∈ value, (c != quote.char && c != '<') = true := by
  simp only [Attribute.scanValue?] at h
  split at h
  next c after hdrop =>
    split at h
    next hc =>
      cases h
      refine ⟨?_, fun d hd => List.mem_takeWhile_imp (p := fun c => c != quote.char && c != '<') hd⟩
      rw [hc] at hdrop
      rw [← hdrop, List.takeWhile_append_dropWhile]
    next => cases h
  next => cases h

theorem ofChar?_eq_some {c : Char} {quote : Quote} (h : Quote.ofChar? c = some quote) :
    c = quote.char := by
  rw [Quote.ofChar?.eq_def] at h
  split at h <;> cases h <;> rfl

theorem scan?_eq_some {a : Attribute} (h : Attribute.scan? cs = some (a, rest)) :
    cs = a.render ++ rest ∧ a.IsClosed := by
  simp only [Attribute.scan?] at h
  split at h
  next => cases h
  next hlead =>
    split at h
    next => cases h
    next name behindName hname =>
      split at h
      next behindEquals hequals =>
        split at h
        next => cases h
        next q inside hquote =>
          split at h
          next => cases h
          next quote hq =>
            obtain ⟨⟨value, behind⟩, hvalue, hresult⟩ := Option.map_eq_some_iff.1 h
            cases hresult
            obtain ⟨hcs, hisName⟩ := scanName?_eq_some hname
            obtain ⟨rfl, hinside⟩ := scanValue?_eq_some hvalue
            obtain rfl := ofChar?_eq_some hq
            refine ⟨?_, by simpa using hlead, ⟨isBlanks_takeWhile _, isBlanks_takeWhile _,
              isBlanks_takeWhile _⟩, hisName, hinside⟩
            have hbehindName : behindName = behindName.takeWhile isBlank ++ '=' :: behindEquals := by
              rw [← hequals, List.takeWhile_append_dropWhile]
            have hbehindEquals : behindEquals = behindEquals.takeWhile isBlank ++
                quote.char :: (value ++ quote.char :: behind) := by
              rw [← hquote, List.takeWhile_append_dropWhile]
            calc cs = cs.takeWhile isBlank ++ (name ++ behindName) := by
                  rw [← hcs, List.takeWhile_append_dropWhile]
              _ = cs.takeWhile isBlank ++ (name ++ (behindName.takeWhile isBlank ++ '=' ::
                    (behindEquals.takeWhile isBlank ++
                      quote.char :: (value ++ quote.char :: behind)))) := by
                  rw [← hbehindEquals, ← hbehindName]
              _ = _ := by simp [Attribute.render]
      next => cases h

theorem scanAttributes_eq (cs : List Char) :
    cs = (scanAttributes cs).1.flatMap Attribute.render ++ (scanAttributes cs).2 ∧
      ∀ a ∈ (scanAttributes cs).1, a.IsClosed := by
  fun_induction scanAttributes cs with
  | case1 => simp
  | case2 cs a rest hscan attributes behind heq ih =>
      obtain ⟨rfl, ha⟩ := scan?_eq_some hscan
      rw [heq] at ih
      obtain ⟨hrest, has⟩ := ih
      refine ⟨?_, List.forall_mem_cons.2 ⟨ha, has⟩⟩
      rw [List.flatMap_cons, List.append_assoc, ← hrest]

theorem splitAtMark?_eq_some {mark body : List Char} (hmark : mark ≠ [])
    (h : splitAtMark? mark cs = some (body, rest)) :
    cs = body ++ (mark ++ rest) ∧ ¬mark <:+: body := by
  induction cs generalizing body with
  | nil => simp [splitAtMark?, hmark] at h
  | cons c cs ih =>
      rw [splitAtMark?] at h
      split at h
      next behind hbehind =>
        cases h
        exact ⟨by simpa using Text.behind?_eq_some_iff.1 hbehind, by simpa using hmark⟩
      next hnone =>
        obtain ⟨⟨body, behind⟩, hsplit, hresult⟩ := Option.map_eq_some_iff.1 h
        cases hresult
        obtain ⟨rfl, hbody⟩ := ih hsplit
        refine ⟨rfl, ?_⟩
        rw [List.infix_cons_iff, not_or]
        refine ⟨?_, hbody⟩
        rintro ⟨front, hfront⟩
        have hsome : Text.behind? mark (c :: (body ++ (mark ++ rest))) =
            some (front ++ (mark ++ rest)) := by
          rw [Text.behind?_eq_some_iff, ← List.append_assoc mark, hfront, List.cons_append]
        rw [hsome] at hnone
        cases hnone

end Parts

section Tokens

variable {cs rest : List Char} {t : Token}

theorem exists_of_map_splitAtMark? {mark : List Char} (hmark : mark ≠ []) {token : List Char → Token}
    (h : (splitAtMark? mark cs).map (fun x => (token x.1, x.2)) = some (t, rest)) :
    ∃ body, t = token body ∧ cs = body ++ (mark ++ rest) ∧ ¬mark <:+: body := by
  obtain ⟨⟨body, behind⟩, hsplit, hresult⟩ := Option.map_eq_some_iff.1 h
  cases hresult
  exact ⟨body, rfl, splitAtMark?_eq_some hmark hsplit⟩

theorem scanTag?_eq_some (h : scanTag? cs = some (t, rest)) :
    '<' :: cs = t.render ++ rest ∧ t.IsClosed := by
  simp only [scanTag?] at h
  split at h
  next => cases h
  next name behindName hname =>
    obtain ⟨rfl, hisName⟩ := scanName?_eq_some hname
    obtain ⟨hattributes, hclosed⟩ := scanAttributes_eq behindName
    have hbehind := List.takeWhile_append_dropWhile (p := isBlank) (l := (scanAttributes behindName).2)
    split at h
    next behind hdrop =>
      simp only [Option.some.injEq, Prod.mk.injEq] at h
      obtain ⟨rfl, rfl⟩ := h
      refine And.intro ?_ (Tag.IsClosed.mk hisName hclosed (isBlanks_takeWhile _))
      rw [hdrop] at hbehind
      conv_lhs => rw [hattributes, ← hbehind]
      change _ = '<' :: Tag.render _ ++ ['>'] ++ behind
      simp only [Tag.render, List.cons_append, List.append_assoc, List.nil_append]
    next behind hdrop =>
      simp only [Option.some.injEq, Prod.mk.injEq] at h
      obtain ⟨rfl, rfl⟩ := h
      refine And.intro ?_ (Tag.IsClosed.mk hisName hclosed (isBlanks_takeWhile _))
      rw [hdrop] at hbehind
      conv_lhs => rw [hattributes, ← hbehind]
      change _ = '<' :: Tag.render _ ++ ['/', '>'] ++ behind
      simp only [Tag.render, List.cons_append, List.append_assoc, List.nil_append]
    next => cases h

theorem scanClose?_eq_some (h : scanClose? cs = some (t, rest)) :
    '<' :: '/' :: cs = t.render ++ rest ∧ t.IsClosed := by
  simp only [scanClose?] at h
  split at h
  next => cases h
  next name behindName hname =>
    obtain ⟨rfl, hisName⟩ := scanName?_eq_some hname
    have hbehind := List.takeWhile_append_dropWhile (p := isBlank) (l := behindName)
    split at h
    next behind hdrop =>
      simp only [Option.some.injEq, Prod.mk.injEq] at h
      obtain ⟨rfl, rfl⟩ := h
      refine And.intro ?_ (And.intro hisName (isBlanks_takeWhile _))
      rw [hdrop] at hbehind
      conv_lhs => rw [← hbehind]
      change _ = '<' :: '/' :: name ++ behindName.takeWhile isBlank ++ ['>'] ++ behind
      simp only [List.cons_append, List.append_assoc, List.nil_append]
    next => cases h

theorem append_marks (first body last rest : List Char) :
    first ++ (body ++ (last ++ rest)) = first ++ body ++ last ++ rest := by
  simp only [List.append_assoc]

theorem scanDeclaration?_eq_some (h : scanDeclaration? cs = some (t, rest)) :
    '<' :: '!' :: cs = t.render ++ rest ∧ t.IsClosed := by
  simp only [scanDeclaration?] at h
  split at h
  next inside hinside =>
    obtain ⟨body, rfl, rfl, hbody⟩ := exists_of_map_splitAtMark? (by decide) h
    rw [Text.behind?_eq_some_iff.1 hinside]
    exact And.intro (append_marks "<!--".toList body "-->".toList rest) hbody
  next =>
    split at h
    next inside hinside =>
      obtain ⟨body, rfl, rfl, hbody⟩ := exists_of_map_splitAtMark? (by decide) h
      rw [Text.behind?_eq_some_iff.1 hinside]
      exact And.intro (append_marks "<![CDATA[".toList body "]]>".toList rest) hbody
    next =>
      split at h
      next inside hinside =>
        obtain ⟨body, rfl, rfl, hbody⟩ := exists_of_map_splitAtMark? (by decide) h
        rw [Text.behind?_eq_some_iff.1 hinside]
        refine And.intro (append_marks "<!DOCTYPE".toList body ">".toList rest) ?_
        intro hmem
        obtain ⟨front, back, hfront⟩ := List.append_of_mem hmem
        exact hbody ⟨front, back, by rw [List.append_assoc]; exact hfront.symm⟩
      next => cases h

theorem scanInstruction?_eq_some
    (h : (splitAtMark? "?>".toList cs).map (fun x => (Token.instruction x.1, x.2)) =
      some (t, rest)) : '<' :: '?' :: cs = t.render ++ rest ∧ t.IsClosed := by
  obtain ⟨body, rfl, rfl, hbody⟩ := exists_of_map_splitAtMark? (by decide) h
  exact And.intro (append_marks "<?".toList body "?>".toList rest) hbody

theorem scanToken?_eq_some (h : scanToken? cs = some (t, rest)) : cs = t.render ++ rest ∧
    (t.IsClosed ∨ ∃ body, t = .text body ∧ body ≠ [] ∧ '<' ∉ body ∧ Stops (· != '<') rest) := by
  rw [scanToken?.eq_def] at h
  split at h
  next => cases h
  next => exact (scanClose?_eq_some h).imp_right .inl
  next => exact (scanDeclaration?_eq_some h).imp_right .inl
  next => exact (scanInstruction?_eq_some h).imp_right .inl
  next => exact (scanTag?_eq_some h).imp_right .inl
  next c cs _ _ _ hbracket =>
    simp only [Option.some.injEq, Prod.mk.injEq] at h
    obtain ⟨rfl, rfl⟩ := h
    refine ⟨?_, .inr ⟨_, rfl, List.cons_ne_nil _ _, ?_, ?_⟩⟩
    · change c :: cs = c :: cs.takeWhile (· != '<') ++ cs.dropWhile (· != '<')
      rw [List.cons_append, List.takeWhile_append_dropWhile]
    · rw [List.mem_cons, not_or]
      refine ⟨fun heq => hbracket heq.symm, ?_⟩
      intro hmem
      exact absurd (List.mem_takeWhile_imp (p := (· != '<')) hmem) (by decide)
    · exact stops_dropWhile _ cs

end Tokens

/-- Tokens that can be told apart when they are written one behind the other. -/
inductive Scanned : List Token → Prop
  | nil : Scanned []
  | closed {t : Token} {ts : List Token} (isClosed : t.IsClosed) (behind : Scanned ts) :
      Scanned (t :: ts)
  | text {body : List Char} {ts : List Token} (filled : body ≠ []) (inside : '<' ∉ body)
      (next : ∀ t ∈ ts.head?, t.IsClosed) (behind : Scanned ts) : Scanned (.text body :: ts)

theorem render_of_isClosed {t : Token} (h : t.IsClosed) : ∃ cs, t.render = '<' :: cs := by
  cases t with
  | text body => cases h
  | start | empty | close | comment | instruction | doctype | cdata => exact ⟨_, rfl⟩

theorem stops_flatMap_render {ts : List Token} (h : ∀ t ∈ ts.head?, t.IsClosed) :
    Stops (· != '<') (ts.flatMap Token.render) := by
  cases ts with
  | nil => simp [Stops]
  | cons t ts =>
      obtain ⟨cs, hcs⟩ := render_of_isClosed (h t rfl)
      rw [List.flatMap_cons, hcs]
      exact stops_cons (by decide)

theorem Scanned.tokens?_eq {ts : List Token} (h : Scanned ts) :
    tokens? (ts.flatMap Token.render) = some ts := by
  induction h with
  | nil => exact tokens?_nil
  | closed isClosed _ ih => rw [List.flatMap_cons, tokens?_render isClosed, ih, Option.map_some]
  | @text body ts filled inside next _ ih =>
      obtain ⟨c, cs, rfl⟩ := List.exists_cons_of_ne_nil filled
      rw [List.mem_cons, not_or] at inside
      have hcs : ∀ d ∈ cs, (d != '<') = true := by
        intro d hd
        rw [bne_iff_ne]
        rintro rfl
        exact inside.2 hd
      have hstops := stops_flatMap_render next
      have hscan := scanToken?_text (Ne.symm inside.1) (cs ++ ts.flatMap Token.render)
      rw [takeWhile_of_stops hcs hstops, dropWhile_of_stops hcs hstops] at hscan
      rw [List.flatMap_cons]
      exact (tokens?_of_scan hscan).trans (by rw [ih, Option.map_some])

theorem scanned_of_tokens? {cs : List Char} {ts : List Token} (h : tokens? cs = some ts) :
    Scanned ts ∧ cs = ts.flatMap Token.render := by
  fun_induction tokens? cs generalizing ts with
  | case1 cs hcs =>
      cases h
      exact ⟨.nil, List.isEmpty_iff.1 hcs⟩
  | case2 => cases h
  | case3 cs _ t rest hscan ih =>
      obtain ⟨ts, hrest, rfl⟩ := Option.map_eq_some_iff.1 h
      obtain ⟨hts, rfl⟩ := ih hrest
      obtain ⟨hcs, hclosed | ⟨body, rfl, hfilled, hinside, hstops⟩⟩ := scanToken?_eq_some hscan
      · exact ⟨.closed hclosed hts, hcs⟩
      · refine ⟨.text hfilled hinside ?_ hts, hcs⟩
        cases hts with
        | nil => simp
        | closed isClosed _ => simpa using isClosed
        | @text body ts filled inside next _ =>
            -- Then the first text would have been read further.
            obtain ⟨c, cs, rfl⟩ := List.exists_cons_of_ne_nil filled
            obtain rfl : c = '<' := by simpa using hstops c rfl
            exact absurd List.mem_cons_self inside

theorem tokens?_eq_some {cs : List Char} {ts : List Token} :
    tokens? cs = some ts ↔ Scanned ts ∧ cs = ts.flatMap Token.render := by
  constructor
  · exact scanned_of_tokens?
  · rintro ⟨hts, rfl⟩
    exact hts.tokens?_eq

end WireSchema.Markup
