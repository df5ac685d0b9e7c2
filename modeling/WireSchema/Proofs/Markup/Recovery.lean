import WireSchema.Proofs.Markup.Scanning

namespace WireSchema.Markup

open Outcome

section Values

theorem decodeChars_of_escapes {quote : Quote} {value raw : List Char} (h : Escapes quote value raw)
    (whole : String) : decodeChars whole raw = .ok value := by
  induction h with
  | nil => rw [decodeChars]
  | plain amp less inside _ ih =>
      rw [decodeChars_plain amp, ih]
      rfl
  | reference refers _ ih =>
      rw [decodeChars_reference refers, ih]
      rfl

theorem decodeEntities_of_writes {a : Attribute} {name value : String} (h : a.Writes name value) :
    decodeEntities (String.ofList a.value) = .ok value := by
  rw [decodeEntities, String.toList_ofList, decodeChars_of_escapes h.escapes]
  simp [Except.map]

theorem readAttributes_of_writes {element : String} {line : Nat} {as : List Attribute}
    {done attributes : List (String × String)}
    (h : List.Forall₂ (fun a e => a.Writes e.1 e.2) as attributes)
    (hdistinct : ((done ++ attributes).map Prod.fst).Nodup) :
    readAttributes element line done as = .ok (done ++ attributes) := by
  induction h generalizing done with
  | nil => rw [readAttributes, List.append_nil]
  | @cons a e as attributes ha _ ih =>
      have hnew : done.any (·.1 == e.1) = false := by
        rw [List.any_eq_false]
        intro x hx heq
        rw [beq_iff_eq] at heq
        rw [List.map_append, List.nodup_append] at hdistinct
        exact hdistinct.2.2 x.1 (List.mem_map_of_mem hx) e.1 (by simp) heq
      rw [readAttributes]
      simp only [decodeEntities_of_writes ha, ha.named, hnew]
      rw [if_neg (by simp), ih (by simpa using hdistinct)]
      simp

end Values

section Elements

variable {inner : OpenElement} {outer : List OpenElement} {before cs : List Char} {t : Token}

def closing? (inner : OpenElement) (outer : List OpenElement) (line : Nat) (cs : List Char) :
    Option (Element × List Located) :=
  (tokens? cs).bind fun ts => closeAll? inner outer (locate line ts)

theorem lineAfter_append (before : List Char) (t : Token) :
    lineAfter before + t.newlines = lineAfter (before ++ t.render) := by
  rw [lineAfter, lineAfter, Token.newlines, List.count_append, Nat.add_assoc]

theorem newlines_text (c : Char) (body : List Char) : (Token.text (c :: body)).newlines =
    [c].count '\n' + (Token.text body).newlines := by
  change ([c] ++ body).count '\n' = _
  exact List.count_append

theorem through_text {α : Type} {f : Nat → List Char → α} {body : List Char}
    (h : ∀ c ∈ body, ∀ line cs, f line (c :: cs) = f (line + [c].count '\n') cs) :
    f (lineAfter before) (body ++ cs) = f (lineAfter (before ++ body)) cs := by
  induction body generalizing before with
  | nil => simp
  | cons c body ih =>
      have hline : lineAfter before + [c].count '\n' = lineAfter (before ++ [c]) :=
        lineAfter_append before (.text [c])
      have hbody : f (lineAfter (before ++ [c])) (body ++ cs) =
          f (lineAfter (before ++ [c] ++ body)) cs :=
        ih fun d hd => h d (List.mem_cons_of_mem c hd)
      rw [List.cons_append, h c List.mem_cons_self, hline, hbody, List.append_assoc]
      rfl

theorem closing?_token (h : t.IsClosed) : closing? inner outer (lineAfter before) (t.render ++ cs) =
    (tokens? cs).bind fun ts =>
      closeAll? inner outer (⟨lineAfter before, t⟩ :: locate (lineAfter (before ++ t.render)) ts) := by
  rw [closing?, tokens?_render h, Option.bind_map, ← lineAfter_append]
  rfl

theorem closeAll?_joinText (c : Char) (line : Nat) (ts : List Token) :
    closeAll? inner outer (locate line (joinText c ts)) =
      closeAll? inner outer (locate (line + [c].count '\n') ts) := by
  cases ts with
  | nil => rfl
  | cons t ts =>
      cases t with
      | text body =>
          simp only [joinText, locate, closeAll?, newlines_text, Nat.add_assoc]
      | start | empty | close | comment | instruction | doctype | cdata => rfl

theorem closing?_char {c : Char} (hc : c ≠ '<') (line : Nat) (cs : List Char) :
    closing? inner outer line (c :: cs) = closing? inner outer (line + [c].count '\n') cs := by
  rw [closing?, tokens?_cons hc, Option.bind_map]
  simp only [Function.comp_def, closeAll?_joinText]
  rfl

theorem closing?_filler (h : t.IsFiller) :
    closing? inner outer (lineAfter before) (t.render ++ cs) =
      closing? inner outer (lineAfter (before ++ t.render)) cs := by
  cases t with
  | text body =>
      refine through_text fun c hc => closing?_char ?_
      rintro rfl
      exact h hc
  | comment body | instruction body | cdata body => exact closing?_token h
  | start | empty | close | doctype => cases h

/-- Inside any open elements, `text` is read as one more child of the innermost one. -/
def Reads (before text : List Char) (e : Element) : Prop :=
  ∀ inner outer cs, closing? inner outer (lineAfter before) (text ++ cs) =
    closing? ⟨inner.tag, inner.line, e :: inner.children⟩ outer (lineAfter (before ++ text)) cs

def ReadsAll (before text : List Char) (es : List Element) : Prop :=
  ∀ inner outer cs, closing? inner outer (lineAfter before) (text ++ cs) =
    closing? ⟨inner.tag, inner.line, es.reverse ++ inner.children⟩ outer
      (lineAfter (before ++ text)) cs

variable {tag : Tag} {name : String} {attributes : List (String × String)}

theorem reads_empty (htag : tag.Writes name attributes) :
    Reads before (Token.empty tag).render (.leaf tag (lineAfter before)) := by
  intro inner outer cs
  exact closing?_token (t := .empty tag) htag.isClosed

theorem closing?_start (htag : tag.Writes name attributes) :
    closing? inner outer (lineAfter before) ((Token.start tag).render ++ cs) =
      closing? ⟨tag, lineAfter before, []⟩ (inner :: outer)
        (lineAfter (before ++ (Token.start tag).render)) cs :=
  closing?_token (t := .start tag) htag.isClosed

theorem reads_full {content trail : List Char} {es : List Element}
    (htag : tag.Writes name attributes)
    (hinside : ReadsAll (before ++ (Token.start tag).render) content es) (htrail : IsBlanks trail) :
    Reads before ((Token.start tag).render ++ content ++ (Token.close tag.name trail).render)
      (.mk tag (lineAfter before) es tag.name
        (lineAfter (before ++ (Token.start tag).render ++ content))) := by
  intro inner outer cs
  rw [List.append_assoc, List.append_assoc, closing?_start htag, hinside,
    closing?_token (t := .close tag.name trail) ⟨htag.isName, htrail⟩]
  simp [closeAll?, closing?, List.append_assoc]

theorem readsAll_filler {text : List Char} {es : List Element} (hfiller : t.IsFiller)
    (hrest : ReadsAll (before ++ t.render) text es) : ReadsAll before (t.render ++ text) es := by
  intro inner outer cs
  rw [List.append_assoc, closing?_filler hfiller, hrest, List.append_assoc]

theorem readsAll_child {text text' : List Char} {e : Element} {es : List Element}
    (hfirst : Reads before text e) (hrest : ReadsAll (before ++ text) text' es) :
    ReadsAll before (text ++ text') (e :: es) := by
  intro inner outer cs
  rw [List.append_assoc, hfirst, hrest, List.append_assoc]
  simp

theorem node?_of_writes (htag : tag.Writes name attributes) {es : List Element} {nodes : List Node}
    (hes : Element.nodes? es = some nodes) (line endLine : Nat) :
    Element.node? (.mk tag line es tag.name endLine) =
      some (.mk name attributes line nodes endLine) := by
  have hread : readAttributes (String.ofList tag.name) line [] tag.attributes = .ok attributes :=
    readAttributes_of_writes htag.written htag.distinct
  exact Element.node?_eq_some.2 ⟨attributes, nodes, hread, hes, rfl, by rw [htag.named]⟩

mutual

theorem exists_reads : ∀ {before text : List Char} {node : Node}, Writes before node text →
    ∃ e, e.node? = some node ∧ Reads before text e
  | _, _, _, .empty htag => ⟨_, node?_of_writes htag rfl _ _, reads_empty htag⟩
  | _, _, _, .full htag hinside htrail =>
      have ⟨_, hes, hreads⟩ := exists_readsAll hinside
      ⟨_, node?_of_writes htag hes _ _, reads_full htag hreads htrail⟩

theorem exists_readsAll : ∀ {before text : List Char} {nodes : List Node},
    WritesAll before nodes text → ∃ es, Element.nodes? es = some nodes ∧ ReadsAll before text es
  | _, _, _, .nil => ⟨[], rfl, fun inner outer cs => by simp⟩
  | _, _, _, .filler hfiller hrest =>
      have ⟨es, hes, hreads⟩ := exists_readsAll hrest
      ⟨es, hes, readsAll_filler hfiller hreads⟩
  | _, _, _, .child hfirst hrest =>
      have ⟨e, he, hread⟩ := exists_reads hfirst
      have ⟨es, hes, hreads⟩ := exists_readsAll hrest
      ⟨e :: es, Element.nodes?_cons.2 ⟨_, _, he, hes, rfl⟩, readsAll_child hread hreads⟩

end

end Elements

section Documents

variable {before cs : List Char} {t : Token}

def rooting? (line : Nat) (cs : List Char) : Option Element :=
  (tokens? cs).bind fun ts => rootElement? (locate line ts)

theorem rooting?_token (h : t.IsClosed) : rooting? (lineAfter before) (t.render ++ cs) =
    (tokens? cs).bind fun ts =>
      rootElement? (⟨lineAfter before, t⟩ :: locate (lineAfter (before ++ t.render)) ts) := by
  rw [rooting?, tokens?_render h, Option.bind_map, ← lineAfter_append]
  rfl

theorem isMisc_text {c : Char} (hc : isBlank c = true) (body : List Char) :
    (Token.text (c :: body)).isMisc = (Token.text body).isMisc := by
  simp [Token.isMisc, hc]

theorem rootElement?_joinText {c : Char} (hc : isBlank c = true) (line : Nat) (ts : List Token) :
    rootElement? (locate line (joinText c ts)) =
      rootElement? (locate (line + [c].count '\n') ts) := by
  have hblank : (Token.text [c]).isMisc = true := by rw [isMisc_text hc]; rfl
  cases ts with
  | nil => simp [joinText, locate, rootElement?, hblank]
  | cons t ts =>
      cases t with
      | text body =>
          simp only [joinText, locate, rootElement?, isMisc_text hc, newlines_text, Nat.add_assoc]
      | start | empty | close | comment | instruction | doctype | cdata =>
          simp only [joinText, locate, rootElement?, hblank, if_true]
          rfl

theorem rooting?_char {c : Char} (hc : isBlank c = true) (line : Nat) (cs : List Char) :
    rooting? line (c :: cs) = rooting? (line + [c].count '\n') cs := by
  rw [rooting?, tokens?_cons (ne_less_of_isBlank hc), Option.bind_map]
  simp only [Function.comp_def, rootElement?_joinText hc]
  rfl

theorem rooting?_margin (h : t.IsMargin) : rooting? (lineAfter before) (t.render ++ cs) =
    rooting? (lineAfter (before ++ t.render)) cs := by
  cases t with
  | text body => exact through_text fun c hc => rooting?_char (h c hc)
  | comment body | instruction body | doctype body => exact rooting?_token h
  | start | empty | close | cdata => cases h

theorem rooting?_margins {lead : List Token} (h : ∀ t ∈ lead, t.IsMargin) :
    rooting? (lineAfter before) (lead.flatMap Token.render ++ cs) =
      rooting? (lineAfter (before ++ lead.flatMap Token.render)) cs := by
  induction lead generalizing before with
  | nil => simp
  | cons t lead ih =>
      rw [List.forall_mem_cons] at h
      rw [List.flatMap_cons, List.append_assoc, rooting?_margin h.1, ih h.2, List.append_assoc]

def IsTrailing (cs : List Char) : Prop :=
  ∃ ts, tokens? cs = some ts ∧ ts.all Token.isMisc = true

theorem IsTrailing.cons {c : Char} (hc : isBlank c = true) (h : IsTrailing cs) :
    IsTrailing (c :: cs) := by
  obtain ⟨ts, hts, hmisc⟩ := h
  have hblank : (Token.text [c]).isMisc = true := by rw [isMisc_text hc]; rfl
  refine ⟨joinText c ts, by rw [tokens?_cons (ne_less_of_isBlank hc), hts]; rfl, ?_⟩
  cases ts with
  | nil => simp [joinText, hblank]
  | cons t ts =>
      cases t with
      | text body => simpa [joinText, isMisc_text hc] using hmisc
      | start | empty | close | comment | instruction | doctype | cdata =>
          simpa [joinText, hblank] using hmisc

theorem IsTrailing.blanks {body : List Char} (hbody : IsBlanks body) (h : IsTrailing cs) :
    IsTrailing (body ++ cs) := by
  induction body with
  | nil => exact h
  | cons c body ih =>
      have hblank := List.forall_mem_cons.1 hbody
      exact (ih hblank.2).cons hblank.1

theorem IsTrailing.closed (ht : t.IsClosed) (hmisc : t.isMisc = true) (h : IsTrailing cs) :
    IsTrailing (t.render ++ cs) := by
  obtain ⟨ts, hts, hall⟩ := h
  exact ⟨t :: ts, by rw [tokens?_render ht, hts]; rfl, by simpa [hmisc] using hall⟩

theorem IsTrailing.margin (ht : t.IsMargin) (h : IsTrailing cs) : IsTrailing (t.render ++ cs) := by
  cases t with
  | text body => exact h.blanks ht
  | comment body | instruction body | doctype body => exact h.closed ht rfl
  | start | empty | close | cdata => cases ht

theorem isTrailing_margins {trail : List Token} (h : ∀ t ∈ trail, t.IsMargin) :
    IsTrailing (trail.flatMap Token.render) := by
  induction trail with
  | nil => exact ⟨[], tokens?_nil, rfl⟩
  | cons t trail ih =>
      rw [List.forall_mem_cons] at h
      exact (ih h.2).margin h.1

theorem all_locate (line : Nat) (ts : List Token) :
    (locate line ts).all (·.token.isMisc) = ts.all Token.isMisc := by
  induction ts generalizing line with
  | nil => rfl
  | cons t ts ih => rw [locate, List.all_cons, List.all_cons, ih]

theorem rooting?_start {tag : Tag} {name : String} {attributes : List (String × String)}
    (htag : tag.Writes name attributes) :
    rooting? (lineAfter before) ((Token.start tag).render ++ cs) =
      ((closing? ⟨tag, lineAfter before, []⟩ [] (lineAfter (before ++ (Token.start tag).render))
        cs).filter fun (_, rest) => rest.all (·.token.isMisc)).map Prod.fst := by
  rw [rooting?_token (t := .start tag) htag.isClosed, closing?]
  cases tokens? cs with
  | none => rfl
  | some ts => rfl

theorem exists_rooting {root : Node} {text : List Char} (h : Writes before root text)
    (htrail : IsTrailing cs) :
    ∃ e, e.node? = some root ∧ rooting? (lineAfter before) (text ++ cs) = some e := by
  obtain ⟨ts, hts, hmisc⟩ := htrail
  have hrest (line : Nat) : (locate line ts).all (·.token.isMisc) = true := by
    rw [all_locate, hmisc]
  cases h with
  | @empty _ tag name attributes htag =>
      refine ⟨.leaf tag (lineAfter before), node?_of_writes htag rfl _ _, ?_⟩
      rw [rooting?_token (t := .empty tag) htag.isClosed, hts]
      have helement : (Token.empty tag).isMisc = false := rfl
      simp only [Option.bind_some, rootElement?, helement, Bool.false_eq_true, if_false,
        Option.filter_some, hrest, if_true, Option.map_some]
  | @full _ content trail tag name attributes children htag hinside hblank =>
      obtain ⟨es, hes, hreads⟩ := exists_readsAll hinside
      refine ⟨_, node?_of_writes htag hes _ _, ?_⟩
      rw [List.append_assoc, List.append_assoc, rooting?_start htag, hreads,
        closing?_token (t := .close tag.name trail) ⟨htag.isName, hblank⟩, hts]
      simp only [Option.bind_some, closeAll?, Option.filter_some, hrest, if_true, Option.map_some,
        List.append_nil, List.reverse_reverse]

theorem tree?_of_writes {root : Node} {source : String} (h : WritesDocument root source) :
    tree? source = some root := by
  obtain ⟨lead, text, trail, hlead, htrail, hroot, hsource⟩ := h
  obtain ⟨e, he, hread⟩ := exists_rooting hroot (isTrailing_margins htrail)
  have hmargins : rooting? (lineAfter [])
      (lead.flatMap Token.render ++ (text ++ trail.flatMap Token.render)) =
      rooting? (lineAfter (lead.flatMap Token.render)) (text ++ trail.flatMap Token.render) :=
    rooting?_margins hlead
  have hparse : parse? source = some e := by
    rw [parse?, hsource, List.append_assoc]
    exact hmargins.trans hread
  rw [tree?, hparse]
  exact he

/-- Walking through a document delivers the events of the tree that was written, each with the line
of its tag, and finds nothing wrong. -/
theorem walk_of_writes {root : Node} {source : String} (h : WritesDocument root source) :
    walk (fun (es : List Event) e => (.ok (es ++ [e]) : Except Empty (List Event))) [] source =
        ⟨root.events, none⟩ ∧
      ∀ {ε σ : Type} (handle : σ → Event → Except ε σ) (s : σ),
        walk handle s source = walkEvents handle s none root.events := by
  have htrace := trace_of_tree? (tree?_of_writes h)
  have hwalk {ε σ : Type} (handle : σ → Event → Except ε σ) (s : σ) :
      walk handle s source = walkEvents handle s none root.events := by rw [walk_eq, htrace]
  refine ⟨?_, hwalk⟩
  rw [hwalk]
  have hcollect (done es : List Event) : walkEvents (fun (es : List Event) e =>
      (.ok (es ++ [e]) : Except Empty (List Event))) done none es = ⟨done ++ es, none⟩ := by
    induction es generalizing done with
    | nil => simp [walkEvents]
    | cons e es ih => simp [walkEvents, ih]
  exact hcollect [] root.events

def sampleDocument : String :=
  "<? v?>\n<a x ='1&lt;\"'>\n<!-----><b/><![CDATA[<b>]]></a >\n<!---->"

def Node.sample : Node :=
  .mk "a" [("x", "1<\"")] 2 [.mk "b" [] 3 [] 3] 3

theorem writesDocument_sample : WritesDocument Node.sample sampleDocument := by
  have ha : Tag.Writes ⟨['a'], [⟨[' '], ['x'], [' '], [], .single, "1&lt;\"".toList⟩], []⟩ "a"
      [("x", "1<\"")] := by
    refine ⟨by decide, by decide, .cons ⟨by decide, by decide, by decide, by decide, ?_⟩ .nil,
      by decide, by decide⟩
    exact .plain (by decide) (by decide) (by decide) (.reference .less
      (.plain (by decide) (by decide) (by decide) .nil))
  have hb : Tag.Writes ⟨['b'], [], []⟩ "b" [] := ⟨by decide, by decide, .nil, by decide, by decide⟩
  have hmargins : (∀ t ∈ [Token.instruction " v".toList, .text ['\n']], t.IsMargin) ∧
      ∀ t ∈ [Token.text ['\n'], .comment []], t.IsMargin := by decide
  exact ⟨_, _, _, hmargins.1, hmargins.2,
    .full ha (.filler (t := .text ['\n']) (by decide) (.filler (t := .comment ['-']) (by decide)
      (.child (.empty hb) (.filler (t := .cdata "<b>".toList) (by decide) .nil))))
      (show IsBlanks [' '] by decide), by decide⟩

theorem walk_of_writes_sample : WritesDocument Node.sample sampleDocument ∧
    walk (fun (es : List Event) e => (.ok (es ++ [e]) : Except Empty (List Event))) [] sampleDocument =
      ⟨[.start "a" [("x", "1<\"")] 2, .start "b" [] 3, .stop "b" 3, .stop "a" 3], none⟩ :=
  ⟨writesDocument_sample, (walk_of_writes writesDocument_sample).1⟩

end Documents

end WireSchema.Markup
