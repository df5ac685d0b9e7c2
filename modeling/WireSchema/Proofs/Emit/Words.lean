import WireSchema.Emit.Java.Bodies
import WireSchema.Emit.Rust.Bodies
import WireSchema.Proofs.Emit.Steps

namespace WireSchema

def CodeLine.text : CodeLine → String
  | .line text | .opening text | .closing text => text

namespace Code

def isWordChar (c : Char) : Bool :=
  c.isAlphanum || c == '_'

def startsPlain (s : String) : Bool :=
  s.toList.head?.all fun c => !isWordChar c

def endsPlain (s : String) : Bool :=
  s.toList.getLast?.all fun c => !isWordChar c

/-- The text starts with a character that belongs to no word. It is not empty. -/
def startsMarked (s : String) : Bool :=
  s.toList.head?.any fun c => !isWordChar c

def endsMarked (s : String) : Bool :=
  s.toList.getLast?.any fun c => !isWordChar c

/-- A text in which the word stands on its own: no letter, digit or underscore is next to it. -/
def HasWord (text word : String) : Prop :=
  ∃ front back, text = front ++ word ++ back ∧ endsPlain front = true ∧ startsPlain back = true

def Mentions (code : Code) (word : String) : Prop :=
  ∃ l ∈ code, HasWord l.text word

variable {text word : String} {a b : Code}

theorem startsPlain_append {s t : String} (hs : startsPlain s = true) (ht : startsPlain t = true) :
    startsPlain (s ++ t) = true := by
  rw [startsPlain, String.toList_append, List.head?_append]
  cases hfirst : s.toList.head? with
  | none => exact ht
  | some c => simpa [startsPlain, hfirst] using hs

theorem endsPlain_append {s t : String} (hs : endsPlain s = true) (ht : endsPlain t = true) :
    endsPlain (s ++ t) = true := by
  rw [endsPlain, String.toList_append, List.getLast?_append]
  cases hlast : t.toList.getLast? with
  | none => exact hs
  | some c => simpa [endsPlain, hlast] using ht

theorem startsPlain_of_mark {mark : String} (h : startsMarked mark = true) (s : String) :
    startsPlain (mark ++ s) = true := by
  rw [startsPlain, String.toList_append, List.head?_append]
  cases hfirst : mark.toList.head? with
  | none => simp [startsMarked, hfirst] at h
  | some c => simpa [startsMarked, hfirst] using h

theorem endsPlain_of_mark {mark : String} (h : endsMarked mark = true) (s : String) :
    endsPlain (s ++ mark) = true := by
  rw [endsPlain, String.toList_append, List.getLast?_append]
  cases hlast : mark.toList.getLast? with
  | none => simp [endsMarked, hlast] at h
  | some c => simpa [endsMarked, hlast] using h

theorem hasWord_self (word : String) : HasWord word word :=
  ⟨"", "", by simp, rfl, rfl⟩

theorem HasWord.behind (h : HasWord text word) {front : String} (hfront : endsPlain front = true) :
    HasWord (front ++ text) word := by
  obtain ⟨before, after, rfl, hbefore, hafter⟩ := h
  exact ⟨front ++ before, after, by simp only [String.append_assoc],
    endsPlain_append hfront hbefore, hafter⟩

theorem HasWord.append (h : HasWord text word) {back : String} (hback : startsPlain back = true) :
    HasWord (text ++ back) word := by
  obtain ⟨before, after, rfl, hbefore, hafter⟩ := h
  exact ⟨before, after ++ back, by simp only [String.append_assoc], hbefore,
    startsPlain_append hafter hback⟩

theorem HasWord.within (h : HasWord text word) {front back : String}
    (hfront : endsPlain front = true) (hback : startsPlain back = true) :
    HasWord (front ++ text ++ back) word :=
  (h.behind hfront).append hback

/-- Behind a mark anything may stand. -/
theorem HasWord.marked (h : HasWord text word) {mark : String} (hmark : startsMarked mark = true)
    (s t : String) : HasWord (text ++ mark ++ s ++ t) word := by
  rw [String.append_assoc, String.append_assoc]
  exact h.append (startsPlain_of_mark hmark _)

theorem mentions_line (h : HasWord text word) : Mentions (line text) word :=
  ⟨_, List.mem_singleton_self _, h⟩

theorem Mentions.append (h : Mentions a word) (b : Code) : Mentions (a ++ b) word := by
  obtain ⟨l, hl, hword⟩ := h
  exact ⟨l, List.mem_append_left b hl, hword⟩

theorem Mentions.behind (h : Mentions b word) (a : Code) : Mentions (a ++ b) word := by
  obtain ⟨l, hl, hword⟩ := h
  exact ⟨l, List.mem_append_right a hl, hword⟩

theorem mentions_block {first : String} (h : HasWord first word) (body : Code) (last : String) :
    Mentions (block first body last) word :=
  ⟨_, List.mem_cons_self, h⟩

end Code

/-- The identifier that is written for a field: a length is that of its list. -/
def FieldPlan.source (rename : String → String) (f : FieldPlan) (name : String) : String :=
  match f.layout with
  | .lengthOf _ list => rename list
  | _ => name

def WireStep.source (rename : String → String) (step : WireStep) (name : String) : String :=
  step.field?.elim name fun f => f.source rename name

def EqualityTerm.source (rename : String → String) (term : EqualityTerm) (name : String) : String :=
  match term with
  | .value f => f.source rename name
  | .parent _ | .elements _ => name

theorem FieldPlan.source_of_isList {f : FieldPlan} (h : f.layout.isList = true)
    (rename : String → String) (name : String) : f.source rename name = name := by
  rw [FieldPlan.source]
  cases hlayout : f.layout with
  | lengthOf t list =>
      rw [hlayout] at h
      cases h
  | _ => rfl

theorem Plan.isList_of_elements {p : Plan} {f : FieldPlan} (h : .elements f ∈ p.equalityTerms) :
    f.layout.isList = true := by
  rcases List.mem_append.1 h with h | h
  · obtain ⟨c, -, hc⟩ := List.mem_map.1 h
    cases hc
  · obtain ⟨g, -, hg⟩ := List.mem_map.1 h
    by_cases hlist : g.layout.isList = true
    · rw [FieldPlan.equalityTerm, if_pos hlist] at hg
      cases hg
      exact hlist
    · rw [FieldPlan.equalityTerm, if_neg hlist] at hg
      cases hg

namespace Rust

open Code

variable {word : String}

theorem hasWord_writeCall (t : Primitive) {expr : String} (h : HasWord expr word) :
    HasWord (writeCall t expr) word := by
  cases t <;> exact h.within (endsPlain_of_mark rfl _) rfl

theorem mentions_initBlock (step : InitStep) (name : String) (h : ∀ a, step ≠ .assign a) :
    Mentions (initBlock step name) name := by
  cases step with
  | parent c => exact mentions_line ((hasWord_self name).marked rfl _ _)
  | field f init => exact mentions_line ((hasWord_self name).marked rfl _ _)
  | assign a => exact absurd rfl (h a)

theorem mentions_assignBlock (a : Assignment) : Mentions (assignBlock a) (fieldName a.field) := by
  have hpath : HasWord (memberPath "s" a.depth (fieldName a.field)) (fieldName a.field) :=
    (hasWord_self _).behind (endsPlain_of_mark rfl _)
  exact mentions_line (hpath.marked rfl _ _)

theorem mentions_loop (name : String) {method : String} (hmethod : startsPlain method = true)
    (body : Code) : Mentions (braced ("for x in self." ++ name ++ method) body) name :=
  mentions_block (((hasWord_self name).within rfl hmethod).append rfl) body _

theorem mentions_marshalBlock (owner : String) (step : WireStep) (name : String) :
    Mentions (marshalBlock owner step name) (step.source fieldName name) := by
  cases step with
  | parent c => exact mentions_line ((hasWord_self name).within rfl rfl)
  | field f =>
      simp only [marshalBlock, WireStep.source, WireStep.field?, Option.elim_some, FieldPlan.source]
      cases f.layout with
      | scalar t => exact mentions_line (hasWord_writeCall t ((hasWord_self name).behind rfl))
      | lengthOf t list =>
          refine (mentions_block ?_ _ _).append _
          exact ((hasWord_self _).within (endsPlain_of_mark rfl _) rfl).append rfl
      | nested c => exact mentions_line ((hasWord_self name).within rfl rfl)
      | fixedScalars t n => exact mentions_loop name rfl _
      | fixedNested c n => exact mentions_loop name rfl _
      | scalarList t count => exact mentions_loop name rfl _
      | nestedList c count => exact mentions_loop name rfl _

theorem mentions_readList (owner field name : String) (count : CountSource) (element : Code) :
    Mentions (readList owner field name count element) name := by
  have hclear : Mentions (line ("self." ++ name ++ ".clear();")) name :=
    mentions_line ((hasWord_self name).within rfl rfl)
  exact (hclear.behind _).append _

theorem mentions_unmarshalBlock (owner : String) (step : WireStep) (name : String) :
    Mentions (unmarshalBlock owner step name) name := by
  cases step with
  | parent c => exact mentions_line ((hasWord_self name).within rfl rfl)
  | field f =>
      have hread (t : Primitive) :
          Mentions (line ("self." ++ name ++ " = " ++ readCall t ++ ";")) name :=
        mentions_line (((hasWord_self name).behind rfl).marked rfl _ _)
      simp only [unmarshalBlock]
      cases f.layout with
      | scalar t => exact hread t
      | lengthOf t list => exact hread t
      | nested c => exact mentions_line ((hasWord_self name).within rfl rfl)
      | fixedScalars t n => exact mentions_loop name rfl _
      | fixedNested c n => exact mentions_loop name rfl _
      | scalarList t count => exact mentions_readList ..
      | nestedList c count => exact mentions_readList ..

theorem mentions_sizeBlock (term : SizeTerm) (name : String) :
    Mentions (sizeBlock term name) name := by
  cases term with
  | parent c => exact mentions_line ((hasWord_self name).within rfl rfl)
  | bytes field count =>
      exact mentions_line ((hasWord_self name).behind (endsPlain_of_mark rfl _))
  | nested field c => exact mentions_line ((hasWord_self name).within rfl rfl)
  | perElement field width =>
      exact mentions_line (((hasWord_self name).behind rfl).marked rfl _ _)
  | elementSum field c => exact mentions_line ((hasWord_self name).within rfl rfl)

theorem mentions_equalityBlock (term : EqualityTerm) (name : String) :
    Mentions (equalityBlock term name) (term.source fieldName name) := by
  have hsame {a word : String} (h : HasWord a word) :
      Mentions (line ("eq &= self." ++ a ++ " == other." ++ a ++ ";")) word :=
    mentions_line ((h.behind rfl).marked rfl _ _)
  cases term with
  | parent c => exact hsame (hasWord_self name)
  | elements f => exact hsame (hasWord_self name)
  | value f =>
      simp only [equalityBlock, EqualityTerm.source, FieldPlan.source]
      cases f.layout with
      | lengthOf t list => exact hsame ((hasWord_self (fieldName list)).append rfl)
      | _ => exact hsame (hasWord_self name)

end Rust

namespace Java

open Code

variable {word : String}

theorem hasWord_writeCall (t : Primitive) (isBoxed : Bool) {expr : String} (h : HasWord expr word) :
    HasWord (writeCall t expr isBoxed) word := by
  cases t with
  | unsignedInt => cases isBoxed <;> exact h.within rfl rfl
  | _ => exact h.within rfl rfl

theorem mentions_overPositions (name : String) (body : Code) :
    Mentions (overPositions name body) name :=
  mentions_block (((hasWord_self name).within rfl rfl).append rfl) body _

theorem mentions_overElements (type name : String) (body : Code) :
    Mentions (overElements type name body) name :=
  mentions_block (((hasWord_self name).within (endsPlain_of_mark rfl _) rfl).append rfl) body _

theorem mentions_fieldBlock (f : FieldPlan) (init : FieldInit) (name : String) :
    Mentions (fieldBlock (.field f init) name) name := by
  have hline : Mentions (line ("protected " ++ fieldType f.layout ++ " " ++ name ++ " = " ++
      initValue f.layout init ++ ";")) name :=
    mentions_line (((hasWord_self name).behind (endsPlain_of_mark rfl _)).marked rfl _ _)
  exact (hline.behind _).append _

theorem mentions_slotsBlock {f : FieldPlan} {c : String} {n : Nat} (h : f.layout = .fixedNested c n)
    (name : String) : Mentions (slotsBlock f name) name := by
  rw [slotsBlock, h]
  exact mentions_overPositions name _

theorem mentions_assignBlock (a : Assignment) :
    Mentions (assignBlock a) (setter (fieldName a.field)) :=
  mentions_line ((hasWord_self _).marked rfl _ _)

theorem mentions_sizeBlock (term : SizeTerm) (name : String) :
    Mentions (sizeBlock term name) name := by
  cases term with
  | parent c => exact mentions_line ((hasWord_self name).within rfl rfl)
  | bytes field count =>
      exact mentions_line ((hasWord_self name).behind (endsPlain_of_mark rfl _))
  | nested field c => exact mentions_line ((hasWord_self name).within rfl rfl)
  | perElement field width =>
      exact mentions_line (((hasWord_self name).behind rfl).marked rfl _ _)
  | elementSum field c => exact mentions_overElements _ name _

theorem mentions_marshalBlock (step : WireStep) (name : String) :
    Mentions (marshalBlock step name) (step.source fieldName name) := by
  cases step with
  | parent c => exact mentions_line ((hasWord_self name).append rfl)
  | field f =>
      simp only [marshalBlock, WireStep.source, WireStep.field?, Option.elim_some, FieldPlan.source]
      cases f.layout with
      | scalar t => exact mentions_line (hasWord_writeCall t false (hasWord_self name))
      | lengthOf t list =>
          exact mentions_line (hasWord_writeCall t false ((hasWord_self _).append rfl))
      | nested c => exact mentions_line ((hasWord_self name).append rfl)
      | fixedScalars t n => exact mentions_overPositions name _
      | fixedNested c n => exact mentions_overElements _ name _
      | scalarList t count => exact mentions_overElements _ name _
      | nestedList c count => exact mentions_overElements _ name _

theorem mentions_unmarshalBlock (owner : String) (step : WireStep) (name : String) :
    Mentions (unmarshalBlock owner step name) name := by
  cases step with
  | parent c => exact mentions_line ((hasWord_self name).append rfl)
  | field f =>
      have hread (t : Primitive) : Mentions (line (name ++ " = " ++ readCall t ++ ";")) name :=
        mentions_line ((hasWord_self name).marked rfl _ _)
      have hadd (t : Primitive) : Mentions (line (name ++ ".add(" ++ readCall t ++ ");")) name :=
        mentions_line ((hasWord_self name).marked rfl _ _)
      have hthis : Mentions (line ("this." ++ name ++ ".add(x);")) name :=
        mentions_line ((hasWord_self name).within rfl rfl)
      simp only [unmarshalBlock]
      cases f.layout with
      | scalar t => exact hread t
      | lengthOf t list => exact hread t
      | nested c => exact mentions_line ((hasWord_self name).append rfl)
      | fixedScalars t n => exact mentions_overPositions name _
      | fixedNested c n => exact mentions_overPositions name _
      | scalarList t count => exact ((hadd t).behind _).append _
      | nestedList c count => exact ((hthis.behind _).behind _).append _

theorem hasWord_equalityTest (f : FieldPlan) (name : String) :
    HasWord (equalityTest f name) (f.source fieldName name) := by
  have hequals : HasWord (name ++ ".equals(rhs." ++ name ++ ")") name :=
    (hasWord_self name).marked rfl _ _
  have harrays : HasWord ("Arrays.equals(" ++ name ++ ", rhs." ++ name ++ ")") name :=
    ((hasWord_self name).behind rfl).marked rfl _ _
  rw [equalityTest, FieldPlan.source]
  cases f.layout with
  | scalar t => exact (hasWord_self name).behind (endsPlain_of_mark rfl _)
  | lengthOf t list => exact (hasWord_self _).within (endsPlain_of_mark rfl _) rfl
  | nested c => exact hequals
  | scalarList t count => exact hequals
  | nestedList c count => exact hequals
  | fixedScalars t n => exact harrays
  | fixedNested c n => exact harrays

theorem mentions_equalityBlock {p : Plan} {term : EqualityTerm} (h : term ∈ p.equalityTerms)
    (name : String) : Mentions (equalityBlock term name) (term.source fieldName name) := by
  cases term with
  | parent c => exact mentions_line ((hasWord_self name).within rfl rfl)
  | value f => exact mentions_line ((hasWord_equalityTest f name).within rfl rfl)
  | elements f =>
      have hword := hasWord_equalityTest f name
      rw [FieldPlan.source_of_isList (Plan.isList_of_elements h)] at hword
      exact mentions_line (hword.within rfl rfl)

end Java

end WireSchema
