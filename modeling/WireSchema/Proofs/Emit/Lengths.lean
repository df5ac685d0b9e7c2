import WireSchema.Proofs.Emit.Java.Methods
import WireSchema.Proofs.Emit.Rust.Functions
import WireSchema.Proofs.Object.Scalar
import WireSchema.Proofs.Wire.Encoding

namespace WireSchema

open Code

theorem Primitive.format?_eq_none {t : Primitive} (h : t.isFloat = false) : t.format? = none := by
  rwa [Primitive.isFloat, Option.isSome_eq_false_iff, Option.isNone_iff_eq_none] at h

theorem Scalar.inRange_of_ofInt? {t : Primitive} {n : Int} {s : Scalar}
    (h : Scalar.ofInt? t n = some s) : t.isFloat = false ∧ t.inRange n = true := by
  rw [Scalar.ofInt?] at h
  split at h
  next hrange => exact ⟨(Scalar.inRange_iff.1 hrange).1, hrange⟩
  next => cases h

theorem Codec.encodeLength_eq_error (c : Codec) (className field : String) {t : Primitive} {n : Nat}
    (h : t.inRange n = false) :
    c.encodeLength className field t n = .error (.lengthOverflow className field n t) := by
  simp [Codec.encodeLength, Scalar.ofInt?, h]

namespace Rust

inductive LengthStatement where
  | convert (type : Primitive) (member message : String)
  | write (type : Primitive)

def LengthStatement.code : LengthStatement → Code
  | convert t member message =>
    bracedThen ("let len = " ++ scalar t ++ "::try_from(self." ++ member ++ ".len()).map_err(|_|")
      (ioError "InvalidInput" message) ")?;"
  | write t => line (writeCall t "len")

/-- Running statements for an object whose lists have the given lengths: the bytes that are written, or
the message of the error. `len` is the number that was taken last. There is no conversion to a
floating-point type, and a number is written as the type that it has. -/
inductive Runs (lengths : String → Nat) :
    Option Scalar → List LengthStatement → Except String Bytes → Prop
  | done {len : Option Scalar} : Runs lengths len [] (.ok [])
  | converted {len : Option Scalar} {s : Scalar} {member message : String}
      {rest : List LengthStatement} {result : Except String Bytes}
      (fits : Scalar.ofInt? s.type (lengths member) = some s)
      (behind : Runs lengths (some s) rest result) :
      Runs lengths len (.convert s.type member message :: rest) result
  | refused {len : Option Scalar} {t : Primitive} {member message : String}
      {rest : List LengthStatement} (integer : t.isFloat = false)
      (tooLong : t.inRange (lengths member) = false) :
      Runs lengths len (.convert t member message :: rest) (.error message)
  | written {s : Scalar} {rest : List LengthStatement} {result : Except String Bytes}
      (behind : Runs lengths (some s) rest result) :
      Runs lengths (some s) (.write s.type :: rest) (result.map (s.toBytes .big ++ ·))

def marshalled (p : Plan) (f : FieldPlan) : Code :=
  marshalBlock p.name (.field f) (fieldName f.name)

theorem marshalBody_eq {p : Plan} {names : List String} (h : members.identifiers p = .ok names) :
    marshalBody p names = (p.parent.toList.flatMap fun c => marshalBlock p.name (.parent c) "parent") ++
      p.fields.flatMap (marshalled p) ++ line "Ok(())" := by
  obtain ⟨rfl, -⟩ := MemberRules.identifiers_eq_ok nodup_methods h
  rw [marshalBody, MemberRules.ofSteps_eq_stepwise p.filterMap_wireSteps, Code.stepwise,
    Plan.wireSteps, List.flatMap_append, List.flatMap_map, List.flatMap_map, members_identifier]
  rfl

theorem marshal_within {p : Plan} {settings : Settings} {code : Code}
    (h : classModule p settings = .ok code) :
    ∃ names, members.identifiers p = .ok names ∧
      braced (marshalHeading p).signature (marshalBody p names) <:+: code := by
  obtain ⟨terms, names, -, hnames, rfl⟩ := classModule_eq_ok h
  exact ⟨names, hnames,
    (bodies_implementation p names terms).marshal.trans (List.suffix_append _ _).isInfix⟩

theorem marshalled_lengthOf {p : Plan} {f : FieldPlan} {t : Primitive} {list : String}
    (h : f.layout = .lengthOf t list) :
    marshalled p f = [LengthStatement.convert t (fieldName list)
      (p.name ++ "." ++ f.name ++ ": list too long"), .write t].flatMap LengthStatement.code := by
  simp [marshalled, marshalBlock, h, LengthStatement.code]

theorem runs_convert_write {lengths : String → Nat} {t : Primitive} {member message : String}
    {c : Codec} (hc : c.endian = .big) (className field : String) {result : Except String Bytes} :
    Runs lengths none [.convert t member message, .write t] result ↔ t.isFloat = false ∧
      result = (c.encodeLength className field t (lengths member)).mapError fun _ => message := by
  constructor
  · intro h
    cases h with
    | @converted _ s _ _ _ _ hfits hrest =>
        cases hrest with
        | written hdone =>
            cases hdone
            refine ⟨(Scalar.inRange_of_ofInt? hfits).1, ?_⟩
            rw [Codec.encodeLength_eq_ok.2 ⟨s, hfits, rfl⟩, hc]
            exact congrArg Except.ok (List.append_nil _)
    | refused hinteger htooLong =>
        rw [Codec.encodeLength_eq_error c className field htooLong]
        exact ⟨hinteger, rfl⟩
  · rintro ⟨hinteger, rfl⟩
    cases hrange : t.inRange (lengths member) with
    | true =>
        have hfits : Scalar.ofInt? t (lengths member) = some ⟨t, BitVec.ofInt _ (lengths member)⟩ :=
          if_pos hrange
        have hrun : Runs lengths none [.convert t member message, .write t] _ :=
          .converted (s := ⟨t, BitVec.ofInt _ (lengths member)⟩) hfits (.written .done)
        rw [Codec.encodeLength_eq_ok.2 ⟨_, hfits, rfl⟩, hc]
        simpa [Except.map, Except.mapError] using hrun
    | false =>
        rw [Codec.encodeLength_eq_error c className field hrange]
        exact .refused hinteger hrange

end Rust

namespace Java

structure LengthStatement where
  type : Primitive
  member : String

def LengthStatement.code (statement : LengthStatement) : Code :=
  line (writeCall statement.type (statement.member ++ ".size()") false)

/-- What the statement writes for an object whose lists have the given sizes. The stream takes the
low-order bytes of a number for an integer type, and the nearest number for a floating-point type. It
does not refuse any. -/
def LengthStatement.bytes (sizes : String → Nat) (statement : LengthStatement) : Bytes :=
  Endian.big.bytesOf statement.type.width <|
    match statement.type.format? with
    | some format => format.ofInt (sizes statement.member)
    | none => sizes statement.member

def marshalled (f : FieldPlan) : Code :=
  marshalBlock (.field f) (fieldName f.name)

theorem marshalBody_eq {p : Plan} {names : List String} (h : members.identifiers p = .ok names) :
    marshalBody p names = (p.parent.toList.flatMap fun c => marshalBlock (.parent c) "super") ++
      p.fields.flatMap marshalled := by
  obtain ⟨rfl, -⟩ := MemberRules.identifiers_eq_ok List.nodup_nil h
  rw [marshalBody, MemberRules.ofSteps_eq_stepwise p.filterMap_wireSteps, Code.stepwise,
    Plan.wireSteps, List.flatMap_append, List.flatMap_map, List.flatMap_map]
  rfl

theorem marshal_within {p : Plan} {settings : Settings} {code : Code}
    (h : classUnit p settings = .ok code) :
    ∃ names, members.identifiers p = .ok names ∧
      braced marshalMethod.signature (marshalBody p names) <:+: code := by
  obtain ⟨terms, names, -, hnames, rfl⟩ := classUnit_eq_preamble_append h
  refine ⟨names, hnames, ?_⟩
  exact (infix_block (bodies_declarations p names terms).marshal _ _).trans
    (List.suffix_append _ _).isInfix

theorem marshalled_lengthOf {f : FieldPlan} {t : Primitive} {list : String}
    (h : f.layout = .lengthOf t list) : marshalled f = LengthStatement.code ⟨t, fieldName list⟩ := by
  rw [marshalled, marshalBlock, h]
  rfl

theorem encodeLength_eq_bytes {sizes : String → Nat} {t : Primitive} {member : String}
    {c : Codec} (hc : c.endian = .big) (className field : String) :
    c.encodeLength className field t (sizes member) = .ok (LengthStatement.bytes sizes ⟨t, member⟩) ↔
      t.inRange (sizes member) = true := by
  constructor
  · intro h
    obtain ⟨s, hfits, -⟩ := Codec.encodeLength_eq_ok.1 h
    exact (Scalar.inRange_of_ofInt? hfits).2
  · intro hrange
    obtain ⟨hinteger, hbounds⟩ := Scalar.inRange_iff.1 hrange
    have hlt : sizes member < 2 ^ (8 * t.width) := by
      split at hbounds
      next =>
        have hhalf : 2 ^ (8 * t.width - 1) ≤ 2 ^ (8 * t.width) :=
          Nat.pow_le_pow_right Nat.two_pos (Nat.sub_le _ _)
        exact Nat.lt_of_lt_of_le (by exact_mod_cast hbounds.2) hhalf
      next => exact_mod_cast hbounds.2
    have hword : (BitVec.ofInt (8 * t.width) (sizes member)).toNat = sizes member := by
      rw [BitVec.ofInt_natCast, BitVec.toNat_ofNat, Nat.mod_eq_of_lt hlt]
    apply Codec.encodeLength_eq_ok.2
    refine ⟨⟨t, BitVec.ofInt _ (sizes member)⟩, if_pos hrange, ?_⟩
    rw [Scalar.toBytes, hc, hword, LengthStatement.bytes, Primitive.format?_eq_none hinteger]

end Java

/-- The statements for a field that holds the length of a list stand at their place among those of the
other fields. In Rust they write what encoding gives for the length, and fail where it does. In Java
they write bytes for every length, which are those of encoding exactly if the length is in the range
of the type. -/
theorem length_on_wire {p : Plan} {f : FieldPlan} {t : Primitive} {list : String} {c : Codec}
    (hf : f ∈ p.fields) (hlayout : f.layout = .lengthOf t list) (hc : c.endian = .big)
    (settings : Settings) :
    (∀ code, Rust.classModule p settings = .ok code →
      ∃ fs gs before after, ∃ statements : List Rust.LengthStatement, p.fields = fs ++ f :: gs ∧
        braced (Rust.marshalHeading p).signature (before ++ fs.flatMap (Rust.marshalled p) ++
          statements.flatMap (·.code) ++ gs.flatMap (Rust.marshalled p) ++ after) <:+: code ∧
        ∀ lengths result, Rust.Runs lengths none statements result ↔ t.isFloat = false ∧
          result = (c.encodeLength p.name f.name t (lengths (Rust.fieldName list))).mapError
            fun _ => p.name ++ "." ++ f.name ++ ": list too long") ∧
    (∀ code, Java.classUnit p settings = .ok code →
      ∃ fs gs before after, ∃ statement : Java.LengthStatement, p.fields = fs ++ f :: gs ∧
        braced Java.marshalMethod.signature (before ++ fs.flatMap Java.marshalled ++ statement.code ++
          gs.flatMap Java.marshalled ++ after) <:+: code ∧
        ∀ sizes : String → Nat, (t.isFloat = false → statement.bytes sizes =
            Endian.big.bytesOf t.width (sizes (Java.fieldName list))) ∧
          (c.encodeLength p.name f.name t (sizes (Java.fieldName list)) =
              .ok (statement.bytes sizes) ↔
            t.inRange (sizes (Java.fieldName list)) = true)) := by
  obtain ⟨fs, gs, hfields⟩ := List.append_of_mem hf
  constructor
  · intro code hcode
    obtain ⟨names, hnames, hmarshal⟩ := Rust.marshal_within hcode
    rw [Rust.marshalBody_eq hnames, hfields, List.flatMap_append, List.flatMap_cons,
      Rust.marshalled_lengthOf hlayout] at hmarshal
    refine ⟨fs, gs, _, _, _, hfields, by simpa only [List.append_assoc] using hmarshal, ?_⟩
    intro lengths result
    exact Rust.runs_convert_write hc p.name f.name
  · intro code hcode
    obtain ⟨names, hnames, hmarshal⟩ := Java.marshal_within hcode
    rw [Java.marshalBody_eq hnames, hfields, List.flatMap_append, List.flatMap_cons,
      Java.marshalled_lengthOf hlayout] at hmarshal
    refine ⟨fs, gs, _, [], _, hfields,
      by simpa only [List.append_assoc, List.append_nil] using hmarshal, ?_⟩
    intro sizes
    refine ⟨?_, Java.encodeLength_eq_bytes hc p.name f.name⟩
    intro hinteger
    rw [Java.LengthStatement.bytes, Primitive.format?_eq_none hinteger]

def sampleCounted : Plan where
  name := "A"
  parent := none
  comment := none
  root := false
  fields := [⟨"n", none, .lengthOf .byte "u", none, false⟩,
    ⟨"u", none, .scalarList .short ⟨"n", "A", 0, .byte⟩, none, false⟩]
  assignments := []

theorem length_on_wire_counted :
    ∃ code, Rust.classModule sampleCounted .empty = .ok code ∧
      ∃ before after, ∃ statements : List Rust.LengthStatement,
        braced (Rust.marshalHeading sampleCounted).signature
          (before ++ statements.flatMap (·.code) ++ after) <:+: code ∧
        Rust.Runs (fun _ => 128) none statements (.error "A.n: list too long") := by
  have hok : Outcome.error? (Rust.classModule sampleCounted .empty) = none := by decide +kernel
  obtain ⟨code, hcode⟩ := Outcome.error?_eq_none.1 hok
  have hf : ⟨"n", none, .lengthOf .byte "u", none, false⟩ ∈ sampleCounted.fields :=
    List.mem_cons_self
  obtain ⟨fs, gs, before, after, statements, -, hplace, hruns⟩ :=
    (length_on_wire (c := ⟨[], .big⟩) hf rfl rfl .empty).1 code hcode
  refine ⟨code, hcode, before ++ fs.flatMap (Rust.marshalled sampleCounted),
    gs.flatMap (Rust.marshalled sampleCounted) ++ after, statements, ?_, ?_⟩
  · simpa only [List.append_assoc] using hplace
  · exact (hruns _ _).2 ⟨rfl, rfl⟩

/-- With 256 elements the code in Java writes the length of an empty list, and encoding fails. -/
theorem length_truncated :
    ∃ code, Java.classUnit sampleCounted .empty = .ok code ∧
      (∃ after, braced Java.marshalMethod.signature
        (Java.LengthStatement.code ⟨.byte, "u"⟩ ++ after) <:+: code) ∧
      Java.LengthStatement.bytes (fun _ => 256) ⟨.byte, "u"⟩ = [0] ∧
      ∀ c : Codec, c.encodeLength "A" "n" .byte 256 =
        .error (.lengthOverflow "A" "n" 256 .byte) := by
  have hok : Outcome.error? (Java.classUnit sampleCounted .empty) = none := by decide +kernel
  obtain ⟨code, hcode⟩ := Outcome.error?_eq_none.1 hok
  obtain ⟨names, hnames, hmarshal⟩ := Java.marshal_within hcode
  rw [Java.marshalBody_eq hnames] at hmarshal
  exact ⟨code, hcode, ⟨_, hmarshal⟩, by decide, fun c => c.encodeLength_eq_error "A" "n" rfl⟩

end WireSchema
