import WireSchema.Emit.Rust.Names
import WireSchema.Object.Scalar
import WireSchema.Proofs.Number.Narrowing
import WireSchema.Proofs.Number.Printing

namespace WireSchema

namespace Literal

def negative (l : Literal) : Bool := BinaryFormat.double.negative l.toDouble.toNat

def magnitude (l : Literal) : Nat := BinaryFormat.double.magnitude l.toDouble.toNat

theorem exists_real_of_readAs? {t : String} {l : Literal} (h : readAs? .float t = some l) :
    ∃ word, l = .real word ∧ l.magnitude < BinaryFormat.double.infinity := by
  obtain ⟨l', hl', rfl⟩ := Option.map_eq_some_iff.1 h
  have hfits : fits .float l' = true := (Option.filter_eq_some_iff.1 hl').2
  have hgreatest : greatestSingle < BinaryFormat.double.infinity := by decide +kernel
  exact ⟨_, rfl, (of_decide_eq_true hfits).trans_lt hgreatest⟩

end Literal

namespace Rust

open BinaryFormat (sign single double)

def singleOf (negative : Bool) (m : Nat) : Scalar :=
  ⟨.float, BitVec.ofNat _ (single.withSign negative m)⟩

theorem singleOf_injective {negative : Bool} {m n : Nat} (hm : m ≤ single.infinity)
    (hn : n ≤ single.infinity) (h : singleOf negative m = singleOf negative n) : m = n := by
  have hlt {k : Nat} (hk : k ≤ single.infinity) : single.withSign negative k < 2 ^ 32 := by
    have hbound : single.signBit + single.infinity < 2 ^ 32 := by decide
    rw [BinaryFormat.withSign]
    split <;> omega
  have hword : (singleOf negative m).word.toNat = (singleOf negative n).word.toNat := by rw [h]
  have htoNat {k : Nat} (hk : k ≤ single.infinity) :
      (singleOf negative k).word.toNat = single.withSign negative k :=
    (BitVec.toNat_ofNat _ _).trans (Nat.mod_eq_of_lt (hlt hk))
  rw [htoNat hm, htoNat hn, BinaryFormat.withSign, BinaryFormat.withSign] at hword
  split at hword <;> omega

theorem exists_double_eq_midpoint (k : Nat) : ∃ word, double.value word = single.midpoint k :=
  BinaryFormat.exists_value_eq_midpoint (by decide) (by decide) (by decide) k

/-- What is printed of a literal is `d` behind the sign of the literal. -/
def Prints (l : Literal) (d : Decimal) : Prop :=
  ∃ text, literal .float l = sign l.negative ++ text ∧ Decimal.read? text.toList = some d

/-- A literal of a single is printed as a decimal that is read back as its double. The single nearest
to that decimal, which code starts with, is the one the interpreter holds unless the decimal strays
from the double. -/
theorem literal_float {t : String} {l : Literal} (h : Literal.readAs? .float t = some l) :
    ∃ d m n, Prints l d ∧ double.IsNearest d.value l.magnitude ∧
      Scalar.ofLiteral? .float l = some (singleOf l.negative m) ∧
        single.IsNearest (double.value l.magnitude) m ∧ single.IsNearest d.value n ∧
          (singleOf l.negative n = singleOf l.negative m ↔
            ¬ single.Strays (double.value l.magnitude) d.value) := by
  obtain ⟨word, rfl, hfinite⟩ := Literal.exists_real_of_readAs? h
  obtain ⟨text, d, htext, hd, hnear⟩ :=
    BinaryFormat.exists_print_eq (f := double) (by decide) (by decide) hfinite
  have hprecision : 2 ≤ single.precision := by decide
  have hstored := BinaryFormat.between_ofRatio_units (f := double) hprecision
    (Literal.real word).magnitude
  obtain ⟨n, hn⟩ := BinaryFormat.exists_between hprecision d.value_nonneg
  -- A midpoint of singles is a double, so no rounding to a double carries a number past it.
  have hside := BinaryFormat.sameSide_of_between exists_double_eq_midpoint hfinite hnear
  refine ⟨d, _, n, ⟨text, htext, hd⟩, BinaryFormat.isNearest_iff_between.2 hnear, ?_,
    BinaryFormat.isNearest_iff_between.2 hstored, BinaryFormat.isNearest_iff_between.2 hn, ?_⟩
  · have hconvert := BinaryFormat.convert_of_finite (f := double) (g := single) (by decide) hfinite
    exact congrArg (fun bits => some (Scalar.mk .float (BitVec.ofNat _ bits))) hconvert
  · rw [← BinaryFormat.eq_iff_not_strays hside hstored hn]
    constructor
    · intro heq
      exact (singleOf_injective hn.le_infinity hstored.le_infinity heq).symm
    · intro heq
      rw [heq]

def sampleHalfway : Literal := .real 0x4170000010000000#64

theorem literal_float_halfway : Literal.readAs? .float "16777217" = some sampleHalfway ∧
    ∃ d m n, Prints sampleHalfway d ∧ double.IsNearest d.value sampleHalfway.magnitude ∧
      Scalar.ofLiteral? .float sampleHalfway = some (singleOf sampleHalfway.negative m) ∧
        single.IsNearest (double.value sampleHalfway.magnitude) m ∧ single.IsNearest d.value n ∧
          (singleOf sampleHalfway.negative n = singleOf sampleHalfway.negative m ↔
            ¬ single.Strays (double.value sampleHalfway.magnitude) d.value) := by
  have h : Literal.readAs? .float "16777217" = some sampleHalfway := by decide +kernel
  exact ⟨h, literal_float h⟩

/-- The double above 1 by half the step of a single is printed greater than it is, so code starts
with the single after 1 and the interpreter with 1. -/
theorem literal_float_strays :
    Literal.readAs? .float "1.0000000596046448" = some (.real 0x3ff0000010000000#64) ∧
      Scalar.ofLiteral? .float (.real 0x3ff0000010000000#64) = some (singleOf false 0x3f800000) ∧
        literal .float (.real 0x3ff0000010000000#64) = "1.0000000596046448" ∧
          Decimal.read? "1.0000000596046448".toList = some ⟨10000000596046448, -16⟩ ∧
            single.IsNearest (Decimal.value ⟨10000000596046448, -16⟩) 0x3f800001 ∧
              singleOf false 0x3f800001 ≠ singleOf false 0x3f800000 := by
  refine ⟨by decide +kernel, by decide +kernel, by decide +kernel, by decide +kernel, ?_, by decide⟩
  rw [BinaryFormat.isNearest_iff_between]
  exact Decimal.between_of_readsAs (by decide) (by decide +kernel)

end Rust

end WireSchema
