import Mathlib.Data.List.TakeWhile
import WireSchema.Proofs.Number.Shortest
import WireSchema.Proofs.Text.Numeral

namespace WireSchema.Decimal

open Text (isDigit digitsValue numeral?)

variable {cs digits : List Char}

inductive Pointed : List Char → List Char → Nat → Prop
  | whole {digits : List Char} (hdigits : ∀ c ∈ digits, isDigit 10 c) : Pointed digits digits 0
  | point {whole fraction : List Char} (hwhole : ∀ c ∈ whole, isDigit 10 c)
      (hfraction : ∀ c ∈ fraction, isDigit 10 c) :
      Pointed (whole ++ '.' :: fraction) (whole ++ fraction) fraction.length

theorem span_digits_nil (h : ∀ c ∈ digits, isDigit 10 c) :
    digits.takeWhile (isDigit 10) = digits ∧ digits.dropWhile (isDigit 10) = [] :=
  ⟨List.takeWhile_eq_self_iff.2 h, List.dropWhile_eq_nil_iff.2 h⟩

theorem span_digits_cons {c : Char} (h : ∀ c ∈ digits, isDigit 10 c) (hc : isDigit 10 c = false)
    (rest : List Char) : (digits ++ c :: rest).takeWhile (isDigit 10) = digits ∧
      (digits ++ c :: rest).dropWhile (isDigit 10) = c :: rest := by
  rw [List.takeWhile_append_of_pos h, List.dropWhile_append_of_pos h]
  simp [hc]

theorem read?_pointed {n : Nat} (h : Pointed cs digits n) (hne : digits ≠ []) :
    read? cs = some ⟨digitsValue 10 digits, -(n : Int)⟩ := by
  cases h with
  | whole hdigits =>
    obtain ⟨htake, hdrop⟩ := span_digits_nil hdigits
    simp [read?, htake, hdrop, hne]
  | @point whole fraction hwhole hfraction =>
    obtain ⟨htake, hdrop⟩ := span_digits_cons (c := '.') hwhole rfl fraction
    obtain ⟨htake', hdrop'⟩ := span_digits_nil hfraction
    simp [read?, htake, hdrop, htake', hdrop', hne]

theorem toList_toString (e : Int) : (toString e).toList =
    if 0 ≤ e then Nat.toDigits 10 e.toNat else '-' :: Nat.toDigits 10 (-e).toNat := by
  rw [Int.toString_eq_repr, Int.repr_eq_if]
  split <;> simp [Nat.repr_eq_ofList_toDigits]

theorem numeral?_toDigits (n : Nat) : numeral? 10 (Nat.toDigits 10 n) = some n :=
  Text.numeral?_eq_some.2 (Text.numeral_toDigits n)

theorem toDigits_eq_cons (n : Nat) : ∃ c ds, Nat.toDigits 10 n = c :: ds ∧ c ≠ '-' ∧ c ≠ '+' := by
  have hnum := Text.numeral_toDigits n
  cases hds : Nat.toDigits 10 n with
  | nil => exact absurd hds Nat.toDigits_ne_nil
  | cons c ds =>
    have hc : isDigit 10 c := hnum.isDigit (by rw [hds]; exact List.mem_cons_self)
    refine ⟨c, ds, rfl, ?_, ?_⟩ <;> rintro rfl <;> cases hc

theorem read?_minus {n m : Nat} {ds : List Char} (h : Pointed cs digits n) (hne : digits ≠ [])
    (hm : numeral? 10 ds = some m) :
    read? (cs ++ 'e' :: '-' :: ds) = some ⟨digitsValue 10 digits, -(m : Int) - n⟩ := by
  cases h with
  | whole hdigits =>
    obtain ⟨htake, hdrop⟩ := span_digits_cons (c := 'e') hdigits rfl ('-' :: ds)
    simp [read?, htake, hdrop, hne, hm]
  | @point whole fraction hwhole hfraction =>
    obtain ⟨htake, hdrop⟩ := span_digits_cons (c := '.') hwhole rfl (fraction ++ 'e' :: '-' :: ds)
    obtain ⟨htake', hdrop'⟩ := span_digits_cons (c := 'e') hfraction rfl ('-' :: ds)
    simp [read?, htake, hdrop, htake', hdrop', hne, hm]

theorem read?_unsigned {n m : Nat} {c : Char} {ds : List Char} (h : Pointed cs digits n)
    (hne : digits ≠ []) (hminus : c ≠ '-') (hplus : c ≠ '+') (hm : numeral? 10 (c :: ds) = some m) :
    read? (cs ++ 'e' :: c :: ds) = some ⟨digitsValue 10 digits, (m : Int) - n⟩ := by
  cases h with
  | whole hdigits =>
    obtain ⟨htake, hdrop⟩ := span_digits_cons (c := 'e') hdigits rfl (c :: ds)
    simp [read?, htake, hdrop, hne, hm, hminus, hplus]
  | @point whole fraction hwhole hfraction =>
    obtain ⟨htake, hdrop⟩ := span_digits_cons (c := '.') hwhole rfl (fraction ++ 'e' :: c :: ds)
    obtain ⟨htake', hdrop'⟩ := span_digits_cons (c := 'e') hfraction rfl (c :: ds)
    simp [read?, htake, hdrop, htake', hdrop', hne, hm, hminus, hplus]

theorem read?_exponent {n : Nat} (h : Pointed cs digits n) (hne : digits ≠ []) (e : Int) :
    read? (cs ++ 'e' :: (toString e).toList) = some ⟨digitsValue 10 digits, e - n⟩ := by
  rw [toList_toString]
  split
  next he =>
    obtain ⟨c, ds, hds, hminus, hplus⟩ := toDigits_eq_cons e.toNat
    have hm := numeral?_toDigits e.toNat
    rw [hds] at hm ⊢
    rw [read?_unsigned h hne hminus hplus hm, Int.toNat_of_nonneg he]
  next he =>
    rw [read?_minus h hne (numeral?_toDigits _), Int.toNat_of_nonneg (by omega), Int.neg_neg]

section Layouts

variable (hdigits : ∀ c ∈ digits, isDigit 10 c)

theorem isDigit_zeros {n : Nat} : ∀ c ∈ List.replicate n '0', isDigit 10 c := by
  intro c hc
  rw [List.eq_of_mem_replicate hc]
  rfl

include hdigits

theorem read?_small (k : Nat) : read? ('0' :: '.' :: List.replicate k '0' ++ digits) =
    some ⟨digitsValue 10 digits, -((k + digits.length : Nat) : Int)⟩ := by
  have hfraction : ∀ c ∈ List.replicate k '0' ++ digits, isDigit 10 c := by
    intro c hc
    exact (List.mem_append.1 hc).elim (isDigit_zeros c) (hdigits c)
  have h := read?_pointed (.point (isDigit_zeros (n := 1)) hfraction) (by simp)
  rw [Text.digitsValue_append_eq, Text.digitsValue_append_eq, Text.digitsValue_replicate_zero,
    Text.digitsValue_replicate_zero, Nat.zero_mul, Nat.zero_mul, Nat.zero_add, Nat.zero_add,
    List.length_append, List.length_replicate] at h
  exact h

theorem pointed_take_drop (k : Nat) :
    Pointed (digits.take k ++ '.' :: digits.drop k) digits (digits.length - k) := by
  have h := Pointed.point (fun c hc => hdigits c (List.mem_of_mem_take (i := k) hc))
    (fun c hc => hdigits c (List.mem_of_mem_drop (i := k) hc))
  rwa [List.take_append_drop, List.length_drop] at h

theorem read?_large (k : Nat) : read? (digits ++ List.replicate k '0' ++ ['.', '0']) =
    some ⟨digitsValue 10 digits * 10 ^ (k + 1), -1⟩ := by
  have hwhole : ∀ c ∈ digits ++ List.replicate k '0', isDigit 10 c := by
    intro c hc
    exact (List.mem_append.1 hc).elim (hdigits c) (isDigit_zeros c)
  have h := read?_pointed (.point hwhole (isDigit_zeros (n := 1))) (by simp)
  rw [List.append_assoc digits _ (List.replicate 1 '0'), List.replicate_append_replicate,
    Text.digitsValue_append_eq, Text.digitsValue_replicate_zero, List.length_replicate] at h
  exact h

end Layouts

theorem value_large (n : Nat) (k : Nat) : value ⟨n * 10 ^ (k + 1), -1⟩ = value ⟨n, k⟩ := by
  rw [value, value, zpow_neg_one, zpow_natCast, pow_succ]
  push_cast
  field_simp

theorem exists_kept (n : Nat) : ∃ kept k, Nat.toDigits 10 n = kept ++ List.replicate k '0' ∧
    ((Nat.toDigits 10 n).reverse.dropWhile (· = '0')).reverse = kept := by
  refine ⟨_, ((Nat.toDigits 10 n).reverse.takeWhile (· = '0')).length, ?_, rfl⟩
  have hzeros : (Nat.toDigits 10 n).reverse.takeWhile (· = '0') =
      List.replicate ((Nat.toDigits 10 n).reverse.takeWhile (· = '0')).length '0' :=
    List.eq_replicate_of_mem fun c hc => by simpa using List.all_eq_true.1 List.all_takeWhile c hc
  have hsplit := List.takeWhile_append_dropWhile (p := (· = '0')) (l := (Nat.toDigits 10 n).reverse)
  rw [hzeros] at hsplit
  rw [← List.reverse_inj, List.reverse_append, List.reverse_reverse, List.reverse_replicate]
  exact hsplit.symm

theorem value_normalize (d : Decimal) : d.normalize.value = d.value := by
  obtain ⟨kept, k, hdigits, hkept⟩ := exists_kept d.coefficient
  have hcoefficient : d.coefficient = digitsValue 10 kept * 10 ^ k := by
    have h := (Text.numeral_toDigits d.coefficient).digits.2.2
    rw [hdigits, Text.digitsValue_append_eq, Text.digitsValue_replicate_zero, List.length_replicate,
      Nat.add_zero] at h
    exact h.symm
  have hlength : (Nat.toDigits 10 d.coefficient).length - kept.length = k := by
    rw [hdigits, List.length_append, List.length_replicate, Nat.add_sub_cancel_left]
  rw [normalize, value, value, hkept, hlength, hcoefficient, zpow_add₀ (by norm_num), zpow_natCast]
  push_cast
  ring

theorem value_mk {d : Decimal} {e : Int} (h : e = d.exponent) :
    value ⟨d.coefficient, e⟩ = d.value := by
  rw [h]

theorem read?_print (d : Decimal) : ∃ e, read? d.print.toList = some e ∧ e.value = d.value := by
  rw [← value_normalize, print, String.toList_ofList]
  generalize d.normalize = n
  have hdigits : ∀ c ∈ Nat.toDigits 10 n.coefficient, isDigit 10 c :=
    fun c => (Text.numeral_toDigits n.coefficient).isDigit
  have hvalue : digitsValue 10 (Nat.toDigits 10 n.coefficient) = n.coefficient :=
    (Text.numeral_toDigits n.coefficient).digits.2.2
  have hne : Nat.toDigits 10 n.coefficient ≠ [] := Nat.toDigits_ne_nil
  generalize Nat.toDigits 10 n.coefficient = digits at *
  have hlength : 0 < digits.length := List.length_pos_of_ne_nil hne
  dsimp only
  split
  · split
    · refine ⟨_, read?_small hdigits _, ?_⟩
      rw [hvalue]
      exact value_mk (by omega)
    · split
      · refine ⟨_, read?_pointed (pointed_take_drop hdigits _) hne, ?_⟩
        rw [hvalue]
        exact value_mk (by omega)
      · refine ⟨_, read?_large hdigits _, ?_⟩
        rw [hvalue, value_large]
        exact value_mk (by omega)
  · cases hdrop : digits.drop 1 with
    | nil =>
      have htake : digits.take 1 = digits := by
        have h := List.take_append_drop 1 digits
        rwa [hdrop, List.append_nil] at h
      have hone : digits.length ≤ 1 := List.drop_eq_nil_iff.1 hdrop
      rw [htake]
      dsimp only
      rw [List.append_nil]
      refine ⟨_, read?_exponent (.whole hdigits) hne _, ?_⟩
      rw [hvalue]
      exact value_mk (by omega)
    | cons c ds =>
      have h := pointed_take_drop hdigits 1
      rw [hdrop] at h
      refine ⟨_, read?_exponent h hne _, ?_⟩
      rw [hvalue]
      exact value_mk (by omega)

end WireSchema.Decimal

namespace WireSchema.BinaryFormat

variable {f : BinaryFormat} {word : Nat}

def sign (negative : Bool) : String := if negative then "-" else ""

theorem exists_print_eq (hp : 0 < f.precision) (hdigits : 2 ^ f.precision < 10 ^ 16)
    (hfinite : f.magnitude word < f.infinity) : ∃ text d,
      f.print word = sign (f.negative word) ++ text ∧ Decimal.read? text.toList = some d ∧
        f.Between d.value (f.magnitude word) := by
  have hNaN : f.isNaN word = false := decide_eq_false hfinite.not_gt
  have hfinite' : f.isFinite word = true := decide_eq_true hfinite
  rw [print, hNaN, hfinite']
  cases hword : f.magnitude word with
  | zero =>
    refine ⟨"0.0", ⟨0, -1⟩, rfl, by decide +kernel, ?_⟩
    rw [Decimal.value, Nat.cast_zero, zero_mul]
    exact between_zero
  | succ v =>
    rw [hword] at hfinite
    obtain ⟨d, hread, hvalue⟩ := Decimal.read?_print (Decimal.shortest f (v + 1))
    refine ⟨_, d, rfl, hread, ?_⟩
    rw [hvalue]
    exact Decimal.between_of_readsAs hfinite.le (Decimal.readsAs_shortest hp hdigits v)

end WireSchema.BinaryFormat
