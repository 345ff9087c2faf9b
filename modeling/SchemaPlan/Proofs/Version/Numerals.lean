import Mathlib.Data.String.Basic
import SchemaPlan.Proofs.Version.Order

/-!
# Numerals

What is kept of a run of digits is the decimal numeral of the number that the run denotes
(`numeral_eq_toDigits`), however many zeros stand in front. Such numerals compare as their numbers
do (`compares_toString`): the longer one is greater because it does not begin with a zero, and of
two that are equally long the first digit that differs decides.
-/

namespace SchemaPlan.Version

open Std

/-! ### Digits -/

/-- A digit stands for a number below ten. -/
theorem exists_eq_digitChar {c : Char} (h : c.isDigit = true) :
    ∃ d < 10, c = Nat.digitChar d := by
  have hbounds : 48 ≤ c.toNat ∧ c.toNat ≤ 57 := Char.isDigit_iff_toNat.1 h
  have hd : c.toNat - 48 < 10 := by omega
  refine ⟨c.toNat - 48, hd, Char.toNat_inj.1 ?_⟩
  rw [Nat.toNat_digitChar_of_lt_ten hd]
  omega

/-- The first digit counts for as much as there are digits behind it. -/
theorem ofDigitChars_digitChar_cons {d : ℕ} (hd : d < 10) (ds : List Char) :
    Nat.ofDigitChars 10 (Nat.digitChar d :: ds) 0 =
      10 ^ ds.length * d + Nat.ofDigitChars 10 ds 0 := by
  rw [Nat.ofDigitChars_cons_digitChar_of_lt_ten hd, Nat.ofDigitChars_eq_ofDigitChars_zero,
    Nat.mul_zero, Nat.zero_add]

theorem ofDigitChars_lt_pow {ds : List Char} (h : ∀ c ∈ ds, c.isDigit = true) :
    Nat.ofDigitChars 10 ds 0 < 10 ^ ds.length := by
  induction ds with
  | nil => exact Nat.one_pos
  | cons c ds ih =>
    obtain ⟨hc, hds⟩ := List.forall_mem_cons.1 h
    obtain ⟨d, hd, rfl⟩ := exists_eq_digitChar hc
    have hfirst : 10 ^ ds.length * d ≤ 10 ^ ds.length * 9 := Nat.mul_le_mul_left _ (by omega)
    have hrest := ih hds
    rw [ofDigitChars_digitChar_cons hd, List.length_cons, Nat.pow_succ]
    omega

/-! ### The numeral that is kept -/

/-- Digits behind the numeral of a number other than zero make a longer numeral. -/
theorem toDigits_append {ds : List Char} (h : ∀ c ∈ ds, c.isDigit = true) {n : ℕ} (hn : 0 < n) :
    Nat.toDigits 10 n ++ ds = Nat.toDigits 10 (Nat.ofDigitChars 10 ds n) := by
  induction ds generalizing n with
  | nil => rw [List.append_nil, Nat.ofDigitChars_nil]
  | cons c ds ih =>
    obtain ⟨hc, hds⟩ := List.forall_mem_cons.1 h
    obtain ⟨d, hd, rfl⟩ := exists_eq_digitChar hc
    rw [Nat.ofDigitChars_cons_digitChar_of_lt_ten hd, ← ih hds (by omega),
      ← Nat.toDigits_append_toDigits (by decide) hn hd, Nat.toDigits_of_lt_base hd,
      List.append_assoc, List.singleton_append]

/-- The digits without leading zeros are those of the number that they denote. -/
theorem numeral_eq_toDigits {ds : List Char} (h : ∀ c ∈ ds, c.isDigit = true) :
    numeral ds = Nat.toDigits 10 (Nat.ofDigitChars 10 ds 0) := by
  induction ds with
  | nil => rfl
  | cons c ds ih =>
    obtain ⟨hc, hds⟩ := List.forall_mem_cons.1 h
    obtain ⟨d, hd, rfl⟩ := exists_eq_digitChar hc
    rw [Nat.ofDigitChars_cons_digitChar_of_lt_ten hd, Nat.mul_zero, Nat.zero_add]
    cases d with
    | zero => exact ih hds
    | succ d =>
      rw [← toDigits_append hds (Nat.succ_pos d), Nat.toDigits_of_lt_base hd, numeral,
        List.dropWhile_cons_of_neg (by simp)]
      rfl

/-! ### Comparing numerals -/

/-- Of two numbers with equally many digits the smaller one comes first as a text. -/
theorem lt_of_ofDigitChars_lt {as bs : List Char} (ha : ∀ c ∈ as, c.isDigit = true)
    (hb : ∀ c ∈ bs, c.isDigit = true) (hlength : as.length = bs.length)
    (h : Nat.ofDigitChars 10 as 0 < Nat.ofDigitChars 10 bs 0) : as < bs := by
  induction as generalizing bs with
  | nil =>
    rw [List.eq_nil_of_length_eq_zero hlength.symm] at h
    exact absurd h (Nat.lt_irrefl _)
  | cons a as ih =>
    cases bs with
    | nil => cases hlength
    | cons b bs =>
      obtain ⟨ha, has⟩ := List.forall_mem_cons.1 ha
      obtain ⟨hb, hbs⟩ := List.forall_mem_cons.1 hb
      obtain ⟨d, hd, rfl⟩ := exists_eq_digitChar ha
      obtain ⟨e, he, rfl⟩ := exists_eq_digitChar hb
      have htail : as.length = bs.length := Nat.succ.inj hlength
      rw [ofDigitChars_digitChar_cons hd, ofDigitChars_digitChar_cons he, htail] at h
      rw [List.cons_lt_cons_iff]
      rcases Nat.lt_trichotomy d e with hde | rfl | hde
      · left
        show (Nat.digitChar d).toNat < (Nat.digitChar e).toNat
        rw [Nat.toNat_digitChar_of_lt_ten hd, Nat.toNat_digitChar_of_lt_ten he]
        omega
      · exact .inr ⟨rfl, ih has hbs htail (by omega)⟩
      · -- a greater first digit outweighs all that stands behind it
        have hrest := ofDigitChars_lt_pow hbs
        have hfirst : 10 ^ bs.length * (e + 1) ≤ 10 ^ bs.length * d := Nat.mul_le_mul_left _ hde
        rw [Nat.mul_succ] at hfirst
        omega

theorem length_toString (n : ℕ) : (toString n).length = (Nat.toDigits 10 n).length := by
  rw [Nat.toString_eq_ofList_toDigits, String.length_ofList]

theorem compareNumerals_toString_of_lt {m n : ℕ} (h : m < n) :
    compareNumerals (toString m) (toString n) = .lt := by
  have hdigits : ∀ k, ∀ c ∈ Nat.toDigits 10 k, c.isDigit = true := fun k c hc =>
    Nat.isDigit_of_mem_toDigits (by decide) (by decide) hc
  have hle : (toString m).length ≤ (toString n).length := by
    rw [length_toString, length_toString,
      Nat.length_toDigits_le_iff (by decide) Nat.length_toDigits_pos]
    exact Nat.lt_trans h
      ((Nat.length_toDigits_le_iff (by decide) Nat.length_toDigits_pos).1 (Nat.le_refl _))
  rw [compareNumerals, Ordering.then_eq_lt]
  rcases Nat.lt_or_eq_of_le hle with hlt | heq
  · exact .inl (compare_lt_iff_lt.2 hlt)
  · refine .inr ⟨Std.compare_eq_iff_eq.2 heq, compare_lt_iff_lt.2 (String.lt_iff_toList_lt.2 ?_)⟩
    rw [length_toString, length_toString] at heq
    rw [Nat.toString_eq_ofList_toDigits, Nat.toString_eq_ofList_toDigits, String.toList_ofList,
      String.toList_ofList]
    refine lt_of_ofDigitChars_lt (hdigits m) (hdigits n) heq ?_
    rwa [Nat.ofDigitChars_ten_toDigits, Nat.ofDigitChars_ten_toDigits]

/-- Numerals compare as their numbers do. -/
theorem compares_toString (m n : ℕ) :
    (compareNumerals (toString m) (toString n)).Compares m n := by
  rcases Nat.lt_trichotomy m n with h | rfl | h
  · rw [compareNumerals_toString_of_lt h]
    exact h
  · rw [compareNumerals_eq_eq_iff.2 rfl]
    rfl
  · rw [OrientedCmp.gt_of_lt (compareNumerals_toString_of_lt h)]
    exact h

end SchemaPlan.Version
