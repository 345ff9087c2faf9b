import Mathlib.Data.String.Basic
import Mathlib.Tactic.SplitIfs
import SchemaPlan.Proofs.Text.Occurrence
import SchemaPlan.Proofs.Text.Utf8

/-!
# Texts in the order of their bytes

Of two characters the lesser one has the lesser bytes, whatever follows either of them, because an
encoding tells by its first byte how long it is and begins with the highest digits. So ordering
texts by their bytes is ordering them by their characters (`bytesOf_lt_iff`).
-/

namespace SchemaPlan.Text

variable {c d : Char} {s t : List Char}

/-- The bytes of a lesser character come before those of a greater one, whatever follows. -/
theorem encodeChar_append_lt (h : c < d) (x y : List UInt8) :
    String.utf8EncodeChar c ++ x < String.utf8EncodeChar d ++ y := by
  have hlt : c.val.toNat < d.val.toNat := UInt32.lt_iff_toNat_lt.1 h
  have hbound : d.val.toNat < 0x110000 := by
    have hvalid : d.val.toNat < 0xD800 ∨ 0xDFFF < d.val.toNat ∧ d.val.toNat < 0x110000 := d.valid
    omega
  unfold String.utf8EncodeChar
  generalize c.val.toNat = v at hlt
  generalize d.val.toNat = w at hlt hbound
  have hdigits : ∀ n < 0x110000, n / 64 / 64 = n / 4096 ∧ n / 4096 / 64 = n / 262144 ∧
      n / 262144 % 8 = n / 262144 := fun n hn =>
    ⟨Nat.div_div_eq_div_mul n 64 64, Nat.div_div_eq_div_mul n 4096 64, by omega⟩
  have hv := hdigits v (by omega)
  have hw := hdigits w hbound
  clear hdigits
  simp only
  split_ifs <;> simp (disch := omega) only [List.cons_append, List.nil_append,
    List.cons_lt_cons_iff, UInt8.lt_iff_toNat_lt, ← UInt8.toNat_inj, toNat_byte] <;> omega

theorem encode_lt_of_lt (h : s < t) : encode s < encode t := by
  induction s generalizing t with
  | nil =>
    cases t with
    | nil => exact absurd h (List.not_lt_nil [])
    | cons d t =>
      obtain ⟨b, bytes, hbytes, -⟩ := exists_cons_eq_encode (List.cons_ne_nil d t)
      rw [hbytes]
      exact List.nil_lt_cons b bytes
  | cons c s ih =>
    cases t with
    | nil => exact absurd h (List.not_lt_nil _)
    | cons d t =>
      rw [encode_cons, encode_cons]
      rcases List.cons_lt_cons_iff.1 h with hlt | ⟨rfl, hlt⟩
      · exact encodeChar_append_lt hlt _ _
      · exact List.append_left_lt (ih hlt)

/-- Texts are ordered as their bytes are. -/
theorem bytesOf_lt_iff {a b : String} : bytesOf a < bytesOf b ↔ a < b := by
  rw [String.lt_iff_toList_lt]
  refine ⟨fun h => ?_, encode_lt_of_lt⟩
  rcases lt_trichotomy a.toList b.toList with hlt | heq | hgt
  · exact hlt
  · rw [bytesOf, bytesOf, heq] at h
    exact absurd h (List.lt_irrefl _)
  · exact absurd h (List.lt_asymm (encode_lt_of_lt hgt))

/-- Texts compare as their bytes do. -/
theorem compare_compares_bytesOf (a b : String) :
    (compare a b).Compares (bytesOf a) (bytesOf b) := by
  cases h : compare a b with
  | lt => exact bytesOf_lt_iff.2 (compare_lt_iff_lt.1 h)
  | eq => exact congrArg bytesOf (compare_eq_iff_eq.1 h)
  | gt => exact bytesOf_lt_iff.2 (compare_gt_iff_gt.1 h)

end SchemaPlan.Text
