import Mathlib.Data.Nat.Digits.Lemmas
import Mathlib.Logic.Function.Iterate
import SchemaPlan.Proofs.Checksum.Lines

/-!
# Small edits change a checksum

Shifting the register is linear in exclusive or (`shift_xor`), and only the zero register is shifted
to zero, so no two registers are shifted to the same one. Hence a byte takes different registers to
different ones (`feedByte_injective`), and so do all bytes behind an edit.

Up to four bytes are fed by adding them to the register as one word and shifting it by all their
bits (`feed_eq_iterate`), so different words take one register to different ones (`feed_ne`).
Together an edit within four neighbouring bytes is seen wherever it is (`checksumOfBytes_ne`).
-/

namespace SchemaPlan

namespace Crc32

variable {a b r x y : UInt32} {w w' bytes : List UInt8} {n : ℕ}

/-! ### One bit -/

/-- What an odd register is exclusive-ored with when it is shifted. -/
def folded (a : UInt32) : UInt32 := if a.toNat % 2 = 1 then 0xEDB88320 else 0

theorem shift_eq (a : UInt32) : shift a = (a >>> 1) ^^^ folded a := by
  have hodd : a &&& 1 = 1 ↔ a.toNat % 2 = 1 := by
    rw [← UInt32.toNat_inj, UInt32.toNat_and, ← Nat.and_one_is_mod]
    rfl
  unfold shift folded
  simp only [hodd]
  split
  · rfl
  · exact UInt32.xor_zero.symm

theorem folded_xor (a b : UInt32) : folded (a ^^^ b) = folded a ^^^ folded b := by
  have hodd := Nat.xor_mod_two_eq_one (a := a.toNat) (b := b.toNat)
  simp only [folded, UInt32.toNat_xor, hodd]
  by_cases ha : a.toNat % 2 = 1 <;> by_cases hb : b.toNat % 2 = 1 <;> simp [ha, hb]

theorem shift_xor (a b : UInt32) : shift (a ^^^ b) = shift a ^^^ shift b := by
  rw [shift_eq, shift_eq, shift_eq, folded_xor, UInt32.shiftRight_xor]
  ac_rfl

/-- Only the zero register is shifted to zero: the top bit of the polynomial tells that an odd one
was folded. -/
theorem eq_zero_of_shift_eq_zero (h : shift a = 0) : a = 0 := by
  rw [shift_eq, UInt32.xor_eq_zero_iff, ← UInt32.toNat_inj, UInt32.toNat_shiftRight] at h
  have hhalf : a.toNat >>> ((1 : UInt32).toNat % 32) = a.toNat / 2 := rfl
  have hlt := a.toNat_lt
  rw [hhalf] at h
  unfold folded at h
  split at h
  · rw [show (0xEDB88320 : UInt32).toNat = 0xEDB88320 from rfl] at h
    omega
  · rw [show (0 : UInt32).toNat = 0 from rfl] at h
    rw [← UInt32.toNat_inj]
    show a.toNat = 0
    omega

theorem shift_injective : Function.Injective shift := by
  intro a b h
  rw [← UInt32.xor_eq_zero_iff]
  apply eq_zero_of_shift_eq_zero
  rw [shift_xor, h, UInt32.xor_self]

/-- An even register only moves. -/
theorem shift_of_toNat_eq (h : x.toNat = 2 * y.toNat) : shift x = y := by
  have heven : folded x = 0 := if_neg (by omega)
  rw [shift_eq, heven, UInt32.xor_zero, ← UInt32.toNat_inj, UInt32.toNat_shiftRight]
  show x.toNat / 2 = y.toNat
  omega

/-! ### Several bits -/

theorem iterate_shift_xor (n : ℕ) (a b : UInt32) :
    shift^[n] (a ^^^ b) = shift^[n] a ^^^ shift^[n] b := by
  induction n generalizing a b with
  | zero => rfl
  | succ n ih => rw [Function.iterate_succ_apply, shift_xor, ih]; rfl

theorem iterate_shift_of_toNat_eq (h : x.toNat = 2 ^ n * y.toNat) : shift^[n] x = y := by
  induction n generalizing x with
  | zero =>
    rw [Nat.pow_zero, Nat.one_mul] at h
    exact UInt32.toNat_inj.1 h
  | succ n ih =>
    have hlt : 2 ^ n * y.toNat < 2 ^ 32 := by
      have hx := x.toNat_lt
      rw [h, Nat.pow_succ', Nat.mul_assoc] at hx
      omega
    have hz : (UInt32.ofNat (2 ^ n * y.toNat)).toNat = 2 ^ n * y.toNat :=
      UInt32.toNat_ofNat_of_lt' hlt
    rw [Function.iterate_succ_apply]
    rw [shift_of_toNat_eq (y := UInt32.ofNat (2 ^ n * y.toNat)), ih hz]
    rw [h, hz, Nat.pow_succ', Nat.mul_assoc]

theorem feedByte_eq (r : UInt32) (c : UInt8) : feedByte r c = shift^[8] (r ^^^ c.toUInt32) := rfl

theorem feedByte_injective (c : UInt8) : Function.Injective fun r => feedByte r c := by
  intro r r' h
  exact (UInt32.xor_left_inj _).1 (shift_injective.iterate 8 h)

theorem feed_injective (bytes : List UInt8) : Function.Injective fun r => feed r bytes := by
  induction bytes with
  | nil => exact fun _ _ h => h
  | cons c bytes ih => exact fun r r' h => feedByte_injective c (ih h)

/-! ### A word -/

/-- Some bytes as a number, the first one in the lowest place. -/
def number (bytes : List UInt8) : ℕ := Nat.ofDigits 256 (bytes.map UInt8.toNat)

theorem number_lt (bytes : List UInt8) : number bytes < 256 ^ bytes.length := by
  have h := Nat.ofDigits_lt_base_pow_length (b := 256) (l := bytes.map UInt8.toNat) (by decide)
    fun d hd => by
      obtain ⟨c, -, rfl⟩ := List.mem_map.1 hd
      exact c.toNat_lt
  rwa [List.length_map] at h

theorem number_inj (hlength : w.length = w'.length) (h : number w = number w') : w = w' := by
  have hbytes : ∀ v : List UInt8, ∀ d ∈ v.map UInt8.toNat, d < 256 := by
    intro v d hd
    obtain ⟨c, -, rfl⟩ := List.mem_map.1 hd
    exact c.toNat_lt
  have hmap := Nat.ofDigits_inj_of_len_eq (by decide) (by simpa using hlength) (hbytes w)
    (hbytes w') h
  exact List.map_injective_iff.2 (fun _ _ => UInt8.toNat_inj.1) hmap

/-- A byte and a number above it have no bit in common. -/
theorem xor_eq_add {c : ℕ} (hc : c < 2 ^ 8) (m : ℕ) : c ^^^ 2 ^ 8 * m = c + 2 ^ 8 * m := by
  have hdiv : (c ^^^ 2 ^ 8 * m) / 2 ^ 8 = m := by
    rw [Nat.xor_div_two_pow, Nat.div_eq_of_lt hc, Nat.mul_div_cancel_left m (by decide),
      Nat.zero_xor]
  have hmod : (c ^^^ 2 ^ 8 * m) % 2 ^ 8 = c := by
    rw [Nat.xor_mod_two_pow, Nat.mod_eq_of_lt hc, Nat.mul_mod_right, Nat.xor_zero]
  omega

theorem word_cons (c : UInt8) (bytes : List UInt8) :
    UInt32.ofNat (number (c :: bytes)) =
      c.toUInt32 ^^^ UInt32.ofNat (2 ^ 8 * number bytes) := by
  have hnumber : number (c :: bytes) = c.toNat + 2 ^ 8 * number bytes := rfl
  have hbyte : c.toUInt32 = UInt32.ofNat c.toNat := by
    rw [← UInt32.toNat_inj, UInt8.toNat_toUInt32, UInt32.toNat_ofNat_of_lt']
    exact Nat.lt_trans c.toNat_lt (by decide)
  rw [hnumber, ← xor_eq_add c.toNat_lt, UInt32.ofNat_xor, hbyte]

/-- Feeding at most four bytes is adding them to the register as one word, and then shifting it by
their bits. -/
theorem feed_eq_iterate (hlength : w.length ≤ 4) (r : UInt32) :
    feed r w = shift^[8 * w.length] (r ^^^ UInt32.ofNat (number w)) := by
  induction w generalizing r with
  | nil => exact UInt32.xor_zero.symm
  | cons c w ih =>
    rw [List.length_cons] at hlength
    -- the word of the other bytes comes from above the first byte
    have hlt : 2 ^ 8 * number w < 2 ^ 32 := by
      have hpow : 256 ^ w.length ≤ 256 ^ 3 := Nat.pow_le_pow_right (by decide) (by omega)
      have hnumber := number_lt w
      omega
    have hword : UInt32.ofNat (number w) = shift^[8] (UInt32.ofNat (2 ^ 8 * number w)) := by
      refine (iterate_shift_of_toNat_eq ?_).symm
      have hlt' : number w < 2 ^ 32 := by omega
      rw [UInt32.toNat_ofNat_of_lt' hlt, UInt32.toNat_ofNat_of_lt' hlt']
    calc feed r (c :: w) = feed (feedByte r c) w := rfl
      _ = shift^[8 * w.length] (feedByte r c ^^^ UInt32.ofNat (number w)) := ih (by omega) _
      _ = shift^[8 * w.length] (shift^[8] (r ^^^ UInt32.ofNat (number (c :: w)))) := by
          rw [hword, feedByte_eq, ← iterate_shift_xor, UInt32.xor_assoc, ← word_cons]
      _ = shift^[8 * (c :: w).length] (r ^^^ UInt32.ofNat (number (c :: w))) :=
          (Function.iterate_add_apply shift _ _ _).symm

/-- From one register different words lead to different registers. -/
theorem feed_ne (hlength : w.length = w'.length) (hle : w.length ≤ 4) (hne : w ≠ w') (r : UInt32) :
    feed r w ≠ feed r w' := by
  intro h
  rw [feed_eq_iterate hle, feed_eq_iterate (hlength ▸ hle), hlength] at h
  have hword := (UInt32.xor_right_inj _).1 (shift_injective.iterate _ h)
  have hlt : ∀ v : List UInt8, v.length ≤ 4 → number v < UInt32.size := fun v hv =>
    Nat.lt_of_lt_of_le (number_lt v) (Nat.pow_le_pow_right (by decide) hv)
  rw [← UInt32.toNat_inj, UInt32.toNat_ofNat_of_lt' (hlt w hle),
    UInt32.toNat_ofNat_of_lt' (hlt w' (hlength ▸ hle))] at hword
  exact hne (number_inj hlength hword)

end Crc32

/-! ### Edits -/

/-- Two contents of the same length that differ, and only within `width` neighbouring bytes. -/
structure EditedWithin (width : ℕ) (a b : List UInt8) : Prop where
  length_eq : a.length = b.length
  ne : a ≠ b
  exists_window : ∃ start, ∀ i, a[i]? ≠ b[i]? → start ≤ i ∧ i < start + width

/-- Such contents have the same bytes in front of a window and behind it. -/
theorem EditedWithin.exists_parts {width : ℕ} {a b : List UInt8} (h : EditedWithin width a b) :
    ∃ front w w' back, a = front ++ w ++ back ∧ b = front ++ w' ++ back ∧
      w.length = w'.length ∧ w.length ≤ width ∧ w ≠ w' := by
  obtain ⟨hlength, hne, start, hwindow⟩ := h
  have hsplit : ∀ x : List UInt8,
      x = x.take start ++ (x.drop start).take width ++ x.drop (start + width) := fun x => by
    rw [List.append_assoc, ← List.drop_drop, List.take_append_drop, List.take_append_drop]
  have hoff : ∀ i, i < start ∨ start + width ≤ i → a[i]? = b[i]? := fun i hi => by
    by_contra hdiffer
    have hinside := hwindow i hdiffer
    omega
  have hfront : a.take start = b.take start := by
    refine List.ext_getElem? fun i => ?_
    rw [List.getElem?_take, List.getElem?_take]
    split
    · next hi => exact hoff i (.inl hi)
    · rfl
  have hback : a.drop (start + width) = b.drop (start + width) := by
    refine List.ext_getElem? fun i => ?_
    rw [List.getElem?_drop, List.getElem?_drop]
    exact hoff _ (.inr (Nat.le_add_right _ i))
  refine ⟨a.take start, (a.drop start).take width, (b.drop start).take width,
    a.drop (start + width), hsplit a, ?_, ?_, ?_, ?_⟩
  · rw [hfront, hback]
    exact hsplit b
  · simp [hlength]
  · simp
  · intro hmid
    rw [hsplit a, hsplit b, hfront, hback, hmid] at hne
    exact hne rfl

theorem editedWithin_of_parts {width : ℕ} {w w' : List UInt8} (hlength : w.length = w'.length)
    (hwidth : w.length ≤ width) (hne : w ≠ w') (front back : List UInt8) :
    EditedWithin width (front ++ w ++ back) (front ++ w' ++ back) := by
  refine ⟨by simp [hlength], fun h => hne ?_, front.length, fun i hi => ?_⟩
  · exact List.append_cancel_left (List.append_cancel_right h)
  · -- off the window both have the same bytes
    by_contra hoff
    refine hi ?_
    rw [List.append_assoc, List.append_assoc]
    by_cases hfront : i < front.length
    · rw [List.getElem?_append_left hfront, List.getElem?_append_left hfront]
    · rw [List.getElem?_append_right (by omega), List.getElem?_append_right (by omega),
        List.getElem?_append_right (by omega), List.getElem?_append_right (by omega), hlength]

/-- An edit within four neighbouring bytes changes the checksum. -/
theorem checksumOfBytes_ne {a b : List UInt8} (h : EditedWithin 4 a b) :
    checksumOfBytes a ≠ checksumOfBytes b := by
  obtain ⟨front, w, w', back, rfl, rfl, hlength, hwidth, hne⟩ := h.exists_parts
  intro heq
  have hregister : Crc32.ofBytes (front ++ w ++ back) = Crc32.ofBytes (front ++ w' ++ back) :=
    congrArg Int32.toUInt32 heq
  rw [Crc32.ofBytes, Crc32.ofBytes, Crc32.finish, Crc32.finish, UInt32.xor_left_inj] at hregister
  simp only [Crc32.feed_append] at hregister
  exact Crc32.feed_ne hlength hwidth hne _ (Crc32.feed_injective back hregister)

/-- A character is exchanged for one that takes as many bytes. -/
theorem editedWithin_encode {c d : Char} (hne : c ≠ d) (hsize : c.utf8Size = d.utf8Size)
    (before after : List Char) :
    EditedWithin 4 (Text.encode (before ++ c :: after)) (Text.encode (before ++ d :: after)) := by
  have hparts : ∀ e, Text.encode (before ++ e :: after) =
      Text.encode before ++ String.utf8EncodeChar e ++ Text.encode after := fun e => by
    rw [Text.encode_append, Text.encode_cons, List.append_assoc]
  rw [hparts, hparts]
  refine editedWithin_of_parts ?_ ?_ ?_ _ _
  · rw [String.length_utf8EncodeChar, String.length_utf8EncodeChar, hsize]
  · rw [String.length_utf8EncodeChar]
    exact c.utf8Size_le_four
  · intro heq
    exact hne (Text.encodeChar_append_inj (congrArg (· ++ []) heq)).1

namespace ChecksumPolicy

/-- **Small edits are detected**: contents that differ only within four neighbouring bytes have
different checksums, and so have, by lines, texts that differ so without their terminators. In
particular this holds if one character of a line is exchanged for one that takes as many bytes. -/
theorem checksum_ne_of_edited :
    (∀ a b : List UInt8, EditedWithin 4 a b → checksumOfBytes a ≠ checksumOfBytes b) ∧
      (∀ text text' : String, EditedWithin 4 (Text.withoutTerminators (Text.bytesOf text))
          (Text.withoutTerminators (Text.bytesOf text')) →
        lines.textChecksum text ≠ lines.textChecksum text') ∧
      ∀ (before after : List Char) (c d : Char), c ≠ d → c.utf8Size = d.utf8Size →
        Text.isTerminator c = false → Text.isTerminator d = false →
        lines.textChecksum (String.ofList (before ++ c :: after)) ≠
          lines.textChecksum (String.ofList (before ++ d :: after)) := by
  have hlines : ∀ text text' : String, EditedWithin 4 (Text.withoutTerminators (Text.bytesOf text))
      (Text.withoutTerminators (Text.bytesOf text')) →
      lines.textChecksum text ≠ lines.textChecksum text' := by
    intro text text' h
    rw [textChecksum_lines, textChecksum_lines]
    exact checksumOfBytes_ne h
  refine ⟨fun a b => checksumOfBytes_ne, hlines, fun before after c d hne hsize hc hd => ?_⟩
  have hkept : ∀ e, Text.isTerminator e = false →
      Text.withoutTerminators (Text.bytesOf (String.ofList (before ++ e :: after))) =
        Text.encode (before.filter (!Text.isTerminator ·) ++
          e :: after.filter (!Text.isTerminator ·)) := fun e he => by
    rw [Text.bytesOf, String.toList_ofList, ← Text.encode_filter, List.filter_append,
      List.filter_cons_of_pos (by rw [he]; rfl)]
  apply hlines
  rw [hkept c hc, hkept d hd]
  exact editedWithin_encode hne hsize _ _

theorem checksum_ne_of_edited_digit :
    EditedWithin 4 (Text.withoutTerminators (Text.bytesOf "SELECT\r\n1;"))
        (Text.withoutTerminators (Text.bytesOf "SELECT\n2;\n")) ∧
      lines.textChecksum "SELECT\r\n1;" ≠ lines.textChecksum "SELECT\n2;\n" := by
  have h : EditedWithin 4 (Text.withoutTerminators (Text.bytesOf "SELECT\r\n1;"))
      (Text.withoutTerminators (Text.bytesOf "SELECT\n2;\n")) :=
    @editedWithin_of_parts 4 [0x31] [0x32] rfl (by decide) (by decide)
      (Text.encode "SELECT".toList) [0x3B]
  exact ⟨h, checksum_ne_of_edited.2.1 _ _ h⟩

end ChecksumPolicy

end SchemaPlan
