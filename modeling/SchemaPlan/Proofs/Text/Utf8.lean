import Mathlib.Tactic.IntervalCases
import SchemaPlan.Text.Utf8

/-!
# What is encoded is decoded again, and nothing else is

Decoding goes through a character byte by byte. From the bytes of a character it comes back to where
it began, with that character read (`decodeFrom_encodeChar`); the ranges that keep out overlong
forms and surrogates are met because the character is one. So the characters that were encoded are
decoded (`decode_encode`).

Where decoding goes on, the bytes that were read are those of a character
(`exists_char_of_decodeFrom`): the same ranges let no other bytes pass. So some bytes are decoded
exactly if they are those of a text (`decodeText_eq_ok_iff`).
-/

namespace SchemaPlan.Text

theorem toNat_byte {n : Nat} (h : n < 256) : (UInt8.ofNat n).toNat = n := by
  rw [UInt8.toNat_ofNat']
  omega

/-! ### One byte -/

theorem begin?_two {n : Nat} (h : 0xC2 ≤ n) (h' : n ≤ 0xDF) :
    PartialChar.begin? (UInt8.ofNat n) = some ⟨n - 0xC0, 1, 1, 0x80, 0xBF⟩ := by
  interval_cases n <;> rfl

theorem begin?_three {n : Nat} (h : 0xE0 ≤ n) (h' : n ≤ 0xEF) :
    PartialChar.begin? (UInt8.ofNat n) =
      some ⟨n - 0xE0, 1, 2, if n = 0xE0 then 0xA0 else 0x80, if n = 0xED then 0x9F else 0xBF⟩ := by
  interval_cases n <;> rfl

theorem begin?_four {n : Nat} (h : 0xF0 ≤ n) (h' : n ≤ 0xF4) :
    PartialChar.begin? (UInt8.ofNat n) =
      some ⟨n - 0xF0, 1, 3, if n = 0xF0 then 0x90 else 0x80, if n = 0xF4 then 0x8F else 0xBF⟩ := by
  interval_cases n <;> rfl

variable {pos : Nat} {done : List Char} {bytes : List UInt8}

/-- A small byte is a character. -/
theorem decodeFrom_small {n : Nat} (h : n < 0x80) :
    decodeFrom pos done none (UInt8.ofNat n :: bytes) =
      decodeFrom (pos + 1) (Char.ofNat n :: done) none bytes := by
  have hbyte := toNat_byte (n := n) (by omega)
  have hsmall : UInt8.ofNat n < 0x80 := by
    rw [UInt8.lt_iff_toNat_lt, hbyte]
    exact h
  rw [decodeFrom, if_pos hsmall, hbyte]

/-- Another byte begins a character, if it can. -/
theorem decodeFrom_begin {n : Nat} (h : 0x80 ≤ n) (h' : n < 256) {p : PartialChar}
    (hp : PartialChar.begin? (UInt8.ofNat n) = some p) :
    decodeFrom pos done none (UInt8.ofNat n :: bytes) = decodeFrom pos done (some p) bytes := by
  have hlarge : ¬ UInt8.ofNat n < 0x80 := by
    rw [UInt8.lt_iff_toNat_lt, toNat_byte h']
    exact Nat.not_lt.2 h
  rw [decodeFrom, if_neg hlarge, hp]

theorem inRange {n : Nat} {low high : UInt8} (hlow : low.toNat ≤ n) (hhigh : n ≤ high.toNat) :
    (low ≤ UInt8.ofNat n && UInt8.ofNat n ≤ high) = true ∧ (UInt8.ofNat n).toNat = n := by
  have hbyte := toNat_byte (Nat.lt_of_le_of_lt hhigh high.toNat_lt)
  rw [Bool.and_eq_true, decide_eq_true_eq, decide_eq_true_eq, UInt8.le_iff_toNat_le,
    UInt8.le_iff_toNat_le, hbyte]
  exact ⟨⟨hlow, hhigh⟩, rfl⟩

variable {bits read owed n : Nat} {low high : UInt8}

/-- The last byte of a character ends it. -/
theorem decodeFrom_last (hlow : low.toNat ≤ n) (hhigh : n ≤ high.toNat) :
    decodeFrom pos done (some ⟨bits, read, 1, low, high⟩) (UInt8.ofNat n :: bytes) =
      decodeFrom (pos + read + 1) (Char.ofNat (bits * 64 + (n - 0x80)) :: done) none bytes := by
  obtain ⟨hrange, hbyte⟩ := inRange hlow hhigh
  rw [decodeFrom, if_pos hrange, if_pos rfl, hbyte]

/-- A byte before the last one goes on with the character. -/
theorem decodeFrom_next (hlow : low.toNat ≤ n) (hhigh : n ≤ high.toNat) (howed : owed ≠ 1) :
    decodeFrom pos done (some ⟨bits, read, owed, low, high⟩) (UInt8.ofNat n :: bytes) =
      decodeFrom pos done (some ⟨bits * 64 + (n - 0x80), read + 1, owed - 1, 0x80, 0xBF⟩)
        bytes := by
  obtain ⟨hrange, hbyte⟩ := inRange hlow hhigh
  rw [decodeFrom, if_pos hrange, if_neg howed, hbyte]

/-! ### One character -/

/-- Six bits make a byte in the middle or at the end of a character. -/
theorem continuation_inRange (v : Nat) :
    (0x80 : UInt8).toNat ≤ v % 64 + 128 ∧ v % 64 + 128 ≤ (0xBF : UInt8).toNat := by
  constructor
  · show 128 ≤ v % 64 + 128
    omega
  · show v % 64 + 128 ≤ 191
    omega

variable {v : Nat}

theorem decodeFrom_two (h : 0x80 ≤ v) (h' : v ≤ 0x7FF) :
    decodeFrom pos done none
        (UInt8.ofNat (v / 64 % 32 + 192) :: UInt8.ofNat (v % 64 + 128) :: bytes) =
      decodeFrom (pos + 2) (Char.ofNat v :: done) none bytes := by
  obtain ⟨hlow, hhigh⟩ := continuation_inRange v
  have hbits : (v / 64 % 32 + 192 - 0xC0) * 64 + (v % 64 + 128 - 0x80) = v := by omega
  rw [decodeFrom_begin (by omega) (by omega) (begin?_two (by omega) (by omega)),
    decodeFrom_last hlow hhigh, hbits]

theorem decodeFrom_three (h : 0x800 ≤ v) (h' : v < 0xD800 ∨ 0xDFFF < v ∧ v ≤ 0xFFFF) :
    decodeFrom pos done none
        (UInt8.ofNat (v / 4096 % 16 + 224) :: UInt8.ofNat (v / 64 % 64 + 128) ::
          UInt8.ofNat (v % 64 + 128) :: bytes) =
      decodeFrom (pos + 3) (Char.ofNat v :: done) none bytes := by
  -- the second byte is not so small that the form is overlong, nor that of a surrogate
  have hsecond : (if v / 4096 % 16 + 224 = 0xE0 then 0xA0 else 0x80 : UInt8).toNat ≤
      v / 64 % 64 + 128 := by
    split
    · show 160 ≤ v / 64 % 64 + 128
      omega
    · exact (continuation_inRange (v / 64)).1
  have hsecond' : v / 64 % 64 + 128 ≤
      (if v / 4096 % 16 + 224 = 0xED then 0x9F else 0xBF : UInt8).toNat := by
    split
    · show v / 64 % 64 + 128 ≤ 159
      omega
    · exact (continuation_inRange (v / 64)).2
  obtain ⟨hlow, hhigh⟩ := continuation_inRange v
  have hbits : ((v / 4096 % 16 + 224 - 0xE0) * 64 + (v / 64 % 64 + 128 - 0x80)) * 64 +
      (v % 64 + 128 - 0x80) = v := by omega
  rw [decodeFrom_begin (by omega) (by omega) (begin?_three (by omega) (by omega)),
    decodeFrom_next hsecond hsecond' (by decide), decodeFrom_last hlow hhigh, hbits]

theorem decodeFrom_four (h : 0x10000 ≤ v) (h' : v < 0x110000) :
    decodeFrom pos done none
        (UInt8.ofNat (v / 262144 % 8 + 240) :: UInt8.ofNat (v / 4096 % 64 + 128) ::
          UInt8.ofNat (v / 64 % 64 + 128) :: UInt8.ofNat (v % 64 + 128) :: bytes) =
      decodeFrom (pos + 4) (Char.ofNat v :: done) none bytes := by
  -- the second byte is not so small that the form is overlong, nor beyond the last character
  have hsecond : (if v / 262144 % 8 + 240 = 0xF0 then 0x90 else 0x80 : UInt8).toNat ≤
      v / 4096 % 64 + 128 := by
    split
    · show 144 ≤ v / 4096 % 64 + 128
      omega
    · exact (continuation_inRange (v / 4096)).1
  have hsecond' : v / 4096 % 64 + 128 ≤
      (if v / 262144 % 8 + 240 = 0xF4 then 0x8F else 0xBF : UInt8).toNat := by
    split
    · show v / 4096 % 64 + 128 ≤ 143
      omega
    · exact (continuation_inRange (v / 4096)).2
  obtain ⟨hthird, hthird'⟩ := continuation_inRange (v / 64)
  obtain ⟨hlow, hhigh⟩ := continuation_inRange v
  have hbits : (((v / 262144 % 8 + 240 - 0xF0) * 64 + (v / 4096 % 64 + 128 - 0x80)) * 64 +
      (v / 64 % 64 + 128 - 0x80)) * 64 + (v % 64 + 128 - 0x80) = v := by omega
  rw [decodeFrom_begin (by omega) (by omega) (begin?_four (by omega) (by omega)),
    decodeFrom_next hsecond hsecond' (by decide), decodeFrom_next hthird hthird' (by decide),
    decodeFrom_last hlow hhigh, hbits]

/-- The bytes of a character are read as that character. -/
theorem decodeFrom_encodeChar (pos : Nat) (done : List Char) (c : Char) (bytes : List UInt8) :
    ∃ pos', decodeFrom pos done none (String.utf8EncodeChar c ++ bytes) =
      decodeFrom pos' (c :: done) none bytes := by
  have hvalid : c.val.toNat < 0xD800 ∨ 0xDFFF < c.val.toNat ∧ c.val.toNat < 0x110000 := c.valid
  have hchar : Char.ofNat c.val.toNat = c := Char.ofNat_toNat c
  unfold String.utf8EncodeChar
  generalize c.val.toNat = v at hvalid hchar
  subst hchar
  simp only
  split
  · next hone => exact ⟨pos + 1, decodeFrom_small (Nat.lt_succ_of_le hone)⟩
  next hone =>
  split
  · next htwo => exact ⟨pos + 2, decodeFrom_two (Nat.not_le.1 hone) htwo⟩
  next htwo =>
  split
  · next hthree =>
    have hrange : v < 0xD800 ∨ 0xDFFF < v ∧ v ≤ 0xFFFF := by omega
    exact ⟨pos + 3, decodeFrom_three (Nat.not_le.1 htwo) hrange⟩
  · next hthree =>
    have hlast : v < 0x110000 := by omega
    exact ⟨pos + 4, decodeFrom_four (Nat.not_le.1 hthree) hlast⟩

/-- What is encoded is decoded again. -/
theorem decode_encode (s : List Char) : decode (encode s) = .ok s := by
  have hgeneral : ∀ pos done, decodeFrom pos done none (encode s) = .ok (done.reverse ++ s) := by
    induction s with
    | nil => intro pos done; rw [List.append_nil]; rfl
    | cons c s ih =>
      intro pos done
      obtain ⟨pos', hpos'⟩ := decodeFrom_encodeChar pos done c (encode s)
      rw [encode, List.flatMap_cons]
      refine hpos'.trans ?_
      rw [ih, List.reverse_cons, List.append_assoc, List.singleton_append]
  exact hgeneral 0 []

/-! ### What is decoded was encoded -/

variable {s : List Char} {b : UInt8}

/-- The bytes of a character of which the number is known. -/
theorem encodeChar_ofNat (h : v.isValidChar) :
    String.utf8EncodeChar (Char.ofNat v) =
      if v ≤ 0x7F then [UInt8.ofNat v]
      else if v ≤ 0x7FF then [UInt8.ofNat (v / 64 % 32 + 192), UInt8.ofNat (v % 64 + 128)]
      else if v ≤ 0xFFFF then
        [UInt8.ofNat (v / 4096 % 16 + 224), UInt8.ofNat (v / 64 % 64 + 128),
          UInt8.ofNat (v % 64 + 128)]
      else
        [UInt8.ofNat (v / 262144 % 8 + 240), UInt8.ofNat (v / 4096 % 64 + 128),
          UInt8.ofNat (v / 64 % 64 + 128), UInt8.ofNat (v % 64 + 128)] := by
  have hval : (Char.ofNat v).val.toNat = v := by
    rw [Char.ofNat, dif_pos h]
    rfl
  unfold String.utf8EncodeChar
  simp only [hval]

theorem encodeChar_two {x : Nat} (hn : 0xC2 ≤ n) (hn' : n ≤ 0xDF) (hx : 0x80 ≤ x)
    (hx' : x ≤ 0xBF) :
    String.utf8EncodeChar (Char.ofNat ((n - 0xC0) * 64 + (x - 0x80))) =
      [UInt8.ofNat n, UInt8.ofNat x] := by
  generalize hv : (n - 0xC0) * 64 + (x - 0x80) = v
  have hfirst : v / 64 % 32 + 192 = n := by omega
  have hsecond : v % 64 + 128 = x := by omega
  rw [encodeChar_ofNat (.inl (by omega)), if_neg (by omega), if_pos (by omega), hfirst, hsecond]

/-- The second byte is not that of an overlong form nor that of a surrogate. -/
theorem encodeChar_three {x y : Nat} (hn : 0xE0 ≤ n) (hn' : n ≤ 0xEF)
    (hx : (if n = 0xE0 then 0xA0 else 0x80) ≤ x) (hx' : x ≤ if n = 0xED then 0x9F else 0xBF)
    (hy : 0x80 ≤ y) (hy' : y ≤ 0xBF) :
    String.utf8EncodeChar (Char.ofNat (((n - 0xE0) * 64 + (x - 0x80)) * 64 + (y - 0x80))) =
      [UInt8.ofNat n, UInt8.ofNat x, UInt8.ofNat y] := by
  generalize hv : ((n - 0xE0) * 64 + (x - 0x80)) * 64 + (y - 0x80) = v
  have hbounds : 0x80 ≤ x ∧ x ≤ 0xBF ∧ (n = 0xE0 → 0xA0 ≤ x) ∧ (n = 0xED → x ≤ 0x9F) := by
    split at hx <;> split at hx' <;> omega
  have hfirst : v / 4096 % 16 + 224 = n := by omega
  have hsecond : v / 64 % 64 + 128 = x := by omega
  have hthird : v % 64 + 128 = y := by omega
  have hvalid : v.isValidChar := by
    show v < 0xD800 ∨ 0xDFFF < v ∧ v < 0x110000
    omega
  rw [encodeChar_ofNat hvalid, if_neg (by omega), if_neg (by omega), if_pos (by omega), hfirst,
    hsecond, hthird]

/-- The second byte is not that of an overlong form nor beyond the last character. -/
theorem encodeChar_four {x y z : Nat} (hn : 0xF0 ≤ n) (hn' : n ≤ 0xF4)
    (hx : (if n = 0xF0 then 0x90 else 0x80) ≤ x) (hx' : x ≤ if n = 0xF4 then 0x8F else 0xBF)
    (hy : 0x80 ≤ y) (hy' : y ≤ 0xBF) (hz : 0x80 ≤ z) (hz' : z ≤ 0xBF) :
    String.utf8EncodeChar (Char.ofNat
        ((((n - 0xF0) * 64 + (x - 0x80)) * 64 + (y - 0x80)) * 64 + (z - 0x80))) =
      [UInt8.ofNat n, UInt8.ofNat x, UInt8.ofNat y, UInt8.ofNat z] := by
  generalize hv : (((n - 0xF0) * 64 + (x - 0x80)) * 64 + (y - 0x80)) * 64 + (z - 0x80) = v
  have hbounds : 0x80 ≤ x ∧ x ≤ 0xBF ∧ (n = 0xF0 → 0x90 ≤ x) ∧ (n = 0xF4 → x ≤ 0x8F) := by
    split at hx <;> split at hx' <;> omega
  have hfirst : v / 262144 % 8 + 240 = n := by omega
  have hsecond : v / 4096 % 64 + 128 = x := by omega
  have hthird : v / 64 % 64 + 128 = y := by omega
  have hfourth : v % 64 + 128 = z := by omega
  rw [encodeChar_ofNat (.inr (by omega)), if_neg (by omega), if_neg (by omega), if_neg (by omega),
    hfirst, hsecond, hthird, hfourth]

/-- A byte that no character begins with. -/
theorem begin?_none (h : 0x80 ≤ n) (h' : n < 0xC2 ∨ 0xF4 < n ∧ n < 256) :
    PartialChar.begin? (UInt8.ofNat n) = none := by
  rcases h' with h' | ⟨h', h''⟩ <;> interval_cases n <;> rfl

/-- Inside a character the bytes go on within the range. -/
theorem exists_of_decodeFrom_some
    (h : decodeFrom pos done (some ⟨bits, read, owed, low, high⟩) bytes = .ok s) :
    ∃ n rest, bytes = UInt8.ofNat n :: rest ∧ low.toNat ≤ n ∧ n ≤ high.toNat := by
  cases bytes with
  | nil => cases h
  | cons b rest =>
    rw [decodeFrom] at h
    split at h
    · next hrange =>
      rw [Bool.and_eq_true, decide_eq_true_eq, decide_eq_true_eq, UInt8.le_iff_toNat_le,
        UInt8.le_iff_toNat_le] at hrange
      exact ⟨b.toNat, rest, by rw [UInt8.ofNat_toNat], hrange⟩
    · cases h

theorem exists_of_decodeFrom_last
    (h : decodeFrom pos done (some ⟨bits, read, 1, low, high⟩) bytes = .ok s) :
    ∃ n rest, bytes = UInt8.ofNat n :: rest ∧ low.toNat ≤ n ∧ n ≤ high.toNat ∧
      decodeFrom (pos + read + 1) (Char.ofNat (bits * 64 + (n - 0x80)) :: done) none rest =
        .ok s := by
  obtain ⟨n, rest, rfl, hlow, hhigh⟩ := exists_of_decodeFrom_some h
  rw [decodeFrom_last hlow hhigh] at h
  exact ⟨n, rest, rfl, hlow, hhigh, h⟩

theorem exists_of_decodeFrom_next (howed : owed ≠ 1)
    (h : decodeFrom pos done (some ⟨bits, read, owed, low, high⟩) bytes = .ok s) :
    ∃ n rest, bytes = UInt8.ofNat n :: rest ∧ low.toNat ≤ n ∧ n ≤ high.toNat ∧
      decodeFrom pos done
        (some ⟨bits * 64 + (n - 0x80), read + 1, owed - 1, 0x80, 0xBF⟩) rest = .ok s := by
  obtain ⟨n, rest, rfl, hlow, hhigh⟩ := exists_of_decodeFrom_some h
  rw [decodeFrom_next hlow hhigh howed] at h
  exact ⟨n, rest, rfl, hlow, hhigh, h⟩

/-- Where decoding goes on with a character, its bytes stand in front. -/
theorem exists_char_of_decodeFrom (h : decodeFrom pos done none (b :: bytes) = .ok s) :
    ∃ c rest pos', b :: bytes = String.utf8EncodeChar c ++ rest ∧
      decodeFrom pos' (c :: done) none rest = .ok s := by
  obtain ⟨n, rfl, hn⟩ : ∃ n, b = UInt8.ofNat n ∧ n < 256 :=
    ⟨b.toNat, UInt8.ofNat_toNat.symm, b.toNat_lt⟩
  by_cases hone : n < 0x80
  · rw [decodeFrom_small hone] at h
    refine ⟨_, bytes, _, ?_, h⟩
    rw [encodeChar_ofNat (.inl (by omega)), if_pos (by omega), List.singleton_append]
  have hlarge : 0x80 ≤ n := Nat.not_lt.1 hone
  by_cases htwo : 0xC2 ≤ n ∧ n ≤ 0xDF
  · rw [decodeFrom_begin hlarge hn (begin?_two htwo.1 htwo.2)] at h
    obtain ⟨x, rest, rfl, hx, hx', h⟩ := exists_of_decodeFrom_last h
    refine ⟨_, rest, _, ?_, h⟩
    rw [encodeChar_two htwo.1 htwo.2 hx hx']
    rfl
  by_cases hthree : 0xE0 ≤ n ∧ n ≤ 0xEF
  · rw [decodeFrom_begin hlarge hn (begin?_three hthree.1 hthree.2)] at h
    obtain ⟨x, rest, rfl, hx, hx', h⟩ := exists_of_decodeFrom_next (by decide) h
    obtain ⟨y, rest, rfl, hy, hy', h⟩ := exists_of_decodeFrom_last h
    rw [apply_ite UInt8.toNat] at hx hx'
    refine ⟨_, rest, _, ?_, h⟩
    rw [encodeChar_three hthree.1 hthree.2 hx hx' hy hy']
    rfl
  by_cases hfour : 0xF0 ≤ n ∧ n ≤ 0xF4
  · rw [decodeFrom_begin hlarge hn (begin?_four hfour.1 hfour.2)] at h
    obtain ⟨x, rest, rfl, hx, hx', h⟩ := exists_of_decodeFrom_next (by decide) h
    obtain ⟨y, rest, rfl, hy, hy', h⟩ := exists_of_decodeFrom_next (by decide) h
    obtain ⟨z, rest, rfl, hz, hz', h⟩ := exists_of_decodeFrom_last h
    rw [apply_ite UInt8.toNat] at hx hx'
    refine ⟨_, rest, _, ?_, h⟩
    rw [encodeChar_four hfour.1 hfour.2 hx hx' hy hy' hz hz']
    rfl
  · have hnone : PartialChar.begin? (UInt8.ofNat n) = none := begin?_none hlarge (by omega)
    have hbyte : ¬ UInt8.ofNat n < 0x80 := by
      rw [UInt8.lt_iff_toNat_lt, toNat_byte hn]
      exact hone
    rw [decodeFrom, if_neg hbyte, hnone] at h
    cases h

theorem eq_encode_of_decodeFrom (h : decodeFrom pos done none bytes = .ok s) :
    ∃ t, s = done.reverse ++ t ∧ bytes = encode t := by
  induction hlength : bytes.length using Nat.strongRecOn generalizing pos done bytes with
  | ind n ih =>
    cases bytes with
    | nil =>
      cases h
      exact ⟨[], (List.append_nil _).symm, rfl⟩
    | cons b bytes =>
      obtain ⟨c, rest, pos', hbytes, h⟩ := exists_char_of_decodeFrom h
      have hlt : rest.length < n := by
        have hne := List.length_pos_iff.2 (String.utf8EncodeChar_ne_nil (c := c))
        rw [← hlength, hbytes, List.length_append]
        omega
      obtain ⟨t, rfl, rfl⟩ := ih _ hlt h rfl
      exact ⟨c :: t, by simp, hbytes⟩

/-- Some bytes are decoded exactly if they are those of a text, and then to that text. -/
theorem decodeText_eq_ok_iff {text : String} :
    decodeText bytes = .ok text ↔ bytes = bytesOf text := by
  constructor
  · intro h
    rw [decodeText] at h
    cases hdecode : decode bytes with
    | error e => rw [hdecode] at h; cases h
    | ok s =>
      rw [hdecode] at h
      cases h
      obtain ⟨t, rfl, hbytes⟩ := eq_encode_of_decodeFrom hdecode
      rw [hbytes, bytesOf, String.toList_ofList]
  · rintro rfl
    rw [decodeText, bytesOf, decode_encode]
    exact congrArg Except.ok String.ofList_toList

end SchemaPlan.Text
