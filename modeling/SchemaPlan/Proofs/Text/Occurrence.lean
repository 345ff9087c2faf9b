import SchemaPlan.Proofs.Text.Search
import SchemaPlan.Text.Utf8

/-!
# First occurrences, in characters and in bytes

A text is cut at the first place where the needle stands in it (`cut?_eq_some_iff`). Whether a place
is the first one can be told from the text up to the end of the needle there
(`firstAt_append_iff`).

No byte that begins a character occurs within one. So where the bytes of a text stand in those of
another, they begin and end between two characters (`append_encode_append_eq_iff`), and looking for
bytes finds what looking for characters does (`firstAt_encode_iff`).
-/

namespace SchemaPlan.Text

section

variable {α : Type*} {needle s : List α} {n : ℕ}

/-- The first place where `needle` stands in a sequence. -/
structure FirstAt (needle s : List α) (n : ℕ) : Prop where
  here : needle <+: s.drop n
  not_before : ∀ m < n, ¬ needle <+: s.drop m

theorem firstAt_zero_iff : FirstAt needle s 0 ↔ needle <+: s :=
  ⟨fun h => h.here, fun h => ⟨h, fun m hm => absurd hm (Nat.not_lt_zero m)⟩⟩

/-- Nothing stands everywhere, and first at the beginning. -/
theorem firstAt_nil_iff : FirstAt [] s n ↔ n = 0 := by
  constructor
  · intro h
    by_contra hn
    exact h.not_before 0 (Nat.pos_of_ne_zero hn) List.nil_prefix
  · rintro rfl
    exact firstAt_zero_iff.2 List.nil_prefix

theorem firstAt_succ_iff {c : α} :
    FirstAt needle (c :: s) (n + 1) ↔ ¬ needle <+: c :: s ∧ FirstAt needle s n := by
  constructor
  · intro h
    exact ⟨h.not_before 0 n.succ_pos,
      ⟨h.here, fun m hm => h.not_before (m + 1) (Nat.succ_lt_succ hm)⟩⟩
  · rintro ⟨hstart, h⟩
    refine ⟨h.here, fun m hm => ?_⟩
    cases m with
    | zero => exact hstart
    | succ m => exact h.not_before m (Nat.lt_of_succ_lt_succ hm)

theorem FirstAt.exists_eq_append (h : FirstAt needle s n) :
    ∃ before after, s = before ++ needle ++ after ∧ n = before.length := by
  have hle : n ≤ s.length := by
    by_contra hlt
    refine h.not_before s.length (Nat.not_le.1 hlt) ?_
    rw [List.drop_length, ← List.drop_eq_nil_of_le (Nat.le_of_not_le hlt)]
    exact h.here
  obtain ⟨after, hafter⟩ := h.here
  refine ⟨s.take n, after, ?_, (List.length_take_of_le hle).symm⟩
  rw [List.append_assoc, hafter, List.take_append_drop]

/-- The first occurrence is the one with the least before it. -/
theorem firstAt_length_iff {before after : List α} :
    FirstAt needle (before ++ needle ++ after) before.length ↔
      ∀ before' after', before ++ needle ++ after = before' ++ needle ++ after' →
        before.length ≤ before'.length := by
  constructor
  · intro h before' after' hs
    by_contra hlt
    refine h.not_before before'.length (Nat.not_le.1 hlt) ?_
    rw [hs, List.append_assoc, List.drop_left]
    exact List.prefix_append needle after'
  · intro h
    refine ⟨?_, fun m hm ⟨after', hafter'⟩ => ?_⟩
    · rw [List.append_assoc, List.drop_left]
      exact List.prefix_append needle after
    · have hle := h ((before ++ needle ++ after).take m) after' (by
        rw [List.append_assoc _ needle after', hafter', List.take_append_drop])
      rw [List.length_take] at hle
      omega

/-- What comes after the needle does not matter. -/
theorem firstAt_append_iff {before needle after : List α} :
    FirstAt needle (before ++ needle ++ after) before.length ↔
      FirstAt needle (before ++ needle) before.length := by
  induction before with
  | nil => simp only [List.nil_append, List.length_nil, firstAt_zero_iff, List.prefix_append,
      List.prefix_rfl]
  | cons c before ih =>
    have hlength : needle.length ≤ (c :: before ++ needle).length := by
      rw [List.length_append]
      omega
    have hstart : needle <+: c :: before ++ needle ++ after ↔ needle <+: c :: before ++ needle :=
      List.isPrefix_append_of_length hlength
    simp only [List.cons_append, List.length_cons, firstAt_succ_iff, ih] at hstart ⊢
    rw [hstart]

end

/-- A text is cut where the needle stands first. -/
theorem cut?_eq_some_iff {needle s before after : List Char} :
    cut? needle s = some (before, after) ↔
      s = before ++ needle ++ after ∧ FirstAt needle s before.length := by
  induction s generalizing before with
  | nil =>
    rw [cut?, List.nil_eq, List.append_eq_nil_iff, List.append_eq_nil_iff]
    constructor
    · intro h
      split at h
      · next hneedle =>
        cases h
        exact ⟨⟨⟨rfl, hneedle⟩, rfl⟩, firstAt_zero_iff.2 (hneedle ▸ List.nil_prefix)⟩
      · cases h
    · rintro ⟨⟨⟨rfl, rfl⟩, rfl⟩, -⟩
      rfl
  | cons c s ih =>
    rw [cut?]
    cases hstart : dropPrefix? needle (c :: s) with
    | some rest =>
      have hneedle := dropPrefix?_eq_some_iff.1 hstart
      constructor
      · intro h
        cases h
        exact ⟨hneedle, firstAt_zero_iff.2 ⟨_, hneedle.symm⟩⟩
      · rintro ⟨hs, hfirst⟩
        cases before with
        | nil =>
          rw [hs, List.nil_append, List.append_cancel_left_eq] at hneedle
          rw [hneedle]
        | cons d before => exact absurd ⟨_, hneedle.symm⟩ (firstAt_succ_iff.1 hfirst).1
    | none =>
      have hneedle := dropPrefix?_eq_none_iff.1 hstart
      constructor
      · intro h
        obtain ⟨⟨before', after'⟩, hcut, hpair⟩ := Option.map_eq_some_iff.1 h
        cases hpair
        obtain ⟨hs, hfirst⟩ := ih.1 hcut
        exact ⟨congrArg (c :: ·) hs, firstAt_succ_iff.2 ⟨hneedle, hfirst⟩⟩
      · rintro ⟨hs, hfirst⟩
        cases before with
        | nil => exact absurd (firstAt_zero_iff.1 hfirst) hneedle
        | cons d before =>
          obtain ⟨rfl, htail⟩ := List.cons.inj hs
          have hcut := ih.2 ⟨htail, (firstAt_succ_iff.1 hfirst).2⟩
          exact Option.map_eq_some_iff.2 ⟨_, hcut, rfl⟩

/-! ### Bytes -/

@[simp] theorem encode_nil : encode [] = [] := rfl

@[simp] theorem encode_append (s t : List Char) : encode (s ++ t) = encode s ++ encode t :=
  List.flatMap_append

theorem encode_cons (c : Char) (s : List Char) :
    encode (c :: s) = String.utf8EncodeChar c ++ encode s :=
  List.flatMap_cons

theorem encode_eq_nil_iff {s : List Char} : encode s = [] ↔ s = [] := by
  cases s with
  | nil => exact ⟨fun _ => rfl, fun _ => rfl⟩
  | cons c s => simp [encode_cons, String.utf8EncodeChar_ne_nil]

/-- Bytes are a character and the rest of them in one way only. -/
theorem encodeChar_append_inj {c d : Char} {x y : List UInt8}
    (h : String.utf8EncodeChar c ++ x = String.utf8EncodeChar d ++ y) : c = d ∧ x = y := by
  have hchar : some c = some d := by
    rw [← ByteArray.utf8DecodeChar?_utf8EncodeChar_append (b := x.toByteArray),
      ← ByteArray.utf8DecodeChar?_utf8EncodeChar_append (b := y.toByteArray),
      ← List.toByteArray_append, ← List.toByteArray_append, h]
  cases hchar
  exact ⟨rfl, List.append_cancel_left h⟩

/-- What follows the bytes of a text within those of another are the bytes of what follows it. -/
theorem append_eq_encode_iff {p s : List Char} {bytes : List UInt8} :
    encode p ++ bytes = encode s ↔ ∃ rest, s = p ++ rest ∧ bytes = encode rest := by
  constructor
  · intro h
    induction p generalizing s with
    | nil => exact ⟨s, rfl, h⟩
    | cons c p ih =>
      rw [encode_cons, List.append_assoc] at h
      cases s with
      | nil => exact absurd (List.append_eq_nil_iff.1 h).1 String.utf8EncodeChar_ne_nil
      | cons d s =>
        rw [encode_cons] at h
        obtain ⟨rfl, htail⟩ := encodeChar_append_inj h
        obtain ⟨rest, rfl, hbytes⟩ := ih htail
        exact ⟨rest, rfl, hbytes⟩
  · rintro ⟨rest, rfl, rfl⟩
    exact (encode_append p rest).symm

/-- A byte that can begin a character stands behind whole characters. -/
theorem exists_of_encode_eq {s : List Char} {front back : List UInt8} {b : UInt8}
    (hb : b.IsUTF8FirstByte) (h : encode s = front ++ b :: back) :
    ∃ before rest, s = before ++ rest ∧ front = encode before := by
  induction s generalizing front with
  | nil => exact absurd h.symm (List.append_ne_nil_of_right_ne_nil front (List.cons_ne_nil b back))
  | cons c s ih =>
    rw [encode_cons] at h
    rcases List.append_eq_append_iff.1 h with ⟨front', rfl, hs⟩ | ⟨within, hc, hback⟩
    · obtain ⟨before, rest, rfl, rfl⟩ := ih hs
      exact ⟨c :: before, rest, rfl, (encode_cons c before).symm⟩
    · cases within with
      | nil =>
        refine ⟨[c], s, rfl, ?_⟩
        rw [encode_cons, hc, List.append_nil, encode_nil, List.append_nil]
      | cons b' within =>
        obtain ⟨rfl, -⟩ := List.cons.inj hback
        -- the byte belongs to the character, so it is the first one of it
        have hlt : front.length < (String.utf8EncodeChar c).length := by simp [hc]
        have hget : (String.utf8EncodeChar c)[front.length] = b := by simp [hc]
        rw [← hget, UInt8.isUTF8FirstByte_getElem_utf8EncodeChar, List.length_eq_zero_iff] at hb
        exact ⟨[], c :: s, rfl, hb⟩

theorem exists_cons_eq_encode {p : List Char} (hp : p ≠ []) :
    ∃ b bytes, encode p = b :: bytes ∧ b.IsUTF8FirstByte := by
  cases p with
  | nil => exact absurd rfl hp
  | cons c p =>
    cases hc : String.utf8EncodeChar c with
    | nil => exact absurd hc String.utf8EncodeChar_ne_nil
    | cons b bytes =>
      have hpos : 0 < (String.utf8EncodeChar c).length := by simp [hc]
      have hget : (String.utf8EncodeChar c)[0] = b := by simp [hc]
      refine ⟨b, bytes ++ encode p, by rw [encode_cons, hc, List.cons_append], ?_⟩
      rw [← hget, UInt8.isUTF8FirstByte_getElem_utf8EncodeChar]

/-- The bytes of a text within those of another begin and end between two characters. -/
theorem append_encode_append_eq_iff {p s : List Char} (hp : p ≠ []) {front back : List UInt8} :
    front ++ encode p ++ back = encode s ↔
      ∃ before after, s = before ++ p ++ after ∧ front = encode before ∧ back = encode after := by
  constructor
  · intro h
    obtain ⟨b, bytes, hbytes, hb⟩ := exists_cons_eq_encode hp
    have hfront : encode s = front ++ b :: (bytes ++ back) := by
      rw [← h, hbytes, List.append_assoc, List.cons_append]
    obtain ⟨before, rest, rfl, rfl⟩ := exists_of_encode_eq hb hfront
    rw [encode_append, List.append_assoc, List.append_cancel_left_eq] at h
    obtain ⟨after, rfl, rfl⟩ := append_eq_encode_iff.1 h
    exact ⟨before, after, (List.append_assoc before p after).symm, rfl, rfl⟩
  · rintro ⟨before, after, rfl, rfl, rfl⟩
    rw [encode_append, encode_append]

/-- What precedes the bytes of a text at the end of those of another are the bytes of what precedes
it. -/
theorem append_encode_eq_iff {q s : List Char} {bytes : List UInt8} :
    bytes ++ encode q = encode s ↔ ∃ rest, s = rest ++ q ∧ bytes = encode rest := by
  constructor
  · intro h
    by_cases hq : q = []
    · subst hq
      rw [encode_nil, List.append_nil] at h
      exact ⟨s, (List.append_nil s).symm, h⟩
    · rw [← List.append_nil (bytes ++ encode q), append_encode_append_eq_iff hq] at h
      obtain ⟨rest, after, rfl, rfl, hafter⟩ := h
      rw [encode_eq_nil_iff.1 hafter.symm, List.append_nil]
      exact ⟨rest, rfl, rfl⟩
  · rintro ⟨rest, rfl, rfl⟩
    exact (encode_append rest q).symm

/-- Of two occurrences the one with fewer characters before it has fewer bytes before it. -/
theorem length_encode_le_iff {needle before after before' after' : List Char}
    (h : before ++ needle ++ after = before' ++ needle ++ after') :
    (encode before).length ≤ (encode before').length ↔ before.length ≤ before'.length := by
  have hprefix : before <+: before ++ needle ++ after :=
    List.prefix_append_of_prefix (List.prefix_append before needle)
  have hprefix' : before' <+: before ++ needle ++ after :=
    h ▸ List.prefix_append_of_prefix (List.prefix_append before' needle)
  rcases List.prefix_or_prefix_of_prefix hprefix hprefix' with ⟨r, rfl⟩ | ⟨r, rfl⟩
  · simp only [encode_append, List.length_append, Nat.le_add_right]
  · have hnone : (encode r).length = 0 ↔ r.length = 0 := by
      rw [List.length_eq_zero_iff, List.length_eq_zero_iff, encode_eq_nil_iff]
    rw [encode_append, List.length_append, List.length_append]
    omega

/-- The first occurrence among bytes is that among characters. -/
theorem firstAt_encode_iff {needle s : List Char} {n : ℕ} :
    FirstAt (encode needle) (encode s) n ↔
      ∃ before after, cut? needle s = some (before, after) ∧ n = (encode before).length := by
  by_cases hneedle : needle = []
  · subst hneedle
    simp only [cut?_eq_some_iff, encode_nil, firstAt_nil_iff, List.length_eq_zero_iff]
    constructor
    · rintro rfl
      exact ⟨[], s, ⟨rfl, rfl⟩, rfl⟩
    · rintro ⟨_, after, ⟨-, rfl⟩, rfl⟩
      rfl
  constructor
  · intro h
    obtain ⟨front, back, hbytes, rfl⟩ := h.exists_eq_append
    obtain ⟨before, after, rfl, rfl, rfl⟩ :=
      (append_encode_append_eq_iff hneedle).1 hbytes.symm
    rw [hbytes, firstAt_length_iff] at h
    refine ⟨before, after, cut?_eq_some_iff.2 ⟨rfl, firstAt_length_iff.2 ?_⟩, rfl⟩
    intro before' after' hs
    have hle := h (encode before') (encode after') (by
      rw [← encode_append, ← encode_append, hs, encode_append, encode_append])
    exact (length_encode_le_iff hs).1 hle
  · rintro ⟨before, after, hcut, rfl⟩
    obtain ⟨rfl, hfirst⟩ := cut?_eq_some_iff.1 hcut
    rw [firstAt_length_iff] at hfirst
    rw [encode_append, encode_append, firstAt_length_iff]
    intro front back hbytes
    rw [← encode_append, ← encode_append] at hbytes
    obtain ⟨before', after', hs, rfl, rfl⟩ :=
      (append_encode_append_eq_iff hneedle).1 hbytes.symm
    exact (length_encode_le_iff hs).2 (hfirst before' after' hs)

end SchemaPlan.Text
