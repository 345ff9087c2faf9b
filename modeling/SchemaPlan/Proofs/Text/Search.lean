import Mathlib.Data.List.DropRight
import Mathlib.Data.List.Infix
import SchemaPlan.NameScheme

/-!
# Beginnings, ends and ranges

A text begins with another one exactly if that is a prefix of its list of characters. In the order
of texts those that begin with a given one are neighbours, and the given one is the least of them
(`prefix_of_lt`, `not_lt_of_prefix`).
-/

namespace SchemaPlan

namespace Text

theorem startsWith_iff {p s : List Char} : startsWith p s ↔ p <+: s := by
  simp only [startsWith, Option.isSome_iff_exists, dropPrefix?_eq_some_iff]
  exact ⟨fun ⟨r, h⟩ => ⟨r, h.symm⟩, fun ⟨r, h⟩ => ⟨r, h.symm⟩⟩

theorem dropPrefix?_eq_none_iff {p s : List Char} : dropPrefix? p s = none ↔ ¬ p <+: s := by
  rw [← startsWith_iff, startsWith, Option.not_isSome_iff_eq_none]

theorem endsWith_iff {q s : List Char} : endsWith q s ↔ q <:+ s := by
  simp only [endsWith, Option.isSome_iff_exists, dropSuffix?_eq_some_iff]
  exact ⟨fun ⟨r, h⟩ => ⟨r, h.symm⟩, fun ⟨r, h⟩ => ⟨r, h.symm⟩⟩

/-! ### First occurrences -/

theorem cut?_append (needle rest : List Char) :
    cut? needle (needle ++ rest) = some ([], rest) := by
  cases h : needle ++ rest with
  | nil =>
    obtain ⟨rfl, rfl⟩ := List.append_eq_nil_iff.1 h
    rfl
  | cons c s => rw [cut?, ← h, dropPrefix?_append]

/-- What does not begin with the first character of `needle` is passed over. -/
theorem cut?_cons {d c : Char} (h : d ≠ c) (needle s : List Char) :
    cut? (d :: needle) (c :: s) =
      (cut? (d :: needle) s).map fun (before, after) => (c :: before, after) := by
  rw [cut?, dropPrefix?, if_neg h]

/-! ### Pieces -/

/-- What a text is split at is in none of the pieces. -/
theorem not_of_mem_splitOnP {α : Type*} {p : α → Bool} {s piece : List α}
    (h : piece ∈ s.splitOnP p) {c : α} (hc : c ∈ piece) : p c = false := by
  induction s generalizing piece with
  | nil =>
    rw [List.splitOnP_nil, List.mem_singleton] at h
    subst h
    cases hc
  | cons d s ih =>
    rw [List.splitOnP_cons_eq_if_modifyHead] at h
    cases hd : p d with
    | true =>
      rw [if_pos hd, List.mem_cons] at h
      rcases h with rfl | h
      · cases hc
      · exact ih h hc
    | false =>
      rw [hd, if_neg Bool.false_ne_true] at h
      cases hpieces : s.splitOnP p with
      | nil => exact absurd hpieces (List.splitOnP_ne_nil p s)
      | cons first rest =>
        rw [hpieces] at ih h
        rcases List.mem_cons.1 h with rfl | h
        · rcases List.mem_cons.1 hc with rfl | hc
          · exact hd
          · exact ih List.mem_cons_self hc
        · exact ih (List.mem_cons_of_mem _ h) hc

/-- What is in joined pieces is in one of them or in what stands between them. -/
theorem mem_of_mem_intercalate {c : Char} {between : List Char} {pieces : List (List Char)}
    (h : c ∈ between.intercalate pieces) : c ∈ between ∨ ∃ piece ∈ pieces, c ∈ piece := by
  induction pieces with
  | nil => cases h
  | cons piece pieces ih =>
    cases pieces with
    | nil => exact .inr ⟨piece, List.mem_cons_self, by simpa using h⟩
    | cons next pieces =>
      rw [List.intercalate_cons_cons, List.mem_append, List.mem_append] at h
      rcases h with (h | h) | h
      · exact .inr ⟨piece, List.mem_cons_self, h⟩
      · exact .inl h
      · exact (ih h).imp id fun ⟨s, hs, hc⟩ => ⟨s, List.mem_cons_of_mem piece hs, hc⟩

theorem mem_intercalate_of_mem {c : Char} {between piece : List Char} {pieces : List (List Char)}
    (hpiece : piece ∈ pieces) (hc : c ∈ piece) : c ∈ between.intercalate pieces := by
  induction pieces with
  | nil => cases hpiece
  | cons first pieces ih =>
    cases pieces with
    | nil =>
      rw [List.mem_singleton] at hpiece
      rwa [List.intercalate_singleton, ← hpiece]
    | cons next pieces =>
      rw [List.intercalate_cons_cons, List.mem_append, List.mem_append]
      rcases List.mem_cons.1 hpiece with rfl | hpiece
      · exact .inl (.inl hc)
      · exact .inr (ih hpiece)

/-- Induction on a list that takes away the part in front of the first element with a property. -/
@[elab_as_elim]
theorem splitOnP_induction {α : Type*} {p : α → Bool} {motive : List α → Prop}
    (last : ∀ part, (∀ c ∈ part, p c = false) → motive part)
    (more : ∀ part c rest, (∀ c ∈ part, p c = false) → p c = true →
      motive rest → motive (part ++ c :: rest))
    (s : List α) : motive s := by
  cases hfind : s.find? p with
  | none => exact last s fun c hc => Bool.eq_false_iff.2 (List.find?_eq_none.1 hfind c hc)
  | some c =>
    obtain ⟨hc, part, rest, rfl, hpart⟩ := List.find?_eq_some_iff_append.1 hfind
    refine more part c rest (fun d hd => ?_) hc (splitOnP_induction last more rest)
    simpa using hpart d hd
termination_by s.length

theorem mem_of_mem_splitOnP {α : Type*} {p : α → Bool} {s piece : List α}
    (h : piece ∈ s.splitOnP p) {c : α} (hc : c ∈ piece) : c ∈ s := by
  induction s using splitOnP_induction (p := p) with
  | last part hpart =>
    rw [List.splitOnP_eq_singleton hpart, List.mem_singleton] at h
    exact h ▸ hc
  | more part d rest hpart hd ih =>
    rw [List.splitOnP_append_cons_of_forall_mem hpart _ hd] at h
    rcases List.mem_cons.1 h with rfl | h
    · exact List.mem_append_left _ hc
    · exact List.mem_append_right _ (List.mem_cons_of_mem d (ih h))

/-! ### Ends that are taken off -/

/-- What is dropped from the right is behind the last character that stays. -/
theorem rdropWhile_append {p : Char → Bool} {c : Char} (hc : ¬ p c) (front s : List Char) :
    (front ++ c :: s).rdropWhile p = front ++ c :: s.rdropWhile p := by
  induction s using List.reverseRecOn with
  | nil => rw [List.rdropWhile_concat_neg p front c hc, List.rdropWhile_nil]
  | append_singleton s d ih =>
    have hcons : front ++ c :: (s ++ [d]) = (front ++ c :: s) ++ [d] := by simp
    rw [hcons, List.rdropWhile_concat, List.rdropWhile_concat, ih]
    split <;> simp

/-! ### Texts that begin alike -/

/-- No text comes before one that it begins with. -/
theorem not_lt_of_prefix {p s : List Char} (h : p <+: s) : ¬ s < p := by
  induction p generalizing s with
  | nil => exact List.not_lt_nil s
  | cons c p ih =>
    obtain ⟨r, rfl⟩ := h
    rw [List.cons_append, List.cons_lt_cons_iff]
    rintro (hlt | ⟨-, hlt⟩)
    · exact Char.lt_irrefl c hlt
    · exact ih (List.prefix_append p r) hlt

/-- What stands between a text and one that begins with it begins with it too. -/
theorem prefix_of_lt {p s t : List Char} (hs : ¬ s < p) (hst : s < t) (ht : p <+: t) : p <+: s := by
  induction p generalizing s t with
  | nil => exact List.nil_prefix
  | cons c p ih =>
    obtain ⟨r, rfl⟩ := ht
    cases s with
    | nil => exact absurd (List.nil_lt_cons c p) hs
    | cons d s =>
      rw [List.cons_lt_cons_iff, not_or] at hs
      rw [List.cons_append, List.cons_lt_cons_iff] at hst
      rcases hst with hlt | ⟨rfl, hlt⟩
      · exact absurd hlt hs.1
      · have hsp : ¬ s < p := fun h => hs.2 ⟨rfl, h⟩
        exact List.cons_prefix_cons.2 ⟨rfl, ih hsp hlt (List.prefix_append p r)⟩

end Text

/-! ### Names with affixes -/

/-- A name has two affixes if both are in it and do not overlap. -/
theorem hasAffixes_iff {front back name : String} :
    hasAffixes front back name ↔ ∃ mid, name.toList = front.toList ++ mid ++ back.toList := by
  unfold hasAffixes
  cases h : Text.dropPrefix? front.toList name.toList with
  | none =>
    refine ⟨fun hfalse => absurd hfalse Bool.false_ne_true, fun ⟨mid, hmid⟩ => ?_⟩
    rw [hmid, List.append_assoc, Text.dropPrefix?_append] at h
    cases h
  | some rest =>
    rw [Text.dropPrefix?_eq_some_iff] at h
    rw [h]
    simp only [Text.endsWith_iff, List.append_assoc, List.append_cancel_left_eq]
    exact ⟨fun ⟨mid, hmid⟩ => ⟨mid, hmid.symm⟩, fun ⟨mid, hmid⟩ => ⟨mid, hmid.symm⟩⟩

theorem hasAffixes_iff_eq_append {front back name : String} :
    hasAffixes front back name ↔ ∃ mid, name = front ++ mid ++ back := by
  rw [hasAffixes_iff]
  constructor
  · rintro ⟨mid, hmid⟩
    refine ⟨String.ofList mid, ?_⟩
    rw [← String.toList_inj, hmid, String.toList_append, String.toList_append,
      String.toList_ofList]
  · rintro ⟨mid, rfl⟩
    exact ⟨mid.toList, by rw [String.toList_append, String.toList_append]⟩

end SchemaPlan
