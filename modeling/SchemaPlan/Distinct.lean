/-!
# First of its kind

Keeping the first of each class of equal elements in a list, in order of appearance, and pairing
each later copy with the one that was kept. Equality is given as a test, so that elements may
differ in parts that do not count.
-/

namespace SchemaPlan.Distinct

variable {α : Type}

/-- The elements of a list that equal none of `seen` and none before them. -/
def firstsAfter (same : α → α → Bool) (seen : List α) : List α → List α
  | [] => []
  | a :: as =>
    if seen.any (same · a) then firstsAfter same seen as
    else a :: firstsAfter same (seen ++ [a]) as

/-- The first element of each class, in order of appearance. -/
def firsts (same : α → α → Bool) (as : List α) : List α := firstsAfter same [] as

/-- The elements of a list that equal one of `seen` or one before them, each after the one it
equals. -/
def copiesAfter (same : α → α → Bool) (seen : List α) : List α → List (α × α)
  | [] => []
  | a :: as =>
    match seen.find? (same · a) with
    | some first => (first, a) :: copiesAfter same seen as
    | none => copiesAfter same (seen ++ [a]) as

/-- The elements that are not the first of their class, each after the first one. -/
def copies (same : α → α → Bool) (as : List α) : List (α × α) := copiesAfter same [] as

theorem firstsAfter_sublist (same : α → α → Bool) (seen as : List α) :
    (firstsAfter same seen as).Sublist as := by
  induction as generalizing seen with
  | nil => exact .slnil
  | cons a as ih =>
    simp only [firstsAfter]
    split
    · exact (ih seen).cons a
    · exact (ih (seen ++ [a])).cons_cons a

/-- Only elements of the list are kept, in their order. -/
theorem firsts_sublist (same : α → α → Bool) (as : List α) : (firsts same as).Sublist as :=
  firstsAfter_sublist same [] as

/-- Every element is kept or equals one that was seen before. -/
theorem exists_firstsAfter (same : α → α → Bool) (seen as : List α) {a : α} (h : a ∈ as) :
    (∃ s ∈ seen, same s a = true) ∨ a ∈ firstsAfter same seen as ∨
      ∃ s ∈ firstsAfter same seen as, same s a = true := by
  induction as generalizing seen with
  | nil => cases h
  | cons b as ih =>
    simp only [firstsAfter]
    split
    · next hb =>
      rcases List.mem_cons.1 h with rfl | h
      · exact .inl (by simpa using hb)
      · exact ih seen h
    · next hb =>
      rcases List.mem_cons.1 h with rfl | h
      · exact .inr (.inl List.mem_cons_self)
      · rcases ih (seen ++ [b]) h with ⟨s, hs, e⟩ | h | ⟨s, hs, e⟩
        · rcases List.mem_append.1 hs with hs | hs
          · exact .inl ⟨s, hs, e⟩
          · rw [List.mem_singleton] at hs
            subst hs
            exact .inr (.inr ⟨s, List.mem_cons_self, e⟩)
        · exact .inr (.inl (List.mem_cons_of_mem _ h))
        · exact .inr (.inr ⟨s, List.mem_cons_of_mem _ hs, e⟩)

end SchemaPlan.Distinct
