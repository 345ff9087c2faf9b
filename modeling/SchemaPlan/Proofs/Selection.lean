import Mathlib.Data.List.Perm.Basic

/-!
# Selecting from a list in parts

Two selections from one list that have nothing in common are, one after the other, the selection of
all that one of them takes, up to the order (`filter_append_filter_perm`). What is related element by
element to one list is related to each rearrangement of it, once it is rearranged too
(`exists_perm_of_forall₂`). Elements that a selection leaves out may be put in anywhere without
changing it (`Interspersed.filter_eq`).
-/

namespace SchemaPlan.Selection

variable {α β : Type}

/-- Two selections with nothing in common are the selection of what one of them takes. -/
theorem filter_append_filter_perm {p q : α → Bool} {xs : List α}
    (h : ∀ x ∈ xs, ¬ (p x = true ∧ q x = true)) :
    (xs.filter p ++ xs.filter q).Perm (xs.filter fun x => p x || q x) := by
  have hp : (xs.filter fun x => p x || q x).filter p = xs.filter p := by
    rw [List.filter_filter]
    refine List.filter_congr fun x _ => ?_
    cases p x <;> rfl
  have hq : (xs.filter fun x => p x || q x).filter (fun x => !p x) = xs.filter q := by
    rw [List.filter_filter]
    refine List.filter_congr fun x hx => ?_
    cases hpx : p x with
    | false => rfl
    | true =>
      have hqx : q x = false := Bool.eq_false_iff.2 fun hqx => h x hx ⟨hpx, hqx⟩
      rw [hqx]
      rfl
  rw [← hp, ← hq]
  exact List.filter_append_perm p _

/-- What is related to a list is related to a rearrangement of it, in another order. -/
theorem exists_perm_of_forall₂ {R : α → β → Prop} {xs xs' : List α} {ys : List β}
    (h : List.Forall₂ R xs ys) (hperm : xs.Perm xs') :
    ∃ ys', List.Forall₂ R xs' ys' ∧ ys.Perm ys' := by
  obtain ⟨ys', hys', hperm'⟩ := List.perm_comp_forall₂ hperm.symm h
  exact ⟨ys', hys', hperm'.symm⟩

/-- A list becomes another one when marked elements are put in, anywhere and as many as there are. -/
inductive Interspersed (marked : α → Bool) : List α → List α → Prop where
  /-- Nothing is put into nothing. -/
  | nil : Interspersed marked [] []
  /-- An element stays. -/
  | kept {xs ys : List α} (x : α) : Interspersed marked xs ys →
    Interspersed marked (x :: xs) (x :: ys)
  /-- A marked element is put in. -/
  | put {xs ys : List α} {y : α} : marked y = true → Interspersed marked xs ys →
    Interspersed marked xs (y :: ys)

/-- A selection that takes no marked elements does not see that some are put in. -/
theorem Interspersed.filter_eq {marked p : α → Bool} {xs ys : List α}
    (h : Interspersed marked xs ys) (hp : ∀ y, marked y = true → p y = false) :
    ys.filter p = xs.filter p := by
  induction h with
  | nil => rfl
  | kept x _ ih => rw [List.filter_cons, List.filter_cons, ih]
  | put hy _ ih => rw [List.filter_cons_of_neg (by simp [hp _ hy]), ih]

end SchemaPlan.Selection
