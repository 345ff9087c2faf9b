import Mathlib.Data.List.Basic
import SchemaPlan.Distinct

/-!
# What is kept as the first of its kind

`Distinct.firsts` keeps the first element of a list and then goes on with those that are no copies
of it (`firsts_cons`), so what is true of it is shown by an induction that takes away an element
together with its copies (`induction`). Where the test is an equivalence, an element is kept exactly
if it is the first one of the list that equals it (`mem_firsts_iff`), each class keeps one element,
and keeping the firsts can be exchanged with selecting whole classes (`filter_firsts`).
-/

namespace SchemaPlan.Distinct

variable {α : Type}

/-- Elements that equal one of `seen` can be dropped beforehand. -/
theorem firstsAfter_append (same : α → α → Bool) (seen more as : List α) :
    firstsAfter same (seen ++ more) as =
      firstsAfter same more (as.filter fun b => !seen.any (same · b)) := by
  induction as generalizing more with
  | nil => rfl
  | cons a as ih =>
    by_cases hs : seen.any (same · a) = true
    · simp only [firstsAfter, List.any_append, hs, Bool.true_or, if_true, List.filter_cons,
        Bool.not_true, Bool.false_eq_true, if_false]
      exact ih more
    · rw [Bool.not_eq_true] at hs
      simp only [firstsAfter, List.any_append, hs, Bool.false_or, List.filter_cons, Bool.not_false,
        if_true, List.append_assoc]
      rw [ih more, ih (more ++ [a])]

@[simp] theorem firsts_nil (same : α → α → Bool) : firsts same [] = [] := rfl

/-- The first element is kept, and of the others those that are no copies of it count. -/
theorem firsts_cons (same : α → α → Bool) (a : α) (as : List α) :
    firsts same (a :: as) = a :: firsts same (as.filter fun b => !same a b) := by
  have h := firstsAfter_append same [a] [] as
  simp only [List.append_nil, List.any_cons, List.any_nil, Bool.or_false] at h
  exact congrArg (a :: ·) h

/-- Induction on a list that takes away the first element and its copies. -/
@[elab_as_elim]
theorem induction (same : α → α → Bool) {motive : List α → Prop} (nil : motive [])
    (cons : ∀ a as, motive (as.filter fun b => !same a b) → motive (a :: as)) (as : List α) :
    motive as :=
  match as with
  | [] => nil
  | a :: as => cons a as (induction same nil cons (as.filter fun b => !same a b))
termination_by as.length
decreasing_by exact Nat.lt_succ_of_le (List.length_filter_le _ as)

/-- No two kept elements are equal. -/
theorem pairwise_firsts (same : α → α → Bool) (as : List α) :
    (firsts same as).Pairwise fun a b => same a b = false := by
  induction as using induction same with
  | nil => exact .nil
  | cons a as ih =>
    rw [firsts_cons, List.pairwise_cons]
    refine ⟨fun b hb => ?_, ih⟩
    have hb := (firsts_sublist same _).subset hb
    simpa using (List.mem_filter.1 hb).2

/-- The first two kept elements are the first of all, and the first that is no copy of it. -/
theorem head?_of_firsts_eq {same : α → α → Bool} {a b : α} {rest as : List α}
    (h : firsts same as = a :: b :: rest) (ha : same a a = true) :
    as.head? = some a ∧ (as.filter fun x => !same a x).head? = some b := by
  cases as with
  | nil => cases h
  | cons x as =>
    rw [firsts_cons] at h
    obtain ⟨rfl, hrest⟩ := List.cons.inj h
    rw [List.filter_cons_of_neg (by simp [ha])]
    cases hothers : as.filter fun y => !same x y with
    | nil => rw [hothers] at hrest; cases hrest
    | cons y others =>
      rw [hothers, firsts_cons] at hrest
      rw [(List.cons.inj hrest).1]
      exact ⟨rfl, rfl⟩

/-- What stands in the list already adds nothing when it comes again. -/
theorem firsts_append_of_subset {same : α → α → Bool} (hrefl : ∀ a, same a a = true)
    {as bs : List α} (h : bs ⊆ as) : firsts same (as ++ bs) = firsts same as := by
  induction as using induction same generalizing bs with
  | nil => rw [List.eq_nil_of_subset_nil h]; rfl
  | cons a as ih =>
    rw [List.cons_append, firsts_cons, firsts_cons, List.filter_append, ih]
    intro b hb
    obtain ⟨hb, hne⟩ := List.mem_filter.1 hb
    rcases List.mem_cons.1 (h hb) with rfl | hb
    · simp [hrefl] at hne
    · exact List.mem_filter.2 ⟨hb, hne⟩

/-- Whole classes may be selected before or after the firsts are kept. -/
theorem filter_firsts {same : α → α → Bool} {p : α → Bool}
    (hp : ∀ a b, same a b = true → p a = p b) (as : List α) :
    (firsts same as).filter p = firsts same (as.filter p) := by
  induction as using induction same with
  | nil => rfl
  | cons a as ih =>
    rw [firsts_cons, List.filter_cons, List.filter_cons, ih, List.filter_filter]
    by_cases ha : p a = true
    · rw [if_pos ha, if_pos ha, firsts_cons, List.filter_filter]
      simp only [Bool.and_comm]
    · have hkept : (as.filter fun b => p b && !same a b) = as.filter p := by
        refine List.filter_congr fun b _ => ?_
        by_cases hb : same a b = true
        · simp [hb, ← hp a b hb, ha]
        · simp [hb]
      rw [if_neg ha, if_neg ha, hkept]

/-- Elements may be changed before or after the firsts are kept, if equality does not see it. -/
theorem firsts_map {β : Type} {same : α → α → Bool} {same' : β → β → Bool} {f : α → β}
    (h : ∀ a b, same' (f a) (f b) = same a b) (as : List α) :
    firsts same' (as.map f) = (firsts same as).map f := by
  induction as using induction same with
  | nil => rfl
  | cons a as ih =>
    rw [List.map_cons, firsts_cons, firsts_cons, List.map_cons, List.filter_map, ← ih]
    simp only [Function.comp_def, h]

section Equivalence

variable {same : α → α → Bool} (equivalence : Equivalence fun a b => same a b = true)

include equivalence

/-- An element is kept exactly if it is the first one that equals it. -/
theorem mem_firsts_iff {m : α} {as : List α} : m ∈ firsts same as ↔ as.find? (same m) = some m := by
  induction as using induction same with
  | nil => simp
  | cons a as ih =>
    rw [firsts_cons, List.mem_cons, ih, List.find?_filter, List.find?_cons]
    by_cases h : same m a = true
    · -- whatever equals `m` is a copy of `a`, and `m` itself is one
      rw [h]
      simp only [Option.some.injEq]
      constructor
      · rintro (rfl | hm)
        · rfl
        · have hm := List.find?_some hm
          simp [equivalence.symm h] at hm
      · exact fun hm => .inl hm.symm
    · have hfind : (fun b => decide ((!same a b) = true ∧ same m b = true)) = same m := by
        funext b
        by_cases hb : same m b = true
        · have hab : same a b ≠ true := fun hab => h (equivalence.trans hb (equivalence.symm hab))
          simp [hb, hab]
        · simp [hb]
      rw [Bool.not_eq_true] at h
      rw [hfind, h]
      refine or_iff_right_of_imp ?_
      rintro rfl
      exact absurd (equivalence.refl m) (by simp [h])

/-- Every element equals one that is kept. -/
theorem exists_mem_firsts {a : α} {as : List α} (h : a ∈ as) :
    ∃ m ∈ firsts same as, same m a = true := by
  rcases exists_firstsAfter same [] as h with ⟨s, hs, -⟩ | hm | hm
  · cases hs
  · exact ⟨a, hm, equivalence.refl a⟩
  · exact hm

/-- With an element of the list all that equal it can be taken away, and one kept element with them.
-/
theorem length_firsts_of_mem {a : α} {as : List α} (h : a ∈ as) :
    (firsts same as).length = (firsts same (as.filter fun b => !same a b)).length + 1 := by
  have hclass : ∀ b c, same b c = true → same a b = same a c := fun b c hbc =>
    Bool.eq_iff_iff.2 ⟨fun hab => equivalence.trans hab hbc,
      fun hac => equivalence.trans hac (equivalence.symm hbc)⟩
  have hone : ((firsts same as).filter (same a)).length = 1 := by
    rw [filter_firsts hclass]
    cases hcopies : as.filter (same a) with
    | nil => exact absurd (equivalence.refl a) (List.filter_eq_nil_iff.1 hcopies a h)
    | cons b bs =>
      have hcopy : ∀ c ∈ b :: bs, same a c = true := fun c hc =>
        (List.mem_filter.1 (hcopies ▸ hc)).2
      have hnone : bs.filter (fun c => !same b c) = [] :=
        List.filter_eq_nil_iff.2 fun c hc => by
          simp [equivalence.trans (equivalence.symm (hcopy b List.mem_cons_self))
            (hcopy c (List.mem_cons_of_mem b hc))]
      rw [firsts_cons, hnone]
      rfl
  rw [← filter_firsts fun b c hbc => congrArg not (hclass b c hbc),
    List.length_eq_length_filter_add (same a), hone, Nat.add_comm]

/-- How many elements are kept does not depend on the order. -/
theorem length_firsts_of_perm {as bs : List α} (h : as.Perm bs) :
    (firsts same as).length = (firsts same bs).length := by
  induction as using induction same generalizing bs with
  | nil => rw [h.nil_eq]
  | cons a as ih =>
    have hrest := h.filter fun b => !same a b
    rw [List.filter_cons_of_neg (by simp [equivalence.refl a])] at hrest
    rw [firsts_cons, List.length_cons, ih hrest,
      length_firsts_of_mem equivalence (h.subset List.mem_cons_self)]

end Equivalence

/-! ### Looking up by hash -/

/-- `finds` is a test by which a hash table tells whether it holds an element: it finds equal
elements only, and it does find an equal element that has the same key to be hashed by. Whether it
finds one with another key depends on the hash function. -/
structure FindsByHash {β : Type} (key : α → β) (same finds : α → α → Bool) : Prop where
  sound {a b : α} : finds a b → same a b
  complete {a b : α} : key a = key b → same a b → finds a b

/-- Comparing hashes before elements is such a test, whatever the hash function is. -/
theorem findsByHash_of_hash {β : Type} (key : α → β) (same : α → α → Bool) (hash : β → UInt64) :
    FindsByHash key same fun a b => hash (key a) == hash (key b) && same a b where
  sound h := (Bool.and_eq_true_iff.1 h).2
  complete hkey hsame := by rw [hkey, beq_self_eq_true, hsame, Bool.and_self]

/-- Where equal elements have the same key, a hash table keeps the first of each class. -/
theorem FindsByHash.firsts_eq {β : Type} {key : α → β} {same finds : α → α → Bool}
    (h : FindsByHash key same finds) (hkey : ∀ a b, same a b → key a = key b) (as : List α) :
    firsts finds as = firsts same as := by
  have hfinds : finds = same := by
    funext a b
    exact Bool.eq_iff_iff.2 ⟨h.sound, fun hsame => h.complete (hkey a b hsame) hsame⟩
  rw [hfinds]

end SchemaPlan.Distinct
