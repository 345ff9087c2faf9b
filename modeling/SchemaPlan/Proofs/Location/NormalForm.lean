import Mathlib.Data.List.Sort
import SchemaPlan.Proofs.Location.Coverage

/-!
# The normal form of some locations

Normalising leaves the roots among some locations, in the order in which they appear first. They are
the only locations that do so, lie not inside one another, and hold all the others (`NormalForm`):
a location inside another one lies, step by step outwards, inside one that is kept, whichever of the
steps between are kept themselves. So normalising again changes nothing, only the set of locations
counts for the set of roots, and a location inside another one may be put in anywhere.
-/

namespace SchemaPlan

namespace Distinct

variable {α : Type} [DecidableEq α] {a b : α}

/-- Selecting elements keeps which one of two appears first. -/
theorem idxOf_lt_of_filter {p : α → Bool} (ha : p a) (hb : p b) {as : List α}
    (h : (as.filter p).idxOf a < (as.filter p).idxOf b) : as.idxOf a < as.idxOf b := by
  induction as with
  | nil => exact h
  | cons x as ih =>
    by_cases hx : p x = true
    · rw [List.filter_cons_of_pos hx] at h
      by_cases hbx : x = b
      · subst hbx
        rw [List.idxOf_cons_self] at h
        exact absurd h (Nat.not_lt_zero _)
      by_cases hax : x = a
      · subst hax
        rw [List.idxOf_cons_self, List.idxOf_cons_ne _ hbx]
        exact Nat.succ_pos _
      · rw [List.idxOf_cons_ne _ hax, List.idxOf_cons_ne _ hbx] at h ⊢
        exact Nat.succ_lt_succ (ih (Nat.lt_of_succ_lt_succ h))
    · have hne : ∀ c, p c = true → x ≠ c := by
        rintro c hc rfl
        exact hx hc
      rw [List.filter_cons_of_neg hx] at h
      rw [List.idxOf_cons_ne _ (hne a ha), List.idxOf_cons_ne _ (hne b hb)]
      exact Nat.succ_lt_succ (ih h)

/-- What is kept stands in the order of first appearance. -/
theorem pairwise_idxOf_firsts (as : List α) :
    (firsts (· = ·) as).Pairwise fun a b => as.idxOf a < as.idxOf b := by
  induction as using induction (fun a b : α => decide (a = b)) with
  | nil => exact .nil
  | cons a as ih =>
    have hne : ∀ b ∈ firsts (· = ·) (as.filter fun b => !decide (a = b)), a ≠ b := fun b hb => by
      have hmem := (List.mem_filter.1 ((firsts_sublist _ _).subset hb)).2
      simpa using hmem
    rw [firsts_cons, List.pairwise_cons]
    refine ⟨fun b hb => ?_, ih.imp_of_mem fun {b c} hb hc hlt => ?_⟩
    · rw [List.idxOf_cons_self, List.idxOf_cons_ne _ (hne b hb)]
      exact Nat.succ_pos _
    · rw [List.idxOf_cons_ne _ (hne b hb), List.idxOf_cons_ne _ (hne c hc)]
      refine Nat.succ_lt_succ (idxOf_lt_of_filter ?_ ?_ hlt)
      · simpa using hne b hb
      · simpa using hne c hc

end Distinct

namespace Location

variable {ls ls' kept : List Location} {l : Location}

/-- What normalising some locations may leave. -/
structure NormalForm (ls kept : List Location) : Prop where
  /-- Nothing is added or moved. -/
  sublist : kept.Sublist ls
  /-- The order is that of first appearance. -/
  ordered : kept.Pairwise fun k l => ls.idxOf k < ls.idxOf l
  /-- Nothing is kept twice. -/
  nodup : kept.Nodup
  /-- Nothing that is kept lies inside something else that is. -/
  apart : ∀ k ∈ kept, ∀ l ∈ kept, ¬ k.encloses l
  /-- Each location is kept or lies inside one that is. -/
  covers : ∀ l ∈ ls, l ∈ kept ∨ ∃ k ∈ kept, k.encloses l
  /-- Where a location is dropped, it stood before or lies inside one that is kept. -/
  dropped : ∀ before l after, ls = before ++ l :: after → ¬ (l ∈ kept ∧ l ∉ before) →
    l ∈ before ∨ ∃ k ∈ kept, k.encloses l

theorem normalForm_roots (ls : List Location) : NormalForm ls (roots ls) where
  sublist := List.filter_sublist.trans (Distinct.firsts_sublist _ ls)
  ordered := (Distinct.pairwise_idxOf_firsts ls).filter _
  nodup := nodup_roots ls
  apart k hk l hl := (mem_roots_iff.1 hl).2 k (mem_roots_iff.1 hk).1
  covers l hl := by
    obtain ⟨k, hk, rfl | hencloses⟩ := exists_root hl
    · exact .inl hk
    · exact .inr ⟨k, hk, hencloses⟩
  dropped before l after hls hdropped := by
    by_cases hbefore : l ∈ before
    · exact .inl hbefore
    have hl : l ∈ ls := hls ▸ List.mem_append_right before List.mem_cons_self
    obtain ⟨k, hk, rfl | hencloses⟩ := exists_root hl
    · exact absurd ⟨hk, hbefore⟩ hdropped
    · exact .inr ⟨k, hk, hencloses⟩

/-- The locations that are kept are those that no location encloses. -/
theorem NormalForm.mem_iff (h : NormalForm ls kept) : l ∈ kept ↔ l ∈ roots ls := by
  rw [mem_roots_iff]
  constructor
  · intro hl
    refine ⟨h.sublist.subset hl, fun k hk hkl => ?_⟩
    -- a kept location around `k` lies around `l` too
    rcases h.covers k hk with hkept | ⟨j, hj, hjk⟩
    · exact h.apart k hkept l hl hkl
    · exact h.apart j hj l hl (encloses_trans hjk hkl)
  · rintro ⟨hl, hroot⟩
    rcases h.covers l hl with hkept | ⟨k, hk, hkl⟩
    · exact hkept
    · exact absurd hkl (hroot k (h.sublist.subset hk))

/-- Locations have one normal form. -/
theorem normalForm_iff : NormalForm ls kept ↔ kept = roots ls := by
  refine ⟨fun h => ?_, fun h => h ▸ normalForm_roots ls⟩
  have hperm : kept.Perm (roots ls) :=
    (List.perm_ext_iff_of_nodup h.nodup (nodup_roots ls)).2 fun _ => h.mem_iff
  exact hperm.eq_of_pairwise (fun _ _ _ _ hkl hlk => absurd hkl (Nat.lt_asymm hlk)) h.ordered
    (normalForm_roots ls).ordered

/-- Repetitions may be discarded after the nested locations. -/
theorem roots_eq (ls : List Location) :
    roots ls = distinct (ls.filter fun l => decide (∀ k ∈ ls, ¬ k.encloses l)) := by
  have hnested : (fun l => (parent? (distinct ls) l).isNone) =
      fun l => decide (∀ k ∈ ls, ¬ k.encloses l) := by
    funext l
    rw [Bool.eq_iff_iff]
    simp [parent?]
  have hcopies : ∀ a b : Location, decide (a = b) = true →
      decide (∀ k ∈ ls, ¬ k.encloses a) = decide (∀ k ∈ ls, ¬ k.encloses b) := by
    intro a b h
    rw [of_decide_eq_true h]
  show (distinct ls).filter (fun l => (parent? (distinct ls) l).isNone) = _
  rw [hnested]
  exact Distinct.filter_firsts hcopies ls

/-- The set of locations decides which ones are kept. -/
theorem perm_roots (h : ∀ l, l ∈ ls ↔ l ∈ ls') : (roots ls).Perm (roots ls') := by
  refine (List.perm_ext_iff_of_nodup (nodup_roots ls) (nodup_roots ls')).2 fun l => ?_
  simp only [mem_roots_iff, h]

/-- Where nothing comes again or lies inside another location, nothing is discarded. -/
theorem roots_roots (ls : List Location) : roots (roots ls) = roots ls := by
  have happart := (normalForm_roots ls).apart
  refine (normalForm_iff.1 ?_).symm
  exact {
    sublist := .refl _
    ordered := List.pairwise_iff_getElem.2 fun i j hi hj hij => by
      rwa [(nodup_roots ls).idxOf_getElem i hi, (nodup_roots ls).idxOf_getElem j hj]
    nodup := nodup_roots ls
    apart := happart
    covers := fun l hl => .inl hl
    dropped := fun before l after hls hdropped => by
      have hl : l ∈ roots ls := hls ▸ List.mem_append_right _ List.mem_cons_self
      exact .inl (by_contra fun hbefore => hdropped ⟨hl, hbefore⟩) }

/-- A location inside another one counts for nothing. -/
theorem roots_insert {before after : List Location} (h : ∃ k ∈ before ++ after, k.encloses l) :
    roots (before ++ l :: after) = roots (before ++ after) := by
  obtain ⟨k, hk, hkl⟩ := h
  have hmem : ∀ m, m ∈ before ++ l :: after ↔ m = l ∨ m ∈ before ++ after := fun m => by
    simp only [List.mem_append, List.mem_cons, or_left_comm]
  -- what `l` encloses lies inside `k` as well
  have hkept : ∀ m, (∀ j ∈ before ++ l :: after, ¬ j.encloses m) ↔
      ∀ j ∈ before ++ after, ¬ j.encloses m := by
    refine fun m => ⟨fun hm j hj => hm j ((hmem j).2 (.inr hj)), fun hm j hj => ?_⟩
    rcases (hmem j).1 hj with rfl | hj
    · exact fun hlm => hm k hk (encloses_trans hkl hlm)
    · exact hm j hj
  have hl : ¬ ∀ j ∈ before ++ after, ¬ j.encloses l := fun hl => hl k hk hkl
  rw [roots_eq, roots_eq]
  simp only [hkept]
  rw [List.filter_append, List.filter_append, List.filter_cons_of_neg (by simpa using hl)]

/-- Normalising always leaves the one normal form that the locations have. Normalising again changes
nothing, locations in another order or with other repetitions leave the same ones, and a location
that one of the others encloses may be put in anywhere. -/
theorem rootsM_leaves_normalForm (ls : List Location) :
    ∃ kept, (rootsM ls).result = .ok kept ∧
      (∀ kept', NormalForm ls kept' ↔ kept' = kept) ∧
      (rootsM kept).result = .ok kept ∧
      (∀ ls', (∀ l, l ∈ ls' ↔ l ∈ ls) →
        ∃ kept', (rootsM ls').result = .ok kept' ∧ kept'.Perm kept) ∧
      ∀ before after l, ls = before ++ after → (∃ k ∈ ls, k.encloses l) →
        (rootsM (before ++ l :: after)).result = .ok kept := by
  refine ⟨roots ls, result_rootsM ls, fun _ => normalForm_iff, ?again, ?sameSet, ?nested⟩
  case again => rw [result_rootsM, roots_roots]
  case sameSet => exact fun ls' h => ⟨roots ls', result_rootsM ls', perm_roots h⟩
  case nested =>
    rintro before after l rfl h
    rw [result_rootsM, roots_insert h]

theorem rootsM_leaves_normalForm_nestedPackage :
    let db : Location := ⟨.embedded, "db"⟩
    let old : Location := ⟨.embedded, "db/old"⟩
    let sql : Location := ⟨.filesystem, "sql"⟩
    NormalForm [sql, db, sql] [sql, db] ∧
      (rootsM [sql, db]).result = .ok [sql, db] ∧
      (∀ l, l ∈ [db, db, sql] ↔ l ∈ [sql, db, sql]) ∧
      (∃ kept, (rootsM [db, db, sql]).result = .ok kept ∧ kept.Perm [sql, db]) ∧
      (∃ k ∈ [sql, db, sql], k.encloses old) ∧
      (rootsM [sql, old, db, sql]).result = .ok [sql, db] := by
  intro db old sql
  have hset : ∀ l, l ∈ [db, db, sql] ↔ l ∈ [sql, db, sql] := by simp [or_comm]
  have hencloses : ∃ k ∈ [sql, db, sql], k.encloses old := ⟨db, by simp, by decide⟩
  obtain ⟨kept, hkept, hnormal, hagain, hsame, hnested⟩ := rootsM_leaves_normalForm [sql, db, sql]
  obtain rfl : [sql, db] = kept := Except.ok.inj hkept
  exact ⟨(hnormal _).2 rfl, hagain, hset, hsame _ hset, hencloses,
    hnested [sql] [db, sql] old rfl hencloses⟩

end Location

end SchemaPlan
