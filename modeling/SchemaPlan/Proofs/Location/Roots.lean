import SchemaPlan.Location.Roots
import SchemaPlan.Proofs.Distinct
import SchemaPlan.Proofs.Text.Search
import SchemaPlan.Proofs.Traversal

/-!
# Which locations are roots

One location encloses another by the text of their paths (`encloses_iff_text`). Enclosing is
transitive, and the paths get longer on the way in.

A location is a root exactly if it is configured and no configured location encloses it
(`mem_roots_iff`). So each configured location is held by a root (`exists_root`), neither the order
in which locations are configured nor a repetition counts, and descriptors in another order have
the same roots.
-/

namespace SchemaPlan.Location

variable {j k l : Location} {ls : List Location}

/-! ### Enclosing locations -/

/-- One location encloses another one if its path is empty and embedded, or if the path of the other
one goes on behind it with a slash. -/
theorem encloses_iff_text :
    k.encloses l ↔ k.medium = l.medium ∧ k.path ≠ l.path ∧
      (k.isEmbedded ∧ k.path = "" ∨ ∃ rest, l.path.toList = k.path.toList ++ rest ∧
        (['/'] <+: rest ∨ ['/'] <:+ k.path.toList)) := by
  unfold encloses
  by_cases hmedium : k.medium = l.medium
  · by_cases hpath : k.path = l.path
    · simp [hpath]
    by_cases hroot : k.isEmbedded ∧ k.path = ""
    · simp [hmedium, hroot]
    rw [if_neg (by simp [hmedium, hpath]), if_neg hroot, and_iff_right hmedium,
      and_iff_right hpath, or_iff_right hroot]
    cases hrest : Text.dropPrefix? k.path.toList l.path.toList with
    | none =>
      refine iff_of_false Bool.false_ne_true ?_
      rintro ⟨rest, heq, -⟩
      rw [heq, Text.dropPrefix?_append] at hrest
      cases hrest
    | some rest =>
      rw [Text.dropPrefix?_eq_some_iff] at hrest
      simp [hrest, Text.startsWith_iff, Text.endsWith_iff]
  · simp [hmedium]

/-- The path of a location is shorter than those of the locations it encloses. -/
theorem length_lt_of_encloses (h : k.encloses l) :
    k.path.toList.length < l.path.toList.length := by
  obtain ⟨-, hpath, ⟨-, hroot⟩ | ⟨rest, hrest, -⟩⟩ := encloses_iff_text.1 h
  · rw [hroot] at hpath ⊢
    exact List.length_pos_iff.2 fun hnil => hpath (String.toList_eq_nil_iff.1 hnil).symm
  · have hne : rest ≠ [] := by
      rintro rfl
      rw [List.append_nil] at hrest
      exact hpath (String.toList_injective hrest.symm)
    have hlength := List.length_pos_iff.2 hne
    rw [hrest, List.length_append]
    omega

theorem encloses_trans (hjk : j.encloses k) (hkl : k.encloses l) : j.encloses l := by
  have hlt := Nat.lt_trans (length_lt_of_encloses hjk) (length_lt_of_encloses hkl)
  have hpath : j.path ≠ l.path := by
    intro heq
    rw [heq] at hlt
    exact Nat.lt_irrefl _ hlt
  obtain ⟨hmedium, hne, hjk⟩ := encloses_iff_text.1 hjk
  obtain ⟨hmedium', hne', hkl⟩ := encloses_iff_text.1 hkl
  refine encloses_iff_text.2 ⟨hmedium.trans hmedium', hpath, ?_⟩
  rcases hjk with hroot | ⟨rest, hrest, hslash⟩
  · exact .inl hroot
  rcases hkl with ⟨hembedded, hroot⟩ | ⟨rest', hrest', -⟩
  · -- no text goes on to an empty one
    rw [hroot] at hrest
    have hnil := (List.append_eq_nil_iff.1 hrest.symm).1
    exact absurd ((String.toList_eq_nil_iff.1 hnil).trans hroot.symm) hne
  · refine .inr ⟨rest ++ rest', by rw [hrest', hrest, List.append_assoc], ?_⟩
    exact hslash.imp_left fun h => h.trans (List.prefix_append rest rest')

/-! ### Roots -/

@[simp] theorem mem_distinct : l ∈ distinct ls ↔ l ∈ ls := by
  refine ⟨fun h => (Distinct.firsts_sublist _ ls).subset h, fun h => ?_⟩
  have hequivalence : Equivalence fun a b : Location => decide (a = b) = true := by
    simpa only [decide_eq_true_eq] using eq_equivalence
  obtain ⟨m, hm, hml⟩ := Distinct.exists_mem_firsts hequivalence h
  rw [decide_eq_true_eq] at hml
  exact hml ▸ hm

/-- A root is a location that no other encloses. -/
theorem mem_roots_iff : l ∈ roots ls ↔ l ∈ ls ∧ ∀ k ∈ ls, ¬ k.encloses l := by
  simp [roots, parent?, List.mem_filter]

theorem roots_singleton (l : Location) : roots [l] = [l] := by
  have hdistinct : distinct [l] = [l] := rfl
  simp [roots, hdistinct, parent?, encloses]

/-- Each configured location is held by a root. -/
theorem exists_root (hl : l ∈ ls) : ∃ k ∈ roots ls, k = l ∨ k.encloses l := by
  induction hlength : l.path.toList.length using Nat.strongRecOn generalizing l with
  | ind n ih =>
    by_cases hnested : ∃ j ∈ ls, j.encloses l
    · obtain ⟨j, hj, hencloses⟩ := hnested
      obtain ⟨k, hk, rfl | hkj⟩ := ih _ (hlength ▸ length_lt_of_encloses hencloses) hj rfl
      · exact ⟨k, hk, .inr hencloses⟩
      · exact ⟨k, hk, .inr (encloses_trans hkj hencloses)⟩
    · exact ⟨l, mem_roots_iff.2 ⟨hl, fun j hj h => hnested ⟨j, hj, h⟩⟩, .inl rfl⟩

/-- Descriptors in another order are all locations if they were, and have the same roots. -/
theorem exists_parseRoots_of_perm {ds ds' : List String} (h : ds.Perm ds')
    (hls : (parseRoots ds).result = .ok ls) :
    ∃ ls', (parseRoots ds').result = .ok ls' ∧ ∀ l, l ∈ ls ↔ l ∈ ls' := by
  rw [result_parseRoots] at hls ⊢
  cases hparse : parseAll ds with
  | error e => rw [hparse] at hls; cases hls
  | ok ks =>
    rw [hparse] at hls
    cases hls
    obtain ⟨ks', hparse'⟩ : ∃ ks', parseAll ds' = .ok ks' := by
      refine Traversal.exists_mapM_eq_ok_iff.2 fun d hd => ?_
      exact Traversal.exists_mapM_eq_ok_iff.1 ⟨ks, hparse⟩ d (h.mem_iff.2 hd)
    have hmem : ∀ k, k ∈ ks ↔ k ∈ ks' := fun k => by
      rw [Traversal.mem_of_mapM_eq_ok hparse, Traversal.mem_of_mapM_eq_ok hparse']
      simp only [h.mem_iff]
    refine ⟨roots ks', by rw [hparse']; rfl, fun l => ?_⟩
    simp only [mem_roots_iff, hmem]

end SchemaPlan.Location
