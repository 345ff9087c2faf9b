import SchemaPlan.Proofs.Plan.Passes
import SchemaPlan.Proofs.Resolver.Sql
import SchemaPlan.Proofs.Resolver.Units
import SchemaPlan.Proofs.Text.ByteOrder
import SchemaPlan.Proofs.Version.Numbers

/-!
# Sorting in the order of application

The order of application is a total preorder, so that sorting by it without exchanging migrations of
one place has exactly one result (`sortingOf_iff`). In which order the migrations are given matters
only within the places: how many there are of each place fixes which place comes at which position
(`samePlaces_of_length_place_eq`), and neither a permutation nor keeping the first of all duplicates
lets this number depend on the order (`samePlaces_candidates`). The resolvers of scripts and of code
units sort what they find in all of their locations, and a composite resolver sorts what is left of
the findings without duplicates.
-/

namespace SchemaPlan

open Std

namespace Migration

/-! ### The comparison -/

/-- A comparison of migrations is a total preorder in which those with a version come first, by
the numbers of the version alone, and then the repeatable ones, by the bytes of the description
alone. -/
structure OrdersMigrations (cmp : Migration → Migration → Ordering) : Prop where
  refl (a : Migration) : cmp a a = .eq
  swap (a b : Migration) : cmp b a = (cmp a b).swap
  /-- Of two steps that do not go back, the first that goes on decides. -/
  trans {a b c : Migration} : (cmp a b).isLE → (cmp b c).isLE → cmp a c = (cmp a b).then (cmp b c)
  versioned_first {a b : Migration} : a.version.isSome → b.version = none → cmp a b = .lt
  versions {a b : Migration} {v w : Version} : a.version = some v → b.version = some w →
    cmp a b = v.cmp w
  numbers {a b : Migration} {v w : Version} {text text' : String} : a.version = some v →
    b.version = some w → Version.parse text = .ok v → Version.parse text' = .ok w →
      (cmp a b).Compares (Version.numbers text) (Version.numbers text')
  descriptions {a b : Migration} : a.version = none → b.version = none →
    (cmp a b).Compares (Text.bytesOf a.description) (Text.bytesOf b.description)

theorem cmp_eq_then {a b c : Migration} (hab : (a.cmp b).isLE) (hbc : (b.cmp c).isLE) :
    a.cmp c = (a.cmp b).then (b.cmp c) := by
  rcases Ordering.isLE_iff_eq_lt_or_eq_eq.1 hab with hlt | heq
  · rw [hlt]
    exact TransCmp.lt_of_lt_of_isLE hlt hbc
  · rw [heq]
    exact TransCmp.congr_left heq

theorem ordersMigrations_cmp : OrdersMigrations cmp where
  refl := cmp_self
  swap a b := cmp_swap b a
  trans := cmp_eq_then
  versioned_first ha hb := by
    obtain ⟨v, hv⟩ := Option.isSome_iff_exists.1 ha
    exact cmp_of_version_of_repeatable hv hb
  versions := cmp_of_versions
  numbers ha hb hv hw := by
    rw [cmp_of_versions ha hb]
    exact Version.cmp_compares_numbers hv hw
  descriptions ha hb := by
    rw [cmp_of_repeatable ha hb]
    exact Text.compare_compares_bytesOf _ _

/-! ### Stable sorting -/

/-- `SortingOf ms ns`: to sort `ms` in the order of application, without exchanging migrations of
one place, may give `ns`. -/
structure SortingOf (ms ns : List Migration) : Prop where
  perm : ns.Perm ms
  ascending : ns.Pairwise fun a b => (a.cmp b).isLE
  stable (m : Migration) : m.place ns = m.place ms

/-- There is one way to sort migrations stably. -/
theorem sortingOf_iff {ms ns : List Migration} : SortingOf ms ns ↔ ns = sort ms := by
  constructor
  · intro h
    refine eq_of_place_eq h.ascending (pairwise_sort ms) fun m => ?_
    rw [h.stable, place_sort]
  · rintro rfl
    exact ⟨sort_perm ms, pairwise_sort ms, fun m => place_sort m ms⟩

/-! ### Places in a sorted list -/

/-- Two lists have migrations of the same places, one after the other. -/
def SamePlaces (ms ns : List Migration) : Prop := List.Forall₂ (fun a b => a.cmp b = .eq) ms ns

theorem exists_cmp_eq_of_length_place_eq {a : Migration} {ms ns : List Migration}
    (h : (a.place ms).length = (a.place ns).length) (ha : a ∈ ms) : ∃ b ∈ ns, a.cmp b = .eq := by
  have hpos : 0 < (a.place ns).length := h ▸ List.length_pos_of_mem (mem_place.2 ⟨ha, a.cmp_self⟩)
  obtain ⟨b, hb⟩ := List.exists_mem_of_length_pos hpos
  exact ⟨b, mem_place.1 hb⟩

/-- Which places come one after the other in a sorted list is determined by how many migrations it
has of each place. -/
theorem samePlaces_of_length_place_eq {ms ns : List Migration}
    (hms : ms.Pairwise fun a b => (a.cmp b).isLE) (hns : ns.Pairwise fun a b => (a.cmp b).isLE)
    (h : ∀ m : Migration, (m.place ms).length = (m.place ns).length) : SamePlaces ms ns := by
  induction ms generalizing ns with
  | nil =>
    cases ns with
    | nil => exact .nil
    | cons b ns =>
      obtain ⟨a, ha, -⟩ := exists_cmp_eq_of_length_place_eq (h b).symm List.mem_cons_self
      cases ha
  | cons a ms ih =>
    cases ns with
    | nil =>
      obtain ⟨b, hb, -⟩ := exists_cmp_eq_of_length_place_eq (h a) List.mem_cons_self
      cases hb
    | cons b ns =>
      have hab : a.cmp b = .eq := OrientedCmp.isLE_antisymm
        (isLE_of_exists_cmp_eq hms
          (exists_cmp_eq_of_length_place_eq (h b).symm List.mem_cons_self))
        (isLE_of_exists_cmp_eq hns (exists_cmp_eq_of_length_place_eq (h a) List.mem_cons_self))
      -- the heads are counted in the same place, so they can be taken off both lists
      refine .cons hab (ih hms.of_cons hns.of_cons fun m => ?_)
      have hlength := h m
      rw [place_cons, place_cons, TransCmp.congr_right hab] at hlength
      split at hlength
      · exact Nat.succ.inj hlength
      · exact hlength

theorem samePlaces_sort {ms ns : List Migration} (h : ms.Perm ns) :
    SamePlaces (sort ms) (sort ns) := by
  refine samePlaces_of_length_place_eq (pairwise_sort ms) (pairwise_sort ns) fun m => ?_
  rw [place_sort, place_sort]
  exact (h.filter _).length_eq

/-- Of duplicates another one may come first, but then it is in the same place. -/
theorem samePlaces_candidates {ms ns : List Migration} (h : ms.Perm ns) :
    SamePlaces (Plan.candidates ms) (Plan.candidates ns) := by
  refine samePlaces_of_length_place_eq (Plan.pairwise_candidates ms) (Plan.pairwise_candidates ns)
    fun m => ?_
  rw [Plan.place_candidates, Plan.place_candidates]
  exact Distinct.length_firsts_of_perm equivalence_same (h.filter _)

/-! ### Who sorts -/

/-- **The order of application is a total preorder**, in which migrations with a version come before
the repeatable ones, by numbers, and these by bytes. So there is exactly one way to sort stably, and
a permutation of what is sorted leaves the places one after the other as they are. The resolvers
give what they find sorted in this way, and neighbours are compared, and plans made, among what is
found without duplicates, sorted in this way too; there as well only the places count. -/
theorem sorted_in_places :
    OrdersMigrations cmp ∧
      (∀ ms ns : List Migration, SortingOf ms ns ↔ ns = sort ms) ∧
      (∀ ms ns : List Migration, ms.Perm ns → SamePlaces (sort ms) (sort ns)) ∧
      (∀ (r : SqlResolver) (storage : Storage),
        (r.resolve storage).result = (r.foundInScope storage).map sort) ∧
      (∀ r : UnitResolver, r.resolve.result = r.foundInScope.map sort) ∧
      (∀ (c : Composite) (storage : Storage) (founds : List (List Migration)),
        c.Finds storage founds →
          (c.makePlan storage).result =
            match Plan.firstConflict? (sort (Distinct.firsts same founds.flatten)) with
            | some e => .error e
            | none => .ok ⟨sort (Distinct.firsts same founds.flatten)⟩) ∧
      ∀ found found' : List Migration, found.Perm found' →
        SamePlaces (sort (Distinct.firsts same found)) (sort (Distinct.firsts same found')) :=
  ⟨ordersMigrations_cmp, fun _ _ => sortingOf_iff, fun _ _ => samePlaces_sort,
    SqlResolver.result_resolve_eq, UnitResolver.result_resolve_eq,
    fun _ _ _ => Composite.result_makePlan, fun _ _ => samePlaces_candidates⟩

theorem sorted_in_places_copied :
    (Planner.sampleScript "b" (some ⟨["1", "0"], "1.0"⟩) "users" 1).cmp
        (Planner.sampleScript "a" none "view" 3) = .lt ∧
      SamePlaces (sort Planner.copied.flatten) (sort Planner.copied.flatten.reverse) ∧
      ((Composite.finding Planner.copied).makePlan {}).result = .ok Planner.planOfCopied := by
  obtain ⟨horder, -, hplaces, -, -, hplan, -⟩ := sorted_in_places
  refine ⟨?_, hplaces _ _ (List.reverse_perm _).symm, ?_⟩
  · -- by way of a version that is equal by its numbers
    have hequal : (Planner.sampleScript "b" (some ⟨["1", "0"], "1.0"⟩) "users" 1).cmp
        (Planner.sampleScript "a" (some ⟨["1"], "1"⟩) "users" 1) = .eq :=
      (horder.versions rfl rfl).trans (by decide)
    have hless : (Planner.sampleScript "a" (some ⟨["1"], "1"⟩) "users" 1).cmp
        (Planner.sampleScript "a" none "view" 3) = .lt := horder.versioned_first rfl rfl
    rw [horder.trans (by rw [hequal]; rfl) (by rw [hless]; rfl), hequal, hless]
    rfl
  · rw [hplan _ {} _ (Composite.finds_finding Planner.copied {})]
    cbv

end Migration

end SchemaPlan
