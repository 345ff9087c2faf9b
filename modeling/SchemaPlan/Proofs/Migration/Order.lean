import SchemaPlan.Migration
import SchemaPlan.Proofs.Version.Order

/-!
# The order of migrations

The order of application is a total preorder: migrations with a version come first, by version, and
repeatable ones after them, by description. Being duplicates is an equivalence that is finer than
being in one place of the order. Sorting keeps the migrations of one place in their order, and a
sorted list is determined by what it has in each place (`eq_of_place_eq`), so how a list was sorted
does not matter.
-/

namespace SchemaPlan.Migration

open Std

/-! ### Places -/

/-- What decides between two migrations whose versions do not. -/
def remainder (m : Migration) : String := if m.isRepeatable then m.description else ""

instance : TransCmp fun a b : Migration => Version.compareOptional a.version b.version where
  eq_swap := Version.compareOptional_swap _ _
  isLE_trans hab hbc := @TransCmp.isLE_trans _ Version.compareOptional _ _ _ _ hab hbc

theorem isRepeatable_eq {a b : Migration} (h : Version.compareOptional a.version b.version = .eq) :
    a.isRepeatable = b.isRepeatable := by
  unfold isRepeatable
  generalize a.version = v at h
  generalize b.version = w at h
  match v, w with
  | some _, some _ => rfl
  | none, none => rfl

theorem cmp_eq_compareLex :
    cmp = compareLex (fun a b => Version.compareOptional a.version b.version)
      (compareOn remainder) := by
  funext a b
  show _ = (Version.compareOptional a.version b.version).then (compare a.remainder b.remainder)
  unfold cmp
  cases h : Version.compareOptional a.version b.version with
  | lt => rfl
  | gt => rfl
  | eq =>
    unfold remainder
    rw [← isRepeatable_eq h]
    cases a.isRepeatable
    · exact ReflOrd.compare_self.symm
    · rfl

instance : TransCmp cmp := by
  rw [cmp_eq_compareLex]
  infer_instance

@[simp] theorem cmp_self (m : Migration) : m.cmp m = .eq := ReflCmp.compare_self

theorem cmp_swap (a b : Migration) : a.cmp b = (b.cmp a).swap := OrientedCmp.eq_swap

/-- Two migrations are in one place if they have the same version by its numbers, or are both
repeatable with the same description. -/
theorem cmp_eq_eq_iff {a b : Migration} :
    a.cmp b = .eq ↔
      (∃ v w, a.version = some v ∧ b.version = some w ∧ v.same w) ∨
        a.version = none ∧ b.version = none ∧ a.description = b.description := by
  unfold cmp isRepeatable
  cases a.version with
  | none => cases b.version <;> simp [Version.compareOptional]
  | some v =>
    cases b.version with
    | none => simp [Version.compareOptional]
    | some w => cases h : v.cmp w <;> simp [Version.compareOptional, Version.same, h]

/-- Migrations with versions compare as these do. -/
theorem cmp_of_versions {a b : Migration} {v w : Version} (ha : a.version = some v)
    (hb : b.version = some w) : a.cmp b = v.cmp w := by
  unfold cmp isRepeatable
  rw [ha, hb, Version.compareOptional]
  cases v.cmp w <;> rfl

/-- A migration with a version comes before a repeatable one. -/
theorem cmp_of_version_of_repeatable {a b : Migration} {v : Version} (ha : a.version = some v)
    (hb : b.version = none) : a.cmp b = .lt := by
  unfold cmp
  rw [ha, hb]
  rfl

/-- Repeatable migrations compare as their descriptions do. -/
theorem cmp_of_repeatable {a b : Migration} (ha : a.version = none) (hb : b.version = none) :
    a.cmp b = compare a.description b.description := by
  unfold cmp isRepeatable
  rw [ha, hb]
  rfl

/-- Nothing but repeatable migrations comes after a repeatable one. -/
theorem isRepeatable_of_isLE {a b : Migration} (h : (a.cmp b).isLE) (ha : a.isRepeatable) :
    b.isRepeatable := by
  unfold isRepeatable at ha ⊢
  unfold cmp at h
  rw [Option.isNone_iff_eq_none] at ha
  rw [ha] at h
  cases hb : b.version with
  | none => rfl
  | some w => rw [hb] at h; exact absurd h Bool.false_ne_true

/-- In one place there are either migrations with a version or repeatable ones. -/
theorem isRepeatable_eq_of_cmp_eq {a b : Migration} (h : a.cmp b = .eq) :
    a.isRepeatable = b.isRepeatable := by
  refine Bool.eq_iff_iff.2 ⟨isRepeatable_of_isLE ?_, isRepeatable_of_isLE ?_⟩
  · rw [h]
    rfl
  · rw [cmp_swap, h]
    rfl

/-! ### Duplicates -/

theorem same_iff {a b : Migration} :
    a.same b ↔ Version.compareOptional a.version b.version = .eq ∧ a.description = b.description ∧
      a.script = b.script ∧ a.checksum = b.checksum ∧ a.kind = b.kind := by
  simp [same, Version.sameOptional_iff, and_assoc]

/-- Being duplicates is an equivalence. -/
theorem equivalence_same : Equivalence fun a b : Migration => a.same b = true where
  refl a := same_iff.2 ⟨ReflCmp.compare_self, rfl, rfl, rfl, rfl⟩
  symm h := by
    obtain ⟨hv, hd, hs, hc, hk⟩ := same_iff.1 h
    exact same_iff.2 ⟨OrientedCmp.eq_symm hv, hd.symm, hs.symm, hc.symm, hk.symm⟩
  trans h h' := by
    obtain ⟨hv, hd, hs, hc, hk⟩ := same_iff.1 h
    obtain ⟨hv', hd', hs', hc', hk'⟩ := same_iff.1 h'
    exact same_iff.2 ⟨TransCmp.eq_trans hv hv', hd.trans hd', hs.trans hs', hc.trans hc',
      hk.trans hk'⟩

@[simp] theorem same_self (m : Migration) : m.same m = true := equivalence_same.refl m

/-- Duplicates are in one place. -/
theorem cmp_eq_of_same {a b : Migration} (h : a.same b) : a.cmp b = .eq := by
  obtain ⟨hv, hd, -⟩ := same_iff.1 h
  unfold cmp
  rw [hv, hd]
  cases a.isRepeatable
  · rfl
  · exact ReflOrd.compare_self

/-! ### Sorting -/

theorem isLE_cmp_trans (a b c : Migration) : (a.cmp b).isLE → (b.cmp c).isLE → (a.cmp c).isLE :=
  TransCmp.isLE_trans

theorem isLE_cmp_total (a b : Migration) : ((a.cmp b).isLE || (b.cmp a).isLE) = true := by
  rw [cmp_swap b a]
  cases a.cmp b <;> rfl

theorem sort_perm (ms : List Migration) : (sort ms).Perm ms := List.mergeSort_perm ms _

@[simp] theorem mem_sort {m : Migration} {ms : List Migration} : m ∈ sort ms ↔ m ∈ ms :=
  (sort_perm ms).mem_iff

theorem pairwise_sort (ms : List Migration) : (sort ms).Pairwise fun a b => (a.cmp b).isLE :=
  List.pairwise_mergeSort isLE_cmp_trans isLE_cmp_total ms

/-- The migrations that are in one place with `m`. -/
def place (m : Migration) (ms : List Migration) : List Migration :=
  ms.filter fun a => m.cmp a == .eq

theorem mem_place {m a : Migration} {ms : List Migration} :
    a ∈ place m ms ↔ a ∈ ms ∧ m.cmp a = .eq := by
  simp [place]

theorem place_cons (m a : Migration) (ms : List Migration) :
    place m (a :: ms) = if m.cmp a = .eq then a :: place m ms else place m ms := by
  simp [place, List.filter_cons]

theorem place_append (m : Migration) (ms ns : List Migration) :
    place m (ms ++ ns) = place m ms ++ place m ns :=
  List.filter_append ms ns

theorem place_eq_nil_iff {m : Migration} {ms : List Migration} :
    place m ms = [] ↔ ∀ a ∈ ms, m.cmp a ≠ .eq := by
  simp [place, List.filter_eq_nil_iff]

/-- Migrations in one place have the same place. -/
theorem place_congr {m a : Migration} (h : m.cmp a = .eq) (ms : List Migration) :
    place m ms = place a ms :=
  List.filter_congr fun b _ => by rw [TransCmp.congr_left h]

/-- Sorting keeps the migrations of one place, in their order. -/
theorem place_sort (m : Migration) (ms : List Migration) : place m (sort ms) = place m ms := by
  have hplace : (place m ms).Pairwise fun a b => (a.cmp b).isLE :=
    List.pairwise_of_forall_mem_list fun a ha b hb => by
      rw [TransCmp.eq_trans (OrientedCmp.eq_symm (mem_place.1 ha).2) (mem_place.1 hb).2]
      rfl
  have hsub : (place m ms).Sublist (sort ms) :=
    List.sublist_mergeSort isLE_cmp_trans isLE_cmp_total hplace List.filter_sublist
  have hsub : ((place m ms).filter fun a => m.cmp a == .eq).Sublist (place m (sort ms)) :=
    hsub.filter _
  rw [place, List.filter_filter] at hsub
  simp only [Bool.and_self] at hsub
  exact (hsub.eq_of_length_le (Nat.le_of_eq ((sort_perm ms).filter _).length_eq)).symm

/-- Sorting each of some lists keeps the migrations of one place, in their order. -/
theorem place_flatten_sort (m : Migration) (lists : List (List Migration)) :
    place m (lists.map sort).flatten = place m lists.flatten := by
  have hsort : lists.map (place m ∘ sort) = lists.map (place m) :=
    List.map_congr_left fun ms _ => place_sort m ms
  unfold place at hsort ⊢
  rw [List.filter_flatten, List.filter_flatten, List.map_map]
  exact congrArg List.flatten hsort

/-- If two lists have the same in the place of a migration, then both hold it or neither does. -/
theorem mem_of_place_eq {a : Migration} {ms ns : List Migration} (h : place a ms = place a ns)
    (ha : a ∈ ms) : a ∈ ns := by
  have hplace : a ∈ place a ms := mem_place.2 ⟨ha, a.cmp_self⟩
  rw [h] at hplace
  exact (mem_place.1 hplace).1

/-- A migration does not come before a sorted list that has something in its place. -/
theorem isLE_of_exists_cmp_eq {a b : Migration} {ns : List Migration}
    (hns : (b :: ns).Pairwise fun a b => (a.cmp b).isLE) (h : ∃ x ∈ b :: ns, a.cmp x = .eq) :
    (b.cmp a).isLE := by
  obtain ⟨x, hx, hax⟩ := h
  rw [TransCmp.congr_right hax]
  rcases List.mem_cons.1 hx with rfl | hx
  · exact ReflCmp.isLE_rfl
  · exact (List.pairwise_cons.1 hns).1 x hx

/-- A sorted list is determined by what it has in each place. -/
theorem eq_of_place_eq {ms ns : List Migration} (hms : ms.Pairwise fun a b => (a.cmp b).isLE)
    (hns : ns.Pairwise fun a b => (a.cmp b).isLE) (h : ∀ m, place m ms = place m ns) : ms = ns := by
  induction ms generalizing ns with
  | nil =>
    cases ns with
    | nil => rfl
    | cons b ns => cases mem_of_place_eq (h b).symm List.mem_cons_self
  | cons a ms ih =>
    cases ns with
    | nil => cases mem_of_place_eq (h a) List.mem_cons_self
    | cons b ns =>
      -- each head stands in the other list, so it does not come before the other head
      have hab : a.cmp b = .eq := OrientedCmp.isLE_antisymm
        (isLE_of_exists_cmp_eq hms
          ⟨b, mem_of_place_eq (h b).symm List.mem_cons_self, b.cmp_self⟩)
        (isLE_of_exists_cmp_eq hns ⟨a, mem_of_place_eq (h a) List.mem_cons_self, a.cmp_self⟩)
      have hheads : a = b := by
        have hplace := h a
        rw [place_cons, place_cons, cmp_self, hab, if_pos rfl, if_pos rfl] at hplace
        exact (List.cons.inj hplace).1
      subst hheads
      refine congrArg (a :: ·) (ih hms.of_cons hns.of_cons fun m => ?_)
      have hplace := h m
      rw [place_cons, place_cons] at hplace
      split at hplace
      · exact (List.cons.inj hplace).2
      · exact hplace

end SchemaPlan.Migration
