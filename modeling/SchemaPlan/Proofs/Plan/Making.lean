import SchemaPlan.Plan
import SchemaPlan.Proofs.Distinct
import SchemaPlan.Proofs.Migration.Order

/-!
# What a plan is made of

A plan is made by keeping the first of all duplicates, sorting, and comparing neighbours. Here the
three are put together. If no neighbours are in one place, the plan ascends strictly and has each
found migration once, in the form in which it was found first (`MadeOf`). If there are such
neighbours, the first of them lead the least place in which found migrations contradict each other
(`LeastConflict`): all that come before them ascend strictly, so no contradiction lies there, and
sorting has kept the order within the place. No contradiction goes unnoticed, since in a list that
ascends strictly only a migration itself is in its place.
-/

namespace SchemaPlan

open Std

/-- Two migrations contradict each other: they are in one place of the order and no duplicates. -/
def Migration.Contradicts (a b : Migration) : Prop := a.cmp b = .eq ∧ a.same b = false

theorem Migration.Contradicts.symm {a b : Migration} (h : a.Contradicts b) : b.Contradicts a := by
  refine ⟨OrientedCmp.eq_symm h.1, Bool.eq_false_iff.2 fun hsame => ?_⟩
  have hsame := equivalence_same.symm hsame
  rw [h.2] at hsame
  cases hsame

namespace Plan

/-! ### Neighbours -/

/-- The migrations that neighbours are compared among: of duplicates the first, all sorted. -/
def candidates (found : List Migration) : List Migration :=
  Migration.sort (Distinct.firsts Migration.same found)

theorem ofFound_eq (found : List Migration) :
    ofFound found =
      match firstConflict? (candidates found) with
      | some e => .error e
      | none => .ok ⟨candidates found⟩ := rfl

theorem pairwise_candidates (found : List Migration) :
    (candidates found).Pairwise fun a b => (a.cmp b).isLE :=
  Migration.pairwise_sort _

theorem mem_candidates_iff {m : Migration} {found : List Migration} :
    m ∈ candidates found ↔ found.find? m.same = some m := by
  rw [candidates, Migration.mem_sort]
  exact Distinct.mem_firsts_iff Migration.equivalence_same

theorem mem_of_mem_candidates {m : Migration} {found : List Migration} (h : m ∈ candidates found) :
    m ∈ found :=
  List.mem_of_find?_eq_some (mem_candidates_iff.1 h)

theorem exists_mem_candidates {m : Migration} {found : List Migration} (h : m ∈ found) :
    ∃ a ∈ candidates found, a.same m := by
  obtain ⟨a, ha, hs⟩ := Distinct.exists_mem_firsts Migration.equivalence_same h
  exact ⟨a, Migration.mem_sort.2 ha, hs⟩

/-- Of the candidates in one place, those found first come first. -/
theorem place_candidates (m : Migration) (found : List Migration) :
    m.place (candidates found) = Distinct.firsts Migration.same (m.place found) := by
  rw [candidates, Migration.place_sort]
  refine Distinct.filter_firsts (fun a b h => ?_) found
  rw [TransCmp.congr_right (Migration.cmp_eq_of_same h)]

/-- Where no neighbours are in one place, a sorted list ascends strictly. -/
theorem firstConflict?_eq_none {ms : List Migration}
    (hsorted : ms.Pairwise fun a b => (a.cmp b).isLE) (h : firstConflict? ms = none) :
    ms.Pairwise fun a b => a.cmp b = .lt := by
  induction ms with
  | nil => exact .nil
  | cons a ms ih =>
    cases ms with
    | nil => exact List.pairwise_singleton _ a
    | cons b ms =>
      simp only [firstConflict?] at h
      split at h
      · cases h
      · next hne =>
        rw [List.pairwise_cons] at hsorted
        have hstrict := ih hsorted.2 h
        have hab : a.cmp b = .lt :=
          Ordering.isLE_iff_eq_lt_or_eq_eq.1 (hsorted.1 b List.mem_cons_self) |>.resolve_right hne
        refine List.pairwise_cons.2 ⟨fun c hc => ?_, hstrict⟩
        rcases List.mem_cons.1 hc with rfl | hc
        · exact hab
        · exact TransCmp.lt_trans hab ((List.pairwise_cons.1 hstrict).1 c hc)

/-- The reported neighbours are the first in one place: up to them there is nothing to report. -/
theorem exists_of_firstConflict? {ms : List Migration} {e : PlanError}
    (h : firstConflict? ms = some e) :
    ∃ before a b after, ms = before ++ a :: b :: after ∧ a.cmp b = .eq ∧ e = conflict a b ∧
      firstConflict? (before ++ [a]) = none := by
  induction ms with
  | nil => cases h
  | cons a ms ih =>
    cases ms with
    | nil => cases h
    | cons b ms =>
      simp only [firstConflict?] at h
      split at h
      · next heq => exact ⟨[], a, b, ms, rfl, heq, (Option.some.inj h).symm, rfl⟩
      · next hne =>
        obtain ⟨before, c, d, after, hms, heq, he, hnone⟩ := ih h
        refine ⟨a :: before, c, d, after, by rw [hms]; rfl, heq, he, ?_⟩
        cases before with
        | nil =>
          obtain ⟨rfl, -⟩ := List.cons.inj hms
          exact if_neg hne
        | cons y before =>
          obtain ⟨rfl, -⟩ := List.cons.inj hms
          exact (if_neg hne).trans hnone

/-- In a list that ascends strictly only a migration itself is in its place. -/
theorem eq_of_cmp_eq {ms : List Migration} (h : ms.Pairwise fun a b => a.cmp b = .lt)
    {a b : Migration} (ha : a ∈ ms) (hb : b ∈ ms) (hab : a.cmp b = .eq) : a = b := by
  induction ms with
  | nil => cases ha
  | cons c ms ih =>
    rw [List.pairwise_cons] at h
    rcases List.mem_cons.1 ha with rfl | ha'
    · rcases List.mem_cons.1 hb with rfl | hb'
      · rfl
      · exact absurd hab (by rw [h.1 b hb']; decide)
    · rcases List.mem_cons.1 hb with rfl | hb'
      · exact absurd (OrientedCmp.eq_symm hab) (by rw [h.1 a ha']; decide)
      · exact ih h.2 ha' hb'

/-- Migrations with duplicates in a list that ascends strictly do not contradict each other. -/
theorem not_contradicts_of_same {ms : List Migration} (h : ms.Pairwise fun a b => a.cmp b = .lt)
    {v w a b : Migration} (hv : v ∈ ms) (hw : w ∈ ms) (hva : v.same a) (hwb : w.same b) :
    ¬ a.Contradicts b := by
  rintro ⟨hab, hne⟩
  have hvw : v.cmp w = .eq := TransCmp.eq_trans (Migration.cmp_eq_of_same hva)
    (TransCmp.eq_trans hab (OrientedCmp.eq_symm (Migration.cmp_eq_of_same hwb)))
  have heq := eq_of_cmp_eq h hv hw hvw
  subst heq
  have hsame := Migration.equivalence_same.trans (Migration.equivalence_same.symm hva) hwb
  rw [hne] at hsame
  cases hsame

/-- In a sorted list the repeatable migrations come last. -/
theorem eq_filter_append_filter {ms : List Migration}
    (h : ms.Pairwise fun a b => (a.cmp b).isLE) :
    ms = ms.filter (!·.isRepeatable) ++ ms.filter (·.isRepeatable) := by
  induction ms with
  | nil => rfl
  | cons a ms ih =>
    rw [List.pairwise_cons] at h
    cases ha : a.isRepeatable with
    | false =>
      rw [List.filter_cons_of_pos (by simp [ha]), List.filter_cons_of_neg (by simp [ha]),
        List.cons_append, ← ih h.2]
    | true =>
      have hall : ∀ b ∈ a :: ms, b.isRepeatable = true := by
        intro b hb
        rcases List.mem_cons.1 hb with rfl | hb
        · exact ha
        · exact Migration.isRepeatable_of_isLE (h.1 b hb) ha
      rw [List.filter_eq_self.2 hall, List.filter_eq_nil_iff.2 fun b hb => by simp [hall b hb]]
      rfl

/-! ### Plans -/

/-- What a plan is to the migrations that it was made of, in the order in which they were found. -/
structure MadeOf (plan : Plan) (found : List Migration) : Prop where
  /-- The plan ascends strictly. -/
  ascending : plan.migrations.Pairwise fun a b => a.cmp b = .lt
  /-- The migrations with a version come before the repeatable ones. -/
  versionedFirst : plan.migrations = plan.versioned ++ plan.repeatable
  /-- No two versions are equal by their numbers. -/
  versionsDiffer : plan.versioned.Pairwise fun a b => ¬ Version.sameOptional a.version b.version
  /-- No two repeatable migrations have the same description. -/
  descriptionsDiffer : plan.repeatable.Pairwise fun a b => a.description ≠ b.description
  /-- Of each found migration the plan has exactly one duplicate. -/
  complete : ∀ m ∈ found, plan.migrations.countP m.same = 1
  /-- A migration of the plan is, with all its parts, the first found among its duplicates. -/
  first : ∀ m ∈ plan.migrations, found.find? m.same = some m

theorem ofFound_eq_ok_iff {found : List Migration} {plan : Plan} :
    ofFound found = .ok plan ↔
      plan.migrations = candidates found ∧
        (candidates found).Pairwise fun a b => a.cmp b = .lt := by
  rw [ofFound_eq]
  constructor
  · intro h
    split at h
    · cases h
    · next hnone =>
      cases h
      exact ⟨rfl, firstConflict?_eq_none (pairwise_candidates found) hnone⟩
  · rintro ⟨hplan, hstrict⟩
    split
    · next e he =>
      obtain ⟨before, a, b, after, hms, hab, -, -⟩ := exists_of_firstConflict? he
      rw [hms] at hstrict
      have hlt := (List.pairwise_cons.1 (List.pairwise_append.1 hstrict).2.1).1 b List.mem_cons_self
      rw [hab] at hlt
      cases hlt
    · rw [← hplan]

theorem countP_same_candidates {found : List Migration}
    (h : (candidates found).Pairwise fun a b => a.cmp b = .lt) {m : Migration} (hm : m ∈ found) :
    (candidates found).countP m.same = 1 := by
  obtain ⟨a, ha, hs⟩ := exists_mem_candidates hm
  have hnodup : (candidates found).Nodup := h.imp fun {a b} hab heq => by
    rw [heq, Migration.cmp_self] at hab
    cases hab
  have hiff : ∀ b ∈ candidates found, m.same b = true ↔ (b == a) = true := by
    intro b hb
    rw [beq_iff_eq]
    constructor
    · intro hmb
      have hab := Migration.equivalence_same.trans hs hmb
      exact (eq_of_cmp_eq h ha hb (Migration.cmp_eq_of_same hab)).symm
    · rintro rfl
      exact Migration.equivalence_same.symm hs
  rw [List.countP_congr hiff]
  exact hnodup.count.trans (if_pos ha)

/-- A plan that is made is one of the migrations that it was made of. -/
theorem madeOf_of_ofFound {found : List Migration} {plan : Plan} (h : ofFound found = .ok plan) :
    plan.MadeOf found := by
  obtain ⟨hplan, hstrict⟩ := ofFound_eq_ok_iff.1 h
  have hascending : plan.migrations.Pairwise fun a b => a.cmp b = .lt := hplan ▸ hstrict
  refine ⟨hascending, ?_, ?_, ?_, ?_, ?_⟩
  · exact eq_filter_append_filter (hplan ▸ pairwise_candidates found)
  · refine (List.Pairwise.filter _ hascending).imp_of_mem fun {a b} ha hb hab hv => ?_
    have ha := (List.mem_filter.1 ha).2
    have hcmp : a.cmp b = .eq := by
      unfold Migration.cmp
      rw [Version.sameOptional_iff.1 hv, if_neg (by simpa using ha)]
    rw [hab] at hcmp
    cases hcmp
  · refine (List.Pairwise.filter _ hascending).imp_of_mem fun {a b} ha hb hab hd => ?_
    have ha := Option.isNone_iff_eq_none.1 (List.mem_filter.1 ha).2
    have hb := Option.isNone_iff_eq_none.1 (List.mem_filter.1 hb).2
    rw [Migration.cmp_eq_eq_iff.2 (.inr ⟨ha, hb, hd⟩)] at hab
    cases hab
  · intro m hm
    rw [hplan]
    exact countP_same_candidates hstrict hm
  · intro m hm
    rw [hplan] at hm
    exact mem_candidates_iff.1 hm

/-- Of what was found first among its duplicates, nothing but that is in the plan. -/
theorem MadeOf.filter_same {plan : Plan} {found : List Migration} (h : plan.MadeOf found)
    {m : Migration} (hm : found.find? m.same = some m) : plan.migrations.filter m.same = [m] := by
  have hcount := h.complete m (List.mem_of_find?_eq_some hm)
  rw [List.countP_eq_length_filter] at hcount
  obtain ⟨a, ha⟩ := List.length_eq_one_iff.1 hcount
  obtain ⟨hplan, hma⟩ := List.mem_filter.1 (ha ▸ List.mem_singleton_self a)
  have hsame : a.same = m.same := by
    funext b
    exact Bool.eq_iff_iff.2 ⟨Migration.equivalence_same.trans hma,
      Migration.equivalence_same.trans (Migration.equivalence_same.symm hma)⟩
  have hfirst := h.first a hplan
  rw [hsame, hm] at hfirst
  rw [ha, Option.some.inj hfirst]

/-- Of a class of duplicates the plan has the one that was found first. -/
theorem MadeOf.filter_eq_singleton {plan : Plan} {found : List Migration} (h : plan.MadeOf found)
    {p : Migration → Bool} (hp : ∀ a b : Migration, a.same b → p a = p b) {m : Migration}
    (hm : found.find? p = some m) (hsame : ∀ a ∈ found, p a → m.same a) :
    plan.migrations.filter p = [m] := by
  have hclass : ∀ a ∈ found, p a = m.same a := fun a ha =>
    Bool.eq_iff_iff.2 ⟨hsame a ha, fun hma => (hp m a hma) ▸ List.find?_some hm⟩
  have hfirst : found.find? m.same = some m := by
    rw [← hm, ← List.head?_filter, ← List.head?_filter, List.filter_congr hclass]
  rw [← h.filter_same hfirst]
  exact List.filter_congr fun a ha => hclass a (List.mem_of_find?_eq_some (h.first a ha))

/-! ### Conflicts -/

/-- Two migrations lead the least place in which found migrations contradict each other: of those
found in their place they are the first, and the first that is no duplicate of it. -/
structure LeastConflict (found : List Migration) (first second : Migration) : Prop where
  /-- Nothing in the place was found before the first. -/
  first_eq : (first.place found).head? = some first
  /-- Nothing in the place was found before the second but duplicates of the first. -/
  second_eq : ((first.place found).filter fun m => !first.same m).head? = some second
  /-- In no lesser place do migrations contradict each other. -/
  least : ∀ a ∈ found, ∀ b ∈ found, a.Contradicts b → (first.cmp a).isLE

theorem LeastConflict.contradicts {found : List Migration} {first second : Migration}
    (h : LeastConflict found first second) : first.Contradicts second := by
  have hs := List.mem_filter.1 (List.mem_of_head? h.second_eq)
  exact ⟨(Migration.mem_place.1 hs.1).2, by simpa using hs.2⟩

theorem LeastConflict.first_mem {found : List Migration} {first second : Migration}
    (h : LeastConflict found first second) : first ∈ found :=
  (Migration.mem_place.1 (List.mem_of_head? h.first_eq)).1

theorem LeastConflict.second_mem {found : List Migration} {first second : Migration}
    (h : LeastConflict found first second) : second ∈ found :=
  (Migration.mem_place.1 (List.mem_filter.1 (List.mem_of_head? h.second_eq)).1).1

/-- The first neighbours in one place are the first two that are kept of their place. -/
theorem firsts_place_of_candidates {found before after : List Migration} {a b : Migration}
    (hms : candidates found = before ++ a :: b :: after) (hab : a.cmp b = .eq)
    (hbefore : ∀ x ∈ before, x.cmp a = .lt) :
    Distinct.firsts Migration.same (a.place found) = a :: b :: a.place after := by
  have hnil : a.place before = [] := List.filter_eq_nil_iff.2 fun x hx => by
    rw [OrientedCmp.gt_of_lt (hbefore x hx)]
    decide
  rw [← place_candidates, hms]
  simp only [Migration.place, List.filter_append, List.filter_cons] at hnil ⊢
  rw [hnil, a.cmp_self, hab]
  rfl

/-- The first neighbours in one place lead the least place with a contradiction. -/
theorem leastConflict_of_candidates {found before after : List Migration} {a b : Migration}
    (hms : candidates found = before ++ a :: b :: after) (hab : a.cmp b = .eq)
    (hnone : firstConflict? (before ++ [a]) = none) : LeastConflict found a b := by
  have hsorted := pairwise_candidates found
  rw [hms] at hsorted
  have hstrict : (before ++ [a]).Pairwise fun a b => a.cmp b = .lt := by
    refine firstConflict?_eq_none (hsorted.sublist ?_) hnone
    exact List.Sublist.append_left (List.Sublist.cons_cons a (List.nil_sublist _)) before
  obtain ⟨hbefore, -, hlt⟩ := List.pairwise_append.1 hstrict
  have hplace := firsts_place_of_candidates hms hab fun x hx => hlt x hx a List.mem_cons_self
  obtain ⟨hfirst, hsecond⟩ := Distinct.head?_of_firsts_eq hplace a.same_self
  refine ⟨hfirst, hsecond, fun x hx y hy hxy => Decidable.byContradiction fun hle => ?_⟩
  -- what is kept of a lesser place stands before `a`, where everything ascends strictly
  have hkept : ∀ z ∈ found, x.cmp z = .eq → ∃ w ∈ before, w.same z := by
    intro z hz hxz
    obtain ⟨w, hw, hwz⟩ := exists_mem_candidates hz
    refine ⟨w, ?_, hwz⟩
    rw [hms] at hw
    refine (List.mem_append.1 hw).resolve_right fun hw => hle ?_
    have haw : (a.cmp w).isLE := by
      rcases List.mem_cons.1 hw with rfl | hw
      · exact ReflCmp.isLE_rfl
      · exact (List.pairwise_cons.1 (List.pairwise_append.1 hsorted).2.1).1 w hw
    have hwx : w.cmp x = .eq :=
      TransCmp.eq_trans (Migration.cmp_eq_of_same hwz) (OrientedCmp.eq_symm hxz)
    rwa [← TransCmp.congr_right hwx]
  obtain ⟨v, hv, hvx⟩ := hkept x hx ReflCmp.compare_self
  obtain ⟨w, hw, hwy⟩ := hkept y hy hxy.1
  exact not_contradicts_of_same hbefore hv hw hvx hwy hxy

theorem exists_leastConflict_of_ofFound {found : List Migration} {e : PlanError}
    (h : ofFound found = .error e) :
    ∃ first second, LeastConflict found first second ∧ e = conflict first second := by
  rw [ofFound_eq] at h
  split at h
  · next e' he =>
    cases h
    obtain ⟨before, a, b, after, hms, hab, he, hnone⟩ := exists_of_firstConflict? he
    exact ⟨a, b, leastConflict_of_candidates hms hab hnone, he⟩
  · cases h

/-- The errors that report the least contradiction among found migrations. -/
inductive ConflictOf (found : List Migration) : PlanError → Prop where
  /-- A conflict of versions, which is reported with the version of the first migration. -/
  | versions {first second : Migration} {v : Version} :
      LeastConflict found first second → first.version = some v →
      ConflictOf found (.versionConflict v.text first.offender second.offender)
  /-- A conflict of repeatable migrations; no versions contradict each other. -/
  | repeatables {first second : Migration} :
      LeastConflict found first second → first.version = none →
      (∀ a ∈ found, ∀ b ∈ found, a.Contradicts b → a.isRepeatable) →
      ConflictOf found (.repeatableConflict first.description first.offender second.offender)

theorem conflictOf_of_ofFound {found : List Migration} {e : PlanError}
    (h : ofFound found = .error e) : ConflictOf found e := by
  obtain ⟨first, second, hleast, rfl⟩ := exists_leastConflict_of_ofFound h
  unfold conflict
  split
  · next v hv => exact .versions hleast hv
  · next hv =>
    refine .repeatables hleast hv fun a ha b hb hab => ?_
    have hfirst : first.isRepeatable := by rw [Migration.isRepeatable, hv]; rfl
    exact Migration.isRepeatable_of_isLE (hleast.least a ha b hb hab) hfirst

/-- No plan is made exactly if some of the found migrations contradict each other. -/
theorem ofFound_eq_error_iff {found : List Migration} :
    (∃ e, ofFound found = .error e) ↔ ∃ a ∈ found, ∃ b ∈ found, a.Contradicts b := by
  constructor
  · rintro ⟨e, he⟩
    obtain ⟨first, second, hleast, -⟩ := exists_leastConflict_of_ofFound he
    exact ⟨first, hleast.first_mem, second, hleast.second_mem, hleast.contradicts⟩
  · rintro ⟨a, ha, b, hb, hcmp, hsame⟩
    cases hfound : ofFound found with
    | error e => exact ⟨e, rfl⟩
    | ok plan =>
      obtain ⟨-, hstrict⟩ := ofFound_eq_ok_iff.1 hfound
      obtain ⟨v, hv, hva⟩ := exists_mem_candidates ha
      obtain ⟨w, hw, hwb⟩ := exists_mem_candidates hb
      exact absurd ⟨hcmp, hsame⟩ (not_contradicts_of_same hstrict hv hw hva hwb)

end Plan

end SchemaPlan
