import SchemaPlan.Proofs.Plan.Passes
import SchemaPlan.Proofs.Version.Numbers

/-!
# What a plan says when it is asked

A plan that was made ascends strictly. So the last of its versions is the highest one
(`Ascends.isLE_of_latest`), and no two of its migrations have versions that are equal by their
numbers: what is found for a version is all that there is of it (`Ascends.ofVersion_eq_toList`), in
whatever way the version is written.
-/

namespace SchemaPlan

open Std

namespace Plan

variable {plan : Plan} {m : Migration} {v w : Version}

/-- Each migration of a plan comes before all that stand behind it. -/
def Ascends (plan : Plan) : Prop := plan.migrations.Pairwise fun a b => a.cmp b = .lt

/-- The migrations of a version, which counts by its numbers. -/
def ofVersion (plan : Plan) (v : Version) : List Migration :=
  plan.migrations.filter fun m => Version.sameOptional m.version (some v)

theorem sameOptional_some_iff {v? : Option Version} :
    Version.sameOptional v? (some v) ↔ ∃ w, v? = some w ∧ w.same v := by
  cases v? with
  | none => exact iff_of_false (by rintro ⟨⟩) (by rintro ⟨w, ⟨⟩, -⟩)
  | some w => exact ⟨fun h => ⟨w, rfl, h⟩, fun ⟨_, hw, h⟩ => Option.some.inj hw ▸ h⟩

theorem mem_ofVersion_iff :
    m ∈ plan.ofVersion v ↔ m ∈ plan.migrations ∧ ∃ w, m.version = some w ∧ w.same v := by
  rw [ofVersion, List.mem_filter, sameOptional_some_iff]

theorem mem_versioned_iff :
    m ∈ plan.versioned ↔ m ∈ plan.migrations ∧ ∃ v, m.version = some v := by
  rw [versioned, List.mem_filter, Migration.isRepeatable]
  cases m.version <;> simp

/-! ### The highest version -/

/-- The highest version is that of a migration which no other one with a version stands behind. -/
theorem latest_eq_some_iff :
    plan.latest = some v ↔ ∃ m before, plan.versioned = before ++ [m] ∧ m.version = some v := by
  simp only [latest, Option.bind_eq_some_iff, List.getLast?_eq_some_iff, exists_and_right]

theorem latest_eq_none_iff : plan.latest = none ↔ ∀ m ∈ plan.migrations, m.version = none := by
  constructor
  · intro h m hm
    by_contra hversion
    have hmem : m ∈ plan.versioned :=
      mem_versioned_iff.2 ⟨hm, Option.ne_none_iff_exists'.1 hversion⟩
    obtain ⟨before, last, hlast⟩ := (List.eq_nil_or_concat plan.versioned).resolve_left
      (List.ne_nil_of_mem hmem)
    rw [List.concat_eq_append] at hlast
    have hlastMem : last ∈ plan.versioned := hlast ▸ List.mem_append_right _ List.mem_cons_self
    obtain ⟨-, v, hv⟩ := mem_versioned_iff.1 hlastMem
    rw [latest_eq_some_iff.2 ⟨last, before, hlast, hv⟩] at h
    cases h
  · intro h
    refine Option.eq_none_iff_forall_ne_some.2 fun v hv => ?_
    obtain ⟨m, before, hversioned, hm⟩ := latest_eq_some_iff.1 hv
    have hmem : m ∈ plan.versioned := hversioned ▸ List.mem_append_right _ List.mem_cons_self
    rw [h m (mem_versioned_iff.1 hmem).1] at hm
    cases hm

theorem exists_mem_of_latest (h : plan.latest = some v) :
    ∃ m ∈ plan.migrations, m.version = some v := by
  obtain ⟨m, before, hversioned, hm⟩ := latest_eq_some_iff.1 h
  have hmem : m ∈ plan.versioned := hversioned ▸ List.mem_append_right _ List.mem_cons_self
  exact ⟨m, (mem_versioned_iff.1 hmem).1, hm⟩

theorem Ascends.isLE_of_latest (h : plan.Ascends) (hlatest : plan.latest = some v)
    (hm : m ∈ plan.migrations) (hw : m.version = some w) : (w.cmp v).isLE := by
  obtain ⟨last, before, hversioned, hv⟩ := latest_eq_some_iff.1 hlatest
  have hascends : plan.versioned.Pairwise fun a b => a.cmp b = .lt := List.Pairwise.filter _ h
  have hmem : m ∈ plan.versioned := mem_versioned_iff.2 ⟨hm, w, hw⟩
  rw [hversioned] at hascends hmem
  rw [← Migration.cmp_of_versions hw hv]
  rcases List.mem_append.1 hmem with hmem | hmem
  · have hlt := (List.pairwise_append.1 hascends).2.2 m hmem last (List.mem_singleton_self last)
    exact Ordering.isLE_of_eq_lt hlt
  · rw [List.mem_singleton.1 hmem]
    exact ReflCmp.isLE_rfl

/-! ### The migration of a version -/

/-- What is found for a version is the first migration of it. -/
theorem find?_eq_head? (plan : Plan) (v : Version) : plan.find? v = (plan.ofVersion v).head? := by
  rw [find?, ← List.head?_filter, versioned, List.filter_filter, ofVersion]
  refine congrArg List.head? (List.filter_congr fun m _ => ?_)
  cases hversion : m.version with
  | none => rfl
  | some w => simp [Migration.isRepeatable, hversion]

theorem Ascends.ofVersion_eq_toList (h : plan.Ascends) (v : Version) :
    plan.ofVersion v = (plan.find? v).toList := by
  have hascends : (plan.ofVersion v).Pairwise fun a b => a.cmp b = .lt := List.Pairwise.filter _ h
  rw [find?_eq_head?]
  match hlist : plan.ofVersion v with
  | [] => rfl
  | [m] => rfl
  | a :: b :: rest =>
    -- two migrations of one version are in one place, where neither comes before the other
    have ha : a ∈ plan.ofVersion v := hlist ▸ List.mem_cons_self
    have hb : b ∈ plan.ofVersion v := hlist ▸ List.mem_cons_of_mem a List.mem_cons_self
    obtain ⟨-, w, hw, hwv⟩ := mem_ofVersion_iff.1 ha
    obtain ⟨-, u, hu, huv⟩ := mem_ofVersion_iff.1 hb
    rw [hlist] at hascends
    have hlt := (List.pairwise_cons.1 hascends).1 b List.mem_cons_self
    rw [Migration.cmp_of_versions hw hu, TransCmp.eq_trans (Version.same_iff.1 hwv)
      (OrientedCmp.eq_symm (Version.same_iff.1 huv))] at hlt
    cases hlt

theorem Ascends.find?_eq_some_iff (h : plan.Ascends) :
    plan.find? v = some m ↔ m ∈ plan.migrations ∧ ∃ w, m.version = some w ∧ w.same v := by
  rw [← mem_ofVersion_iff, h.ofVersion_eq_toList, Option.mem_toList]

/-! ### Answers -/

/-- The answers of a plan are those of the migrations in it. -/
structure Answers (plan : Plan) : Prop where
  /-- The migrations with a version come first, and the repeatable ones behind them. -/
  parts : plan.migrations = plan.versioned ++ plan.repeatable
  /-- There is no highest version exactly if there is no version. -/
  latest_none : plan.latest = none ↔ ∀ m ∈ plan.migrations, m.version = none
  /-- The highest version is one of the plan, and no other one is higher. -/
  latest_some {v : Version} : plan.latest = some v →
    (∃ m ∈ plan.migrations, m.version = some v) ∧
      ∀ m ∈ plan.migrations, ∀ w, m.version = some w → (w.cmp v).isLE
  /-- No version is written with higher numbers than the highest one. -/
  latest_numbers {v w : Version} {text text' : String} {m : Migration} :
    plan.latest = some v → Version.parse text = .ok v → m ∈ plan.migrations →
      m.version = some w → Version.parse text' = .ok w →
        Version.numbers text' ≤ Version.numbers text
  /-- A migration is found exactly if it has the version, which counts by its numbers. -/
  find_iff {v : Version} {m : Migration} :
    plan.find? v = some m ↔ m ∈ plan.migrations ∧ ∃ w, m.version = some w ∧ w.same v
  /-- A migration is found however the numbers of its version are written. -/
  find_numbers {v w : Version} {text text' : String} {m : Migration} :
    Version.parse text = .ok v → m ∈ plan.migrations → m.version = some w →
      Version.parse text' = .ok w →
        (plan.find? v = some m ↔ Version.numbers text' = Version.numbers text)
  /-- What is found is the only migration of the version. -/
  find_only {v : Version} {m : Migration} : plan.find? v = some m → plan.ofVersion v = [m]

theorem Ascends.answers (h : plan.Ascends) : plan.Answers where
  parts := eq_filter_append_filter (h.imp Ordering.isLE_of_eq_lt)
  latest_none := latest_eq_none_iff
  latest_some hlatest :=
    ⟨exists_mem_of_latest hlatest, fun _ hm _ hw => h.isLE_of_latest hlatest hm hw⟩
  latest_numbers hlatest hv hm hw htext := by
    have hle := h.isLE_of_latest hlatest hm hw
    exact (Version.cmp_compares_numbers htext hv).ne_gt.1 (Ordering.isLE_iff_ne_gt.1 hle)
  find_iff := h.find?_eq_some_iff
  find_numbers hv hm hw htext := by
    rw [h.find?_eq_some_iff, ← (Version.cmp_compares_numbers htext hv).eq_eq, ← Version.same_iff]
    constructor
    · rintro ⟨-, w', hw', hsame⟩
      rw [hw] at hw'
      cases hw'
      exact hsame
    · exact fun hsame => ⟨hm, _, hw, hsame⟩
  find_only hfind := by rw [h.ofVersion_eq_toList, hfind, Option.toList_some]

end Plan

namespace Planner

/-- Whatever plan a planner gives was made by its composite resolver, and so it ascends. -/
theorem ascends_of_resolve {c : Composite} {earlier : List Storage} {storage : Storage}
    {plan : Plan}
    (h : ((({ composite := c } : Planner).after earlier).resolve storage).value.1 = .ok plan) :
    plan.Ascends := by
  have hkept : (({ composite := c } : Planner).after (earlier ++ [storage])).plan? = some plan :=
    plan?_after_of_ok h
  obtain hnone | ⟨world, -, hmade⟩ := exists_makePlan_of_after hkept
  · cases hnone
  · obtain ⟨founds, hfounds⟩ := Composite.finds_of_result_makePlan hmade
    rw [Composite.result_makePlan hfounds] at hmade
    obtain ⟨hplan, hascends⟩ := Plan.ofFound_eq_ok_iff.1 hmade
    rwa [← hplan] at hascends

/-- **Questions about a plan**: whatever plan a planner gives, at whatever call, has the migrations
with a version in front and the repeatable ones behind them; its highest version is missing exactly
if it has none, and no version in it is higher; and for any version, however it is written, it finds
the one migration that has this version. -/
theorem answers_of_resolve (c : Composite) (earlier : List Storage) (storage : Storage)
    (plan : Plan)
    (h : ((({ composite := c } : Planner).after earlier).resolve storage).value.1 = .ok plan) :
    plan.Answers :=
  (ascends_of_resolve h).answers

theorem answers_planOfCopied :
    planOfCopied.Answers ∧
      planOfCopied.find? ⟨["1", "0", "0"], "01.0.00"⟩ =
        some (sampleScript "a" (some ⟨["1"], "1"⟩) "users" 1) := by
  have h : ((({ composite := .finding copied } : Planner).after [{}]).resolve {}).value.1 =
      .ok planOfCopied := by cbv
  have hanswers := answers_of_resolve (.finding copied) [{}] {} planOfCopied h
  exact ⟨hanswers, hanswers.find_iff.2 ⟨List.mem_cons_self, _, rfl, by decide⟩⟩

end Planner

end SchemaPlan
