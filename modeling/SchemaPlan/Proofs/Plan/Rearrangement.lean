import SchemaPlan.Proofs.Location.Roots
import SchemaPlan.Proofs.Plan.Building
import SchemaPlan.Proofs.Plan.Passes
import SchemaPlan.Proofs.Resolver.Sql
import SchemaPlan.Proofs.Resolver.Units

/-!
# Plans of rearranged parts

Two composite resolvers are built of the same parts, but with the locations, the code units and the
extra resolvers in another order. Then each resolver of the one has a counterpart in the other that
answers alike (`Mirrors`), so both find the same migrations, though not in the same order. What
plans and conflicts depend on is only which migrations were found: plans of the same migrations are
duplicates element by element (`forall₂_same_of_ofFound`), and conflicts lie in the same place
(`sameConflict_of_ofFound`).
-/

namespace SchemaPlan

open Std

namespace Plan

/-! ### Plans of the same migrations -/

/-- What has a duplicate in a list that ascends strictly does not come before its head. -/
theorem isLE_of_exists_same {a b : Migration} {ns : List Migration}
    (hns : (b :: ns).Pairwise fun a b => a.cmp b = .lt) (h : ∃ y ∈ b :: ns, a.same y) :
    (b.cmp a).isLE := by
  obtain ⟨y, hy, hay⟩ := h
  exact Migration.isLE_of_exists_cmp_eq (hns.imp Ordering.isLE_of_eq_lt)
    ⟨y, hy, Migration.cmp_eq_of_same hay⟩

/-- With the heads, which are in one place, no other migration loses its duplicate. -/
theorem exists_same_of_cons {a b : Migration} {ms ns : List Migration}
    (hms : (a :: ms).Pairwise fun a b => a.cmp b = .lt) (hab : a.cmp b = .eq)
    (h : ∀ x ∈ a :: ms, ∃ y ∈ b :: ns, x.same y) : ∀ x ∈ ms, ∃ y ∈ ns, x.same y := by
  intro x hx
  obtain ⟨y, hy, hxy⟩ := h x (List.mem_cons_of_mem _ hx)
  rcases List.mem_cons.1 hy with rfl | hy
  · have hax : a.cmp x = .eq :=
      TransCmp.eq_trans hab (OrientedCmp.eq_symm (Migration.cmp_eq_of_same hxy))
    rw [(List.pairwise_cons.1 hms).1 x hx] at hax
    cases hax
  · exact ⟨y, hy, hxy⟩

/-- Two lists that ascend strictly and have a duplicate of each migration of the other agree element
by element. -/
theorem forall₂_same {ms ns : List Migration} (hms : ms.Pairwise fun a b => a.cmp b = .lt)
    (hns : ns.Pairwise fun a b => a.cmp b = .lt) (h : ∀ a ∈ ms, ∃ b ∈ ns, a.same b)
    (h' : ∀ b ∈ ns, ∃ a ∈ ms, b.same a) : List.Forall₂ (fun a b => a.same b) ms ns := by
  induction ms generalizing ns with
  | nil =>
    cases ns with
    | nil => exact .nil
    | cons b ns => obtain ⟨a, ha, -⟩ := h' b List.mem_cons_self; cases ha
  | cons a ms ih =>
    cases ns with
    | nil => obtain ⟨b, hb, -⟩ := h a List.mem_cons_self; cases hb
    | cons b ns =>
      have hab : a.cmp b = .eq :=
        OrientedCmp.isLE_antisymm (isLE_of_exists_same hms (h' b List.mem_cons_self))
          (isLE_of_exists_same hns (h a List.mem_cons_self))
      have hsame : a.same b := by
        obtain ⟨y, hy, hay⟩ := h a List.mem_cons_self
        have hby : b.cmp y = .eq :=
          TransCmp.eq_trans (OrientedCmp.eq_symm hab) (Migration.cmp_eq_of_same hay)
        rwa [eq_of_cmp_eq hns List.mem_cons_self hy hby]
      exact .cons hsame (ih (List.pairwise_cons.1 hms).2 (List.pairwise_cons.1 hns).2
        (exists_same_of_cons hms hab h) (exists_same_of_cons hns (OrientedCmp.eq_symm hab) h'))

/-- Plans of the same migrations, in whatever order these were found, agree element by element. -/
theorem forall₂_same_of_ofFound {found found' : List Migration} {plan plan' : Plan}
    (hmem : ∀ m, m ∈ found ↔ m ∈ found') (h : ofFound found = .ok plan)
    (h' : ofFound found' = .ok plan') :
    List.Forall₂ (fun m m' => m.same m') plan.migrations plan'.migrations := by
  obtain ⟨hplan, hstrict⟩ := ofFound_eq_ok_iff.1 h
  obtain ⟨hplan', hstrict'⟩ := ofFound_eq_ok_iff.1 h'
  have hpartner : ∀ {fs gs : List Migration}, (∀ m, m ∈ fs → m ∈ gs) →
      ∀ a ∈ candidates fs, ∃ b ∈ candidates gs, a.same b := by
    intro fs gs hsub a ha
    obtain ⟨b, hb, hba⟩ := exists_mem_candidates (hsub a (mem_of_mem_candidates ha))
    exact ⟨b, hb, Migration.equivalence_same.symm hba⟩
  rw [hplan, hplan']
  exact forall₂_same hstrict hstrict' (hpartner fun m => (hmem m).1) (hpartner fun m => (hmem m).2)

/-- Whether a plan can be made does not depend on the order. -/
theorem exists_ofFound_eq_error_of_mem_iff {found found' : List Migration}
    (hmem : ∀ m, m ∈ found ↔ m ∈ found') :
    (∃ e, ofFound found = .error e) ↔ ∃ e, ofFound found' = .error e := by
  simp only [ofFound_eq_error_iff, hmem]

/-- Least contradictions among the same migrations are in one place. -/
theorem LeastConflict.cmp_eq {found found' : List Migration}
    {first second first' second' : Migration} (hmem : ∀ m, m ∈ found ↔ m ∈ found')
    (h : LeastConflict found first second) (h' : LeastConflict found' first' second') : first.cmp first' = .eq :=
  OrientedCmp.isLE_antisymm
    (h.least first' ((hmem _).2 h'.first_mem) second' ((hmem _).2 h'.second_mem) h'.contradicts)
    (h'.least first ((hmem _).1 h.first_mem) second ((hmem _).1 h.second_mem) h.contradicts)

/-- Two errors report conflicts in one place: of versions that are equal by their numbers, or of
repeatable migrations with the same description. -/
inductive SameConflict (found found' : List Migration) : PlanError → PlanError → Prop where
  /-- Versions that are equal by their numbers, each as it is written in its own first migration. -/
  | versions {first second first' second' : Migration} {v v' : Version} :
      LeastConflict found first second → LeastConflict found' first' second' →
      first.version = some v → first'.version = some v' → v.same v' →
      SameConflict found found' (.versionConflict v.text first.offender second.offender)
        (.versionConflict v'.text first'.offender second'.offender)
  /-- Repeatable migrations with the same description. -/
  | repeatables {first second first' second' : Migration} {description : String} :
      LeastConflict found first second → LeastConflict found' first' second' →
      first.version = none → first'.version = none →
      first.description = description → first'.description = description →
      SameConflict found found' (.repeatableConflict description first.offender second.offender)
        (.repeatableConflict description first'.offender second'.offender)

/-- Conflicts among the same migrations, in whatever order these were found, are in one place. -/
theorem sameConflict_of_ofFound {found found' : List Migration} {e e' : PlanError}
    (hmem : ∀ m, m ∈ found ↔ m ∈ found') (h : ofFound found = .error e)
    (h' : ofFound found' = .error e') : SameConflict found found' e e' := by
  obtain ⟨first, second, hleast, rfl⟩ := exists_leastConflict_of_ofFound h
  obtain ⟨first', second', hleast', rfl⟩ := exists_leastConflict_of_ofFound h'
  rcases Migration.cmp_eq_eq_iff.1 (hleast.cmp_eq hmem hleast') with
    ⟨v, v', hv, hv', hsame⟩ | ⟨hv, hv', hdescription⟩
  · rw [conflict, conflict, hv, hv']
    exact .versions hleast hleast' hv hv' hsame
  · rw [conflict, conflict, hv, hv', hdescription]
    exact .repeatables hleast hleast' hv hv' hdescription rfl

end Plan

/-- A resolver finds the same whatever the settings. -/
def Resolver.IgnoresSettings (r : Resolver) : Prop :=
  ∀ settings settings' storage,
    (r.resolve settings storage).result = (r.resolve settings' storage).result

/-! ### Answers -/

/-- Two answers of resolvers are alike: both are failures, or both find the same migrations in
whatever order. -/
structure Alike (answer answer' : Except PlanError (List Migration)) : Prop where
  ok_iff : (∃ found, answer = .ok found) ↔ ∃ found', answer' = .ok found'
  mem_iff : ∀ {found found'}, answer = .ok found → answer' = .ok found' →
    ∀ m, m ∈ found ↔ m ∈ found'

theorem Alike.refl (answer : Except PlanError (List Migration)) : Alike answer answer where
  ok_iff := Iff.rfl
  mem_iff h h' m := by
    rw [h] at h'
    cases h'
    rfl

/-- Resolvers of code units that are bound to one location answer alike if they differ only in the
order of registration and in settings that units are not read by. -/
theorem alike_resolve {r r' : UnitResolver} {l : Location} (hl : r.location? = some l)
    (hl' : r'.location? = some l)
    (hunits : (r.units.ofKind r.kind).Perm (r'.units.ofKind r'.kind))
    (hmigration : ∀ u : CodeUnit,
      u.migration r.issued.config r.kind = u.migration r'.issued.config r'.kind) :
    Alike r.resolve.result r'.resolve.result := by
  have hwithin : ∀ u, u ∈ r.units.within r.kind l ↔ u ∈ r'.units.within r'.kind l := fun u =>
    (hunits.filter _).mem_iff
  constructor
  · rw [UnitResolver.exists_resolve_iff hl, UnitResolver.exists_resolve_iff hl']
    simp only [hwithin, hmigration]
  · intro found found' h h' m
    rw [UnitResolver.mem_of_resolve hl h, UnitResolver.mem_of_resolve hl' h']
    simp only [hwithin, hmigration]

namespace SqlResolver

/-- A resolver that is bound to a location does not look at the configured ones. -/
theorem resolve_forLocation {issued issued' : IssuedConfig}
    (h : issued'.config = { issued.config with locations := issued'.config.locations })
    (scanner : Scanner) (l : Location) (replacer : Option Replacer) (storage : Storage) :
    resolve { forLocation l scanner issued' with replacer? := replacer } storage =
      resolve { forLocation l scanner issued with replacer? := replacer } storage := by
  obtain ⟨revision, config⟩ := issued
  obtain ⟨revision', config'⟩ := issued'
  generalize config'.locations = ls at h
  cases h
  rfl

end SqlResolver

namespace Composite

/-- Each resolver of `c` has one of `d` that answers alike. -/
def Mirrors (c d : Composite) (storage : Storage) : Prop :=
  ∀ r ∈ c.resolvers, ∃ s ∈ d.resolvers,
    Alike (r.resolve c.settings storage).result (s.resolve d.settings storage).result

theorem Mirrors.mem_flatten {c d : Composite} {storage : Storage} (h : c.Mirrors d storage)
    {founds founds' : List (List Migration)} (hc : c.Finds storage founds)
    (hd : d.Finds storage founds') {m : Migration} (hm : m ∈ founds.flatten) :
    m ∈ founds'.flatten := by
  rw [mem_flatten_of_finds hc] at hm
  obtain ⟨r, hr, found, hfound, hm⟩ := hm
  obtain ⟨s, hs, halike⟩ := h r hr
  obtain ⟨found', hfound'⟩ := halike.ok_iff.1 ⟨found, hfound⟩
  exact (mem_flatten_of_finds hd).2 ⟨s, hs, found', hfound', (halike.mem_iff hfound hfound' m).1 hm⟩

/-- Of two composite resolvers that mirror each other, both find the same migrations if one of them
finds some without failing. -/
theorem Mirrors.exists_finds {c d : Composite} {storage : Storage} (hcd : c.Mirrors d storage)
    (hdc : d.Mirrors c storage) {founds : List (List Migration)} (hc : c.Finds storage founds) :
    ∃ founds', d.Finds storage founds' ∧ ∀ m, m ∈ founds.flatten ↔ m ∈ founds'.flatten := by
  obtain ⟨founds', hd⟩ : ∃ founds', d.Finds storage founds' := by
    have hall := exists_finds_iff.1 ⟨founds, hc⟩
    refine exists_finds_iff.2 fun s hs => ?_
    obtain ⟨r, hr, halike⟩ := hdc s hs
    exact halike.ok_iff.2 (hall r hr)
  exact ⟨founds', hd, fun m => ⟨hcd.mem_flatten hc hd, hdc.mem_flatten hd hc⟩⟩

/-- What a planner answers that has no plan yet. -/
def answer (c : Composite) (storage : Storage) : Except PlanError Plan :=
  (({ composite := c } : Planner).resolve storage).value.1

theorem answer_eq (c : Composite) (storage : Storage) :
    c.answer storage = (c.makePlan storage).result :=
  (Planner.resolve_of_eq_none rfl storage).1

theorem answer_of_finds {c : Composite} {storage : Storage} {founds : List (List Migration)}
    (h : c.Finds storage founds) : c.answer storage = Plan.ofFound founds.flatten := by
  rw [answer_eq, result_makePlan h]

theorem Mirrors.exists_answer {c d : Composite} {storage : Storage} (hcd : c.Mirrors d storage)
    (hdc : d.Mirrors c storage) {plan : Plan} (hplan : c.answer storage = .ok plan) :
    ∃ plan', d.answer storage = .ok plan' := by
  obtain ⟨founds, hc⟩ := finds_of_result_makePlan ((answer_eq c storage).symm.trans hplan)
  obtain ⟨founds', hd, hmem⟩ := hcd.exists_finds hdc hc
  rw [answer_of_finds hc] at hplan
  rw [answer_of_finds hd]
  cases hplan' : Plan.ofFound founds'.flatten with
  | ok plan' => exact ⟨plan', rfl⟩
  | error e =>
    obtain ⟨e', he'⟩ := (Plan.exists_ofFound_eq_error_of_mem_iff hmem).2 ⟨e, hplan'⟩
    rw [hplan] at he'
    cases he'

/-! ### Rearranged parts -/

/-- Two composite resolvers are to be built of the same parts, which differ only in the order of
locations, code units and extra resolvers. Named resolvers are made without regard to that order. -/
structure Rearranged (a b : CompositeParts) : Prop where
  config : b.issued.config = { a.issued.config with locations := b.issued.config.locations }
  locations : a.issued.config.locations.Perm b.issued.config.locations
  scanner : a.scanner = b.scanner
  code : a.units.code.Perm b.units.code
  statements : a.units.statements.Perm b.units.statements
  extras : a.extras.Perm b.extras
  named : ∀ name ∈ a.issued.config.resolvers,
    a.registry.make name a.issued.config = b.registry.make name b.issued.config

/-- The extra resolvers, be they given directly or made by name, find the same whatever the settings.
-/
structure ExtrasIgnoreSettings (parts : CompositeParts) : Prop where
  direct : ∀ r ∈ parts.extras, r.IgnoresSettings
  named : ∀ name ∈ parts.issued.config.resolvers, ∀ r,
    parts.registry.make name parts.issued.config = .ok r → r.IgnoresSettings

namespace Rearranged

variable {a b : CompositeParts}

theorem resolvers_eq (h : Rearranged a b) :
    b.issued.config.resolvers = a.issued.config.resolvers := by
  rw [h.config]

theorem symm (h : Rearranged a b) : Rearranged b a where
  config := by rw [h.config]
  locations := h.locations.symm
  scanner := h.scanner.symm
  code := h.code.symm
  statements := h.statements.symm
  extras := h.extras.symm
  named name hname := (h.named name (h.resolvers_eq ▸ hname)).symm

theorem extrasIgnoreSettings (h : Rearranged a b) (ha : ExtrasIgnoreSettings a) :
    ExtrasIgnoreSettings b where
  direct r hr := ha.direct r (h.extras.mem_iff.2 hr)
  named name hname r hr := by
    rw [h.resolvers_eq] at hname
    exact ha.named name hname r ((h.named name hname).trans hr)

theorem sharedReplacer_eq (h : Rearranged a b) :
    sharedReplacer a.issued.config = sharedReplacer b.issued.config := by
  rw [h.config]
  rfl

theorem namedResolvers_eq (h : Rearranged a b) :
    namedResolvers a.registry a.issued.config = namedResolvers b.registry b.issued.config := by
  unfold namedResolvers
  rw [h.resolvers_eq]
  exact Traversal.mapM_congr h.named

/-- Of rearranged parts a composite resolver can be built as well. -/
theorem exists_build (h : Rearranged a b) {c : Composite} (hc : (build a).result = .ok c) :
    ∃ d, (build b).result = .ok d := by
  obtain ⟨hmarks, roots, replacer, named, hroots, hreplacer, hnamed, -⟩ :=
    result_build_eq_ok_iff.1 hc
  obtain ⟨roots', hroots', -⟩ := Location.exists_parseRoots_of_perm h.locations hroots
  have hmarks' : b.issued.config.checkMarks = .ok () := by
    rw [h.config]
    exact hmarks
  exact ⟨_, result_build_eq_ok_iff.2 ⟨hmarks', roots', replacer, named, hroots',
    h.sharedReplacer_eq ▸ hreplacer, h.namedResolvers_eq ▸ hnamed, rfl⟩⟩

/-- The default resolvers of a location answer alike. -/
theorem exists_alike_of_mem_resolversOf (h : Rearranged a b) {replacer : Option Replacer}
    {l : Location} {r : Resolver} (hr : r ∈ resolversOf a replacer l) (storage : Storage) :
    ∃ s ∈ resolversOf b replacer l,
      Alike (r.resolve ⟨a.issued, a.database⟩ storage).result
        (s.resolve ⟨b.issued, b.database⟩ storage).result := by
  have hmigration : ∀ (kind : UnitKind) (u : CodeUnit),
      u.migration a.issued.config kind = u.migration b.issued.config kind := by
    intro kind u
    rw [h.config]
    rfl
  rcases List.mem_cons.1 hr with rfl | hr
  · refine ⟨_, List.mem_cons_self, ?_⟩
    rw [SqlResolver.resolve_toResolver rfl, SqlResolver.resolve_toResolver rfl, ← h.scanner,
      SqlResolver.resolve_forLocation h.config]
    exact .refl _
  rcases List.mem_cons.1 hr with rfl | hr
  · refine ⟨_, List.mem_cons_of_mem _ List.mem_cons_self, ?_⟩
    exact alike_resolve rfl rfl h.code (hmigration .code)
  · rw [List.mem_singleton] at hr
    subst hr
    refine ⟨_, List.mem_cons_of_mem _ (List.mem_cons_of_mem _ List.mem_cons_self), ?_⟩
    exact alike_resolve rfl rfl h.statements (hmigration .statements)

/-- Each resolver of the one composite resolver has a counterpart in the other. -/
theorem mirrors (h : Rearranged a b) (ha : ExtrasIgnoreSettings a) {c d : Composite}
    (hc : (build a).result = .ok c) (hd : (build b).result = .ok d) (storage : Storage) :
    c.Mirrors d storage := by
  obtain ⟨-, roots, replacer, named, hroots, hreplacer, hnamed, rfl⟩ := result_build_eq_ok_iff.1 hc
  obtain ⟨-, roots', replacer', named', hroots', hreplacer', hnamed', rfl⟩ :=
    result_build_eq_ok_iff.1 hd
  rw [← h.sharedReplacer_eq, hreplacer] at hreplacer'
  rw [← h.namedResolvers_eq, hnamed] at hnamed'
  cases hreplacer'
  cases hnamed'
  obtain ⟨roots'', hroots'', hmem⟩ := Location.exists_parseRoots_of_perm h.locations hroots
  have heq : roots'' = roots' := Except.ok.inj (hroots''.symm.trans hroots')
  subst heq
  intro r hr
  simp only [List.mem_append] at hr ⊢
  rcases hr with (hr | hr) | hr
  · unfold defaultResolvers at hr
    split at hr
    · cases hr
    · next hskip =>
      obtain ⟨l, hl, hr⟩ := List.mem_flatMap.1 hr
      obtain ⟨s, hs, halike⟩ := h.exists_alike_of_mem_resolversOf hr storage
      refine ⟨s, .inl (.inl ?_), halike⟩
      rw [defaultResolvers, h.config, if_neg hskip]
      exact List.mem_flatMap.2 ⟨l, (hmem l).1 hl, hs⟩
  · refine ⟨r, .inl (.inr (h.extras.mem_iff.1 hr)), ?_⟩
    rw [ha.direct r hr _ ⟨b.issued, b.database⟩ storage]
    exact .refl _
  · obtain ⟨name, hname, hmade⟩ := (Traversal.mem_of_mapM_eq_ok hnamed).1 hr
    refine ⟨r, .inr hr, ?_⟩
    rw [ha.named name hname r hmade _ ⟨b.issued, b.database⟩ storage]
    exact .refl _

end Rearranged

/-- Two composite resolvers agree in some storage on whether a plan can be made, on the plan, and on
the place of the conflict if there is one. -/
structure Agree (c d : Composite) (storage : Storage) : Prop where
  /-- Both make a plan, or neither does. -/
  ok_iff : (∃ plan, c.answer storage = .ok plan) ↔ ∃ plan, d.answer storage = .ok plan
  /-- The plans are duplicates element by element. -/
  plans : ∀ {plan plan'}, c.answer storage = .ok plan → d.answer storage = .ok plan' →
    List.Forall₂ (fun m m' => m.same m') plan.migrations plan'.migrations
  /-- If no resolver of the one fails none of the other does, and the errors report conflicts in one
  place. -/
  conflicts : ∀ {founds}, c.Finds storage founds →
    ∃ founds', d.Finds storage founds' ∧ ∀ {e e'}, c.answer storage = .error e →
      d.answer storage = .error e' → Plan.SameConflict founds.flatten founds'.flatten e e'

theorem Mirrors.agree {c d : Composite} {storage : Storage} (hcd : c.Mirrors d storage)
    (hdc : d.Mirrors c storage) : c.Agree d storage where
  ok_iff := ⟨fun ⟨_, hplan⟩ => hcd.exists_answer hdc hplan,
    fun ⟨_, hplan⟩ => hdc.exists_answer hcd hplan⟩
  plans hplan hplan' := by
    obtain ⟨founds, hfounds⟩ := finds_of_result_makePlan ((answer_eq c storage).symm.trans hplan)
    obtain ⟨founds', hfounds', hmem⟩ := hcd.exists_finds hdc hfounds
    rw [answer_of_finds hfounds] at hplan
    rw [answer_of_finds hfounds'] at hplan'
    exact Plan.forall₂_same_of_ofFound hmem hplan hplan'
  conflicts hfounds := by
    obtain ⟨founds', hfounds', hmem⟩ := hcd.exists_finds hdc hfounds
    refine ⟨founds', hfounds', fun he he' => ?_⟩
    rw [answer_of_finds hfounds] at he
    rw [answer_of_finds hfounds'] at he'
    exact Plan.sameConflict_of_ofFound hmem he he'

/-- **The order of parts does not matter.** If a composite resolver can be built of some parts, then
one can be built of the same parts in another order, and the two agree in any storage. -/
theorem agree_of_rearranged {a b : CompositeParts} (h : Rearranged a b)
    (ha : ExtrasIgnoreSettings a) {c : Composite} (hc : (build a).result = .ok c) :
    ∃ d, (build b).result = .ok d ∧ ∀ storage, c.Agree d storage := by
  obtain ⟨d, hd⟩ := h.exists_build hc
  refine ⟨d, hd, fun storage => ?_⟩
  have hcd : c.Mirrors d storage := h.mirrors ha hc hd storage
  have hdc : d.Mirrors c storage := h.symm.mirrors (h.extrasIgnoreSettings ha) hd hc storage
  exact hcd.agree hdc

/-- A code unit that is named by its version. -/
def sampleUnit (package name : String) : CodeUnit :=
  { package := .embedded package, name, scripts := ["SELECT 1"], origin := package }

/-- Parts with embedded locations, code units and extra resolvers. -/
def sampleParts (locations : List String) (code : List CodeUnit) (extras : List (List Migration)) :
    CompositeParts where
  issued := ⟨1, { Config.standard with locations, replacePlaceholders := false }⟩
  units := { code }
  extras := extras.map .finding

/-- Three locations, one of them nested, with units and extra resolvers in some order. -/
def straight : CompositeParts :=
  sampleParts ["embedded:app", "embedded:db", "embedded:app.core"]
    [sampleUnit "app/core" "V1__Users", sampleUnit "db" "V2__Orders"]
    [[Planner.sampleScript "a" none "view" 3], [Planner.sampleScript "b" none "view" 3]]

/-- The same in another order. -/
def rotated : CompositeParts :=
  sampleParts ["embedded:app.core", "embedded:app", "embedded:db"]
    [sampleUnit "db" "V2__Orders", sampleUnit "app/core" "V1__Users"]
    [[Planner.sampleScript "b" none "view" 3], [Planner.sampleScript "a" none "view" 3]]

theorem agree_rotated :
    Rearranged straight rotated ∧ ExtrasIgnoreSettings straight ∧
      ∃ c, (build straight).result = .ok c ∧
        ∃ d, (build rotated).result = .ok d ∧ ∀ storage, c.Agree d storage := by
  have h : Rearranged straight rotated :=
    { config := rfl
      locations := by decide
      scanner := rfl
      code := by decide
      statements := .refl _
      extras := .swap _ _ _
      named := fun _ hname => absurd hname List.not_mem_nil }
  have hextras : ExtrasIgnoreSettings straight :=
    { direct := fun r hr => by
        obtain ⟨found, -, rfl⟩ := List.mem_map.1 hr
        exact fun _ _ _ => rfl
      named := fun _ hname => absurd hname List.not_mem_nil }
  have hroots : straight.issued.config.roots.result =
      .ok [.embedded "app", .embedded "db"] := by cbv
  have hbuild := result_build_eq_ok_iff.2 ⟨rfl, _, none, [], hroots, rfl, rfl, rfl⟩
  exact ⟨h, hextras, _, hbuild, agree_of_rearranged h hextras hbuild⟩

end Composite

end SchemaPlan
