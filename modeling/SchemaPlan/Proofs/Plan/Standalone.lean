import SchemaPlan.Proofs.Plan.Rearrangement

/-!
# One resolver of scripts for all locations

By default a composite resolver asks one resolver of scripts for each root. A single one that is
bound to no location and is given as an extra resolver does as well: it finds the same migrations,
sorted all together instead of root by root, and fails where the first of the others fails. Plans
see no difference, because only what stands in one place of the order decides, and in each place
both have the same migrations in the same order (`ofFound_sort_flatten`). Beside the default
resolvers it finds nothing new.
-/

namespace SchemaPlan

namespace Plan

/-- Plans depend only on which migrations were found first in each place. -/
theorem ofFound_congr {found found' : List Migration}
    (h : ∀ m : Migration, Distinct.firsts Migration.same (m.place found) =
      Distinct.firsts Migration.same (m.place found')) : ofFound found = ofFound found' := by
  have hcandidates : candidates found = candidates found' := by
    refine Migration.eq_of_place_eq (pairwise_candidates found) (pairwise_candidates found')
      fun m => ?_
    rw [place_candidates, place_candidates, h]
  rw [ofFound_eq, ofFound_eq, hcandidates]

/-- Migrations may be sorted list by list or all together. -/
theorem ofFound_sort_flatten (founds : List (List Migration)) :
    ofFound (Migration.sort founds.flatten) = ofFound (founds.map Migration.sort).flatten := by
  refine ofFound_congr fun m => ?_
  rw [Migration.place_sort, Migration.place_flatten_sort]

/-- Migrations that are found a second time, sorted all together, change nothing. -/
theorem ofFound_append_sort_flatten (founds : List (List Migration)) :
    ofFound ((founds.map Migration.sort).flatten ++ Migration.sort founds.flatten) =
      ofFound (founds.map Migration.sort).flatten := by
  have hsub : Migration.sort founds.flatten ⊆ (founds.map Migration.sort).flatten := by
    intro m hm
    obtain ⟨found, hfound, hm⟩ := List.mem_flatten.1 (Migration.mem_sort.1 hm)
    exact List.mem_flatten.2 ⟨_, List.mem_map.2 ⟨found, hfound, rfl⟩, Migration.mem_sort.2 hm⟩
  unfold ofFound
  rw [Distinct.firsts_append_of_subset Migration.same_self hsub]

end Plan

namespace Composite

/-- All that the resolvers find, one after the other, if none of them fails. -/
def found (c : Composite) (storage : Storage) : Except PlanError (List Migration) :=
  Traversal.gather (fun r => (r.resolve c.settings storage).result) c.resolvers

theorem answer_eq_found (c : Composite) (storage : Storage) :
    c.answer storage = c.found storage >>= Plan.ofFound := by
  rw [answer_eq, found, Traversal.gather]
  unfold makePlan
  rw [ResolveM.result_bind, ResolveM.result_mapM]
  simp only [result_ask, Plan.result_ofFoundM]
  cases c.resolvers.mapM fun r => (r.resolve c.settings storage).result <;> rfl

end Composite

namespace CompositeParts

/-- What comes of building a composite resolver and asking it for the plan. -/
def answer (parts : CompositeParts) (storage : Storage) : Except PlanError Plan :=
  (Composite.build parts).result >>= fun c => c.answer storage

/-- A composite resolver of these parts has its default resolvers and no others, and there are no
code units. -/
structure ScriptsOnly (parts : CompositeParts) : Prop where
  defaults : parts.issued.config.skipDefaultResolvers = false
  unnamed : parts.issued.config.resolvers = []
  units : parts.units = {}
  extras : parts.extras = []

/-- A resolver of scripts that is bound to no location and has been handed no configuration yet. -/
def unbound (parts : CompositeParts) : SqlResolver := { scanner := parts.scanner }

/-- The same parts with one resolver of scripts in place of the default resolvers. The changed
configuration is handed out anew. -/
def standalone (parts : CompositeParts) (revision : Nat) : CompositeParts :=
  { parts with
    issued := ⟨revision, { parts.issued.config with skipDefaultResolvers := true }⟩
    extras := [parts.unbound.toResolver] }

/-- The same parts with one more resolver of scripts beside the default resolvers. -/
def beside (parts : CompositeParts) : CompositeParts :=
  { parts with extras := [parts.unbound.toResolver] }

variable {parts : CompositeParts} {replacer : Option Replacer} {roots : List Location}

/-! ### What the resolvers find -/

/-- What a resolver finds that is handed a configuration and the database. -/
def asked (parts : CompositeParts) (issued : IssuedConfig) (storage : Storage) (r : Resolver) :
    Except PlanError (List Migration) :=
  (r.resolve ⟨issued, parts.database⟩ storage).result

/-- What is found in each root, and the first failure if there is one. -/
def foundInRoots (parts : CompositeParts) (replacer : Option Replacer) (roots : List Location)
    (storage : Storage) : Except PlanError (List (List Migration)) :=
  roots.mapM fun l => (Composite.scriptResolver parts replacer l).foundIn storage replacer l

/-- The default resolvers find what is in the roots, each root sorted by itself. -/
theorem gather_defaultResolvers (h : parts.ScriptsOnly)
    (hreplacer : Composite.sharedReplacer parts.issued.config = .ok replacer)
    (roots : List Location) (storage : Storage) :
    Traversal.gather (parts.asked parts.issued storage)
        (Composite.defaultResolvers parts replacer roots) =
      (parts.foundInRoots replacer roots storage).map fun founds =>
        (founds.map Migration.sort).flatten := by
  unfold Composite.defaultResolvers foundInRoots
  rw [h.defaults, if_neg Bool.false_ne_true, Traversal.gather_flatMap]
  have hroot : ∀ l, Traversal.gather (parts.asked parts.issued storage)
      (Composite.resolversOf parts replacer l) = _ := fun l =>
    Composite.gather_resolversOf hreplacer h.units l parts.database storage
  simp only [hroot]
  rw [Traversal.gather, Traversal.mapM_map]
  generalize (roots.mapM _ : Except PlanError (List (List Migration))) = founds
  cases founds <;> rfl

/-- The configuration that is handed to an unbound resolver decides on its replacer. -/
theorem activeReplacer_unbound (parts : CompositeParts) (issued : IssuedConfig) :
    (parts.unbound.configure issued).activeReplacer = Composite.sharedReplacer issued.config := by
  unfold SqlResolver.activeReplacer SqlResolver.configure unbound Composite.sharedReplacer
  show (if !issued.config.replacePlaceholders then _ else _) = _
  cases issued.config.replacePlaceholders with
  | false => rfl
  | true =>
    rw [if_neg (by decide), if_pos rfl, ite_self]

/-- In a configuration that differs only in whether there are default resolvers, an unbound resolver
finds the same, sorted all together. -/
theorem gather_unbound (hroots : parts.issued.config.roots.result = .ok roots)
    (hreplacer : Composite.sharedReplacer parts.issued.config = .ok replacer)
    (issued : IssuedConfig) (skip : Bool)
    (hissued : issued.config = { parts.issued.config with skipDefaultResolvers := skip })
    (storage : Storage) :
    Traversal.gather (parts.asked issued storage) [parts.unbound.toResolver] =
      (parts.foundInRoots replacer roots storage).map fun founds =>
        Migration.sort founds.flatten := by
  obtain ⟨revision, config⟩ := issued
  cases hissued
  have hasked : parts.asked ⟨revision, { parts.issued.config with skipDefaultResolvers := skip }⟩
      storage parts.unbound.toResolver =
      (Traversal.gather (fun l =>
        (Composite.scriptResolver parts replacer l).foundIn storage replacer l) roots).map
          Migration.sort := by
    show ((parts.unbound.configure ⟨revision,
      { parts.issued.config with skipDefaultResolvers := skip }⟩).resolve storage).result = _
    rw [SqlResolver.result_resolve_of_unbound _ _ rfl, activeReplacer_unbound]
    show (Composite.sharedReplacer parts.issued.config >>= fun replacer =>
      parts.issued.config.roots.result >>= fun ls => (Traversal.gather (fun l =>
        (Composite.scriptResolver parts replacer l).foundIn storage replacer l) ls).map
          Migration.sort) = _
    rw [hreplacer, hroots]
    rfl
  rw [Traversal.gather_cons, hasked, Traversal.gather]
  unfold foundInRoots
  generalize (roots.mapM _ : Except PlanError (List (List Migration))) = founds
  cases founds with
  | error e => rfl
  | ok founds => exact congrArg Except.ok (List.append_nil _)

/-! ### Three composite resolvers -/

/-- The roots and the shared replacer, if the configuration passes its check and they can be made.
-/
def prepared (parts : CompositeParts) : Except PlanError (List Location × Option Replacer) := do
  parts.issued.config.check.result
  let roots ← parts.issued.config.roots.result
  let replacer ← Composite.sharedReplacer parts.issued.config
  return (roots, replacer)

theorem of_prepared_eq_ok (h : parts.prepared = .ok (roots, replacer)) :
    parts.issued.config.roots.result = .ok roots ∧
      Composite.sharedReplacer parts.issued.config = .ok replacer := by
  simp only [prepared, Traversal.bind_eq_ok_iff] at h
  obtain ⟨_, -, roots', hroots, replacer', hreplacer, ⟨⟩⟩ := h
  exact ⟨hroots, hreplacer⟩

/-- If no resolvers are named, the answer is the plan of what the default resolvers find and, after
them, the extra ones. -/
theorem answer_eq_bind (parts : CompositeParts) (hunnamed : parts.issued.config.resolvers = [])
    (storage : Storage) :
    parts.answer storage =
      parts.prepared >>= fun (roots, replacer) =>
        Traversal.gather (parts.asked parts.issued storage)
          (Composite.defaultResolvers parts replacer roots ++ parts.extras) >>= Plan.ofFound := by
  unfold answer prepared
  rw [Composite.result_build, Composite.namedResolvers, hunnamed]
  cases parts.issued.config.check.result with
  | error e => rfl
  | ok u =>
    cases parts.issued.config.roots.result with
    | error e => rfl
    | ok roots =>
      cases Composite.sharedReplacer parts.issued.config with
      | error e => rfl
      | ok replacer =>
        show Composite.answer ⟨_ ++ _ ++ [], _⟩ storage = _
        rw [Composite.answer_eq_found, Composite.found, List.append_nil]
        rfl

/-- **One resolver of scripts does for all locations**: in place of the default resolvers, or beside
them, it leaves the plan as it is with every part of every migration, or else the error. -/
theorem answer_standalone (parts : CompositeParts) (h : parts.ScriptsOnly) (revision : Nat)
    (storage : Storage) :
    (parts.standalone revision).answer storage = parts.answer storage ∧
      parts.beside.answer storage = parts.answer storage := by
  rw [answer_eq_bind parts h.unnamed, answer_eq_bind (parts.standalone revision) h.unnamed,
    answer_eq_bind parts.beside h.unnamed]
  -- whether there are default resolvers has no part in what is prepared
  have hstandalone : (parts.standalone revision).prepared = parts.prepared := rfl
  have hbeside : parts.beside.prepared = parts.prepared := rfl
  rw [hstandalone, hbeside, h.extras]
  cases hprepared : parts.prepared with
  | error e => exact ⟨rfl, rfl⟩
  | ok prepared =>
    obtain ⟨roots, replacer⟩ := prepared
    obtain ⟨hroots, hreplacer⟩ := of_prepared_eq_ok hprepared
    have hunbound := gather_unbound hroots hreplacer
    show Traversal.gather (parts.asked (parts.standalone revision).issued storage)
          [parts.unbound.toResolver] >>= Plan.ofFound =
        Traversal.gather (parts.asked parts.issued storage)
          (Composite.defaultResolvers parts replacer roots ++ []) >>= Plan.ofFound ∧
      Traversal.gather (parts.asked parts.issued storage)
          (Composite.defaultResolvers parts replacer roots ++ [parts.unbound.toResolver]) >>=
            Plan.ofFound =
        Traversal.gather (parts.asked parts.issued storage)
          (Composite.defaultResolvers parts replacer roots ++ []) >>= Plan.ofFound
    rw [List.append_nil, Traversal.gather_append, gather_defaultResolvers h hreplacer,
      hunbound (parts.standalone revision).issued true rfl,
      hunbound parts.issued parts.issued.config.skipDefaultResolvers rfl]
    cases parts.foundInRoots replacer roots storage with
    | error e => exact ⟨rfl, rfl⟩
    | ok founds =>
      exact ⟨Plan.ofFound_sort_flatten founds, Plan.ofFound_append_sort_flatten founds⟩

/-- Parts with two locations in memory. -/
def twoPackages : CompositeParts where
  issued := ⟨1, { Config.standard with locations := ["embedded:db", "embedded:app"] }⟩
  scanner := .embedded

/-- A version in each location, and one repeatable script that is in both. -/
def inTwoPackages : Storage where
  embedded := ((((({} : Bundle).add "db/V2__Orders.sql" [49]).add "db/R__View.sql" [50]).add
    "app/V1__Users.sql" [51]).add "app/R__View.sql" [50])

theorem answer_twoPackages :
    twoPackages.ScriptsOnly ∧
      (twoPackages.standalone 2).answer inTwoPackages = twoPackages.answer inTwoPackages ∧
      twoPackages.beside.answer inTwoPackages = twoPackages.answer inTwoPackages := by
  have h : twoPackages.ScriptsOnly := ⟨rfl, rfl, rfl, rfl⟩
  exact ⟨h, answer_standalone twoPackages h 2 inTwoPackages⟩

end CompositeParts

end SchemaPlan
