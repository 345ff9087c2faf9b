import Mathlib
import SchemaPlan.Plan.Planner
import SchemaPlan.Proofs.Plan.Making
import SchemaPlan.Proofs.Traversal

/-!
# Passes over the resolvers

A call of a planner makes a pass over the resolvers, or else gives the plan that it has kept. A pass
asks the resolvers in order, up to the first that fails; if none does, a plan is made of what they
found, or a conflict is reported (`Pass`). In a run of calls, in which the storage may change from
one call to the next, all calls up to the first success make a pass of their own and leave nothing
behind when they fail; afterwards that plan is given again and nobody is asked.
-/

namespace SchemaPlan

/-- A resolver that finds the same whatever the settings and the storage. -/
def Resolver.finding (found : List Migration) : Resolver := ⟨"finding", fun _ _ => return found⟩

namespace Composite

/-- What the resolvers of a composite find, one list for each resolver, if none of them fails. -/
def Finds (c : Composite) (storage : Storage) (founds : List (List Migration)) : Prop :=
  List.Forall₂ (fun r found => (r.resolve c.settings storage).result = .ok found) c.resolvers founds

/-- The steps of asking a resolver: that it is asked, what it does itself, and a report of what it
found unless it failed. -/
def askSteps (c : Composite) (storage : Storage) (r : Resolver) : List Step :=
  .resolverAsked r.name :: (r.resolve c.settings storage).steps ++
    match (r.resolve c.settings storage).result with
    | .ok found => [.logged (.resolverFinished r.name found.length)]
    | .error _ => []

/-- `Pass c storage asked answer steps`: a pass over the resolvers of `c` asks `asked`, each once
and in order, and ends with `answer`; its trace is `steps`. -/
inductive Pass (c : Composite) (storage : Storage) :
    List Resolver → Except PlanError Plan → List Step → Prop where
  /-- A resolver fails: those before it have been asked, and those after it are not. -/
  | failed {before after : List Resolver} {r : Resolver} {e : PlanError} :
      c.resolvers = before ++ r :: after →
      (∀ b ∈ before, ∃ found, (b.resolve c.settings storage).result = .ok found) →
      (r.resolve c.settings storage).result = .error e →
      Pass c storage (before ++ [r]) (.error e) ((before ++ [r]).flatMap (c.askSteps storage))
  /-- No resolver fails: a plan is made of all that was found, or a conflict is reported. -/
  | complete {founds : List (List Migration)} :
      c.Finds storage founds →
      Pass c storage c.resolvers (Plan.ofFound founds.flatten)
        (c.resolvers.flatMap (c.askSteps storage) ++ (Plan.ofFoundM founds.flatten).steps)

/-! ### Findings -/

theorem finds_iff {c : Composite} {storage : Storage} {founds : List (List Migration)} :
    c.Finds storage founds ↔
      (c.resolvers.mapM fun r => (r.resolve c.settings storage).result) = .ok founds :=
  Traversal.mapM_eq_ok_iff.symm

/-- Whether all resolvers find something does not depend on their order. -/
theorem exists_finds_iff {c : Composite} {storage : Storage} :
    (∃ founds, c.Finds storage founds) ↔
      ∀ r ∈ c.resolvers, ∃ found, (r.resolve c.settings storage).result = .ok found := by
  simp only [finds_iff]
  exact Traversal.exists_mapM_eq_ok_iff

/-- What is found is what some resolver finds. -/
theorem mem_flatten_of_finds {c : Composite} {storage : Storage} {founds : List (List Migration)}
    (h : c.Finds storage founds) {m : Migration} :
    m ∈ founds.flatten ↔
      ∃ r ∈ c.resolvers, ∃ found,
        (r.resolve c.settings storage).result = .ok found ∧ m ∈ found := by
  rw [List.mem_flatten]
  simp only [Traversal.mem_of_mapM_eq_ok (finds_iff.1 h)]
  constructor
  · rintro ⟨found, ⟨r, hr, hfound⟩, hm⟩
    exact ⟨r, hr, found, hfound, hm⟩
  · rintro ⟨r, hr, found, hfound, hm⟩
    exact ⟨found, ⟨r, hr, hfound⟩, hm⟩

/-! ### Passes -/

theorem result_ask (settings : Settings) (storage : Storage) (r : Resolver) :
    (ask settings storage r).result = (r.resolve settings storage).result := by
  unfold ask
  rw [ResolveM.result_bind, ResolveM.result_step, ResolveM.result_bind]
  cases (r.resolve settings storage).result <;> rfl

theorem steps_ask (c : Composite) (storage : Storage) (r : Resolver) :
    (ask c.settings storage r).steps = c.askSteps storage r := by
  unfold ask askSteps
  rw [ResolveM.steps_bind_of_ok (ResolveM.result_step _)]
  cases h : (r.resolve c.settings storage).result with
  | error e =>
    rw [ResolveM.steps_bind_of_error h, List.append_nil]
    rfl
  | ok found =>
    rw [ResolveM.steps_bind_of_ok h]
    rfl

theorem result_mapM_ask_eq_ok_iff {c : Composite} {storage : Storage}
    {founds : List (List Migration)} :
    (c.resolvers.mapM (ask c.settings storage)).result = .ok founds ↔ c.Finds storage founds := by
  rw [ResolveM.result_mapM]
  simp only [result_ask]
  exact Traversal.mapM_eq_ok_iff

/-- Of what the resolvers find without failing a plan is made. -/
theorem result_makePlan {c : Composite} {storage : Storage} {founds : List (List Migration)}
    (h : c.Finds storage founds) : (c.makePlan storage).result = Plan.ofFound founds.flatten := by
  unfold makePlan
  rw [ResolveM.result_bind, result_mapM_ask_eq_ok_iff.2 h]
  exact Plan.result_ofFoundM _

/-- A plan is made only of what the resolvers find without failing. -/
theorem finds_of_result_makePlan {c : Composite} {storage : Storage} {plan : Plan}
    (h : (c.makePlan storage).result = .ok plan) : ∃ founds, c.Finds storage founds := by
  unfold makePlan at h
  rw [ResolveM.result_bind] at h
  cases hmap : (c.resolvers.mapM (ask c.settings storage)).result with
  | error e => rw [hmap] at h; cases h
  | ok founds => exact ⟨founds, result_mapM_ask_eq_ok_iff.1 hmap⟩

theorem steps_makePlan {c : Composite} {storage : Storage} {founds : List (List Migration)}
    (h : c.Finds storage founds) :
    (c.makePlan storage).steps =
      c.resolvers.flatMap (c.askSteps storage) ++ (Plan.ofFoundM founds.flatten).steps := by
  have hask : List.Forall₂ (fun r found => (ask c.settings storage r).result = .ok found)
      c.resolvers founds := by
    simp only [result_ask]
    exact h
  unfold makePlan
  rw [ResolveM.steps_bind_of_ok (result_mapM_ask_eq_ok_iff.2 h), ResolveM.steps_mapM_of_ok hask]
  simp only [steps_ask]

/-- Making a plan is a pass over the resolvers. -/
theorem exists_pass (c : Composite) (storage : Storage) :
    ∃ asked, c.Pass storage asked (c.makePlan storage).result (c.makePlan storage).steps := by
  rcases Traversal.forall_ok_or_first_error (fun r => (r.resolve c.settings storage).result)
    c.resolvers with ⟨founds, hfounds⟩ | ⟨before, r, after, e, hsplit, hbefore, hr⟩
  · refine ⟨c.resolvers, ?_⟩
    rw [result_makePlan hfounds, steps_makePlan hfounds]
    exact .complete hfounds
  · refine ⟨before ++ [r], ?_⟩
    have hask : ∀ b ∈ before, ∃ found, (ask c.settings storage b).result = .ok found := by
      simp only [result_ask]
      exact hbefore
    obtain ⟨hresult, hsteps⟩ := ResolveM.run_mapM_append_cons hask
      ((result_ask c.settings storage r).trans hr) after
    unfold makePlan
    rw [hsplit, ResolveM.result_bind, hresult, ResolveM.steps_bind_of_error hresult, hsteps]
    simp only [steps_ask]
    rw [← List.flatMap_singleton (c.askSteps storage) r, ← List.flatMap_append]
    exact .failed hsplit hbefore hr

/-! ### Given findings -/

/-- A composite resolver of which each resolver finds the same in any storage. -/
def finding (founds : List (List Migration)) : Composite :=
  ⟨founds.map .finding, ⟨.standard, none⟩⟩

theorem finds_finding (founds : List (List Migration)) (storage : Storage) :
    (finding founds).Finds storage founds := by
  unfold Finds finding
  rw [List.forall₂_map_left_iff, List.forall₂_same]
  exact fun _ _ => rfl

end Composite

namespace Planner

/-- The planner after some calls, each in the storage as it is at the time. -/
def after : Planner → List Storage → Planner
  | p, [] => p
  | p, storage :: storages => (p.resolve storage).value.2.after storages

/-! ### One call -/

/-- Without a plan a call is a pass, and leaves the plan behind that it gives. -/
theorem resolve_of_eq_none {p : Planner} (h : p.plan? = none) (storage : Storage) :
    (p.resolve storage).value.1 = (p.composite.makePlan storage).result ∧
      (p.resolve storage).steps = (p.composite.makePlan storage).steps ∧
      (p.resolve storage).value.2.plan? = (p.composite.makePlan storage).result.toOption := by
  have hsteps : (p.resolve storage).steps = (p.composite.makePlan storage).steps := by
    simp only [resolve, h, bind]
    cases (p.composite.makePlan storage).run.value <;> exact List.append_nil _
  have hvalue := value_resolve_of_eq_none h storage
  cases hplan : (p.composite.makePlan storage).result with
  | ok plan =>
    rw [hplan] at hvalue
    exact ⟨congrArg Prod.fst hvalue, hsteps, congrArg (·.2.plan?) hvalue⟩
  | error e =>
    rw [hplan] at hvalue
    exact ⟨congrArg Prod.fst hvalue, hsteps, (congrArg (·.2.plan?) hvalue).trans h⟩

/-- A call leaves the resolvers as they are. -/
@[simp] theorem composite_resolve (p : Planner) (storage : Storage) :
    (p.resolve storage).value.2.composite = p.composite := by
  cases h : p.plan? with
  | some plan => rw [resolve_of_eq_some h]; rfl
  | none =>
    rw [value_resolve_of_eq_none h]
    cases (p.composite.makePlan storage).result <;> rfl

/-- After a call the planner has a plan exactly if the call gave it. -/
theorem plan?_resolve (p : Planner) (storage : Storage) :
    (p.resolve storage).value.2.plan? = (p.resolve storage).value.1.toOption := by
  cases h : p.plan? with
  | some plan => rw [resolve_of_eq_some h]; exact h
  | none =>
    obtain ⟨hanswer, -, hplan⟩ := resolve_of_eq_none h storage
    rw [hanswer, hplan]

/-! ### Runs of calls -/

theorem after_append (p : Planner) (before rest : List Storage) :
    p.after (before ++ rest) = (p.after before).after rest := by
  induction before generalizing p with
  | nil => rfl
  | cons storage before ih => exact ih _

@[simp] theorem composite_after (p : Planner) (storages : List Storage) :
    (p.after storages).composite = p.composite := by
  induction storages generalizing p with
  | nil => rfl
  | cons storage storages ih => exact (ih _).trans (composite_resolve p storage)

/-- A plan that is kept stays. -/
theorem plan?_after_of_eq_some {p : Planner} {plan : Plan} (h : p.plan? = some plan)
    (storages : List Storage) : (p.after storages).plan? = some plan := by
  induction storages generalizing p with
  | nil => exact h
  | cons storage storages ih =>
    refine ih ?_
    rw [resolve_of_eq_some h]
    exact h

/-- A kept plan was there from the beginning or was made in one of the calls. -/
theorem exists_makePlan_of_after {p : Planner} {storages : List Storage} {plan : Plan}
    (h : (p.after storages).plan? = some plan) :
    p.plan? = some plan ∨ ∃ world ∈ storages, (p.composite.makePlan world).result = .ok plan := by
  induction storages generalizing p with
  | nil => exact .inl h
  | cons storage storages ih =>
    rcases ih h with hplan | ⟨world, hworld, hmade⟩
    · cases hnone : p.plan? with
      | some kept =>
        rw [resolve_of_eq_some hnone] at hplan
        exact .inl (hnone.symm.trans hplan)
      | none =>
        rw [(resolve_of_eq_none hnone storage).2.2] at hplan
        refine .inr ⟨storage, List.mem_cons_self, ?_⟩
        cases hresult : (p.composite.makePlan storage).result with
        | error e => rw [hresult] at hplan; cases hplan
        | ok made => rw [hresult] at hplan; cases hplan; rfl
    · rw [composite_resolve] at hmade
      exact .inr ⟨world, List.mem_cons_of_mem _ hworld, hmade⟩

/-- After calls that all failed there is no plan. -/
theorem plan?_after_of_error {p : Planner} (hp : p.plan? = none) {storages : List Storage}
    (h : ∀ before now rest, storages = before ++ now :: rest →
      ∃ e, ((p.after before).resolve now).value.1 = .error e) :
    (p.after storages).plan? = none := by
  rcases storages.eq_nil_or_concat with rfl | ⟨before, now, rfl⟩
  · exact hp
  · obtain ⟨e, he⟩ := h before now [] (by rw [List.concat_eq_append])
    rw [List.concat_eq_append, after_append]
    exact (plan?_resolve _ now).trans (by rw [he]; rfl)

/-- Once a call has given a plan it is kept. -/
theorem plan?_after_of_ok {p : Planner} {before rest : List Storage} {now : Storage} {plan : Plan}
    (h : ((p.after before).resolve now).value.1 = .ok plan) :
    (p.after (before ++ now :: rest)).plan? = some plan := by
  rw [after_append]
  exact plan?_after_of_eq_some ((plan?_resolve _ now).trans (by rw [h]; rfl)) rest

/-- **A plan is made once**, whatever has become of the storage: a call that no successful one comes
before makes a pass of its own, a call that fails leaves no plan behind, and after a successful call
its plan is given again without a single step, be it of a resolver or of a scanner. -/
theorem resolve_after (c : Composite) (earlier : List Storage) (storage : Storage) :
    let p : Planner := { composite := c }
    let call := (p.after earlier).resolve storage
    ((∀ before now rest, earlier = before ++ now :: rest →
        ∃ e, ((p.after before).resolve now).value.1 = .error e) →
      ∃ asked, c.Pass storage asked call.value.1 call.steps) ∧
    (∀ e, call.value.1 = .error e → call.value.2.plan? = none) ∧
    (∀ before now rest plan, earlier = before ++ now :: rest →
      ((p.after before).resolve now).value.1 = .ok plan →
        call.value.1 = .ok plan ∧ call.steps = []) := by
  intro p call
  refine ⟨fun h => ?_, fun e he => ?_, ?_⟩
  · obtain ⟨hanswer, hsteps, -⟩ := resolve_of_eq_none (plan?_after_of_error rfl h) storage
    rw [composite_after] at hanswer hsteps
    show ∃ asked, c.Pass storage asked ((p.after earlier).resolve storage).value.1 _
    rw [hanswer, hsteps]
    exact c.exists_pass storage
  · rw [plan?_resolve, he]
    rfl
  · rintro before now rest plan rfl h
    have hcall : call = pure (.ok plan, _) := resolve_of_eq_some (plan?_after_of_ok h) storage
    rw [hcall]
    exact ⟨rfl, rfl⟩

/-- **Plans are right**: whatever plan a planner gives, at whatever call, is made of what the
resolvers found, all of them without failing, in the storage of that call or of an earlier one. -/
theorem madeOf_of_resolve (c : Composite) (earlier : List Storage) (storage : Storage) (plan : Plan)
    (h : ((({ composite := c } : Planner).after earlier).resolve storage).value.1 = .ok plan) :
    ∃ world ∈ earlier ++ [storage], ∃ founds, c.Finds world founds ∧
      plan.MadeOf founds.flatten := by
  have hkept : (({ composite := c } : Planner).after (earlier ++ [storage])).plan? = some plan :=
    plan?_after_of_ok h
  obtain hnone | ⟨world, hworld, hmade⟩ := exists_makePlan_of_after hkept
  · cases hnone
  · obtain ⟨founds, hfounds⟩ := Composite.finds_of_result_makePlan hmade
    rw [Composite.result_makePlan hfounds] at hmade
    exact ⟨world, hworld, founds, hfounds, Plan.madeOf_of_ofFound hmade⟩

/-- A script in a directory. -/
def sampleScript (directory : String) (version : Option Version) (description : String)
    (checksum : Int32) : Migration :=
  ⟨version, description, description ++ ".sql", some checksum, .sql,
    directory ++ "/" ++ description ++ ".sql", .idle⟩

/-- Migrations of which the first version has been copied to another directory and written
differently there. -/
def copied : List (List Migration) :=
  [[sampleScript "a" none "view" 3, sampleScript "a" (some ⟨["2"], "2"⟩) "orders" 2],
    [sampleScript "a" (some ⟨["1"], "1"⟩) "users" 1,
      sampleScript "b" (some ⟨["1", "0"], "1.0"⟩) "users" 1]]

/-- The plan of the copied migrations. -/
def planOfCopied : Plan where
  migrations :=
    [sampleScript "a" (some ⟨["1"], "1"⟩) "users" 1,
      sampleScript "a" (some ⟨["2"], "2"⟩) "orders" 2, sampleScript "a" none "view" 3]

theorem madeOf_planOfCopied :
    ((({ composite := .finding copied } : Planner).after [{}]).resolve {}).value.1 =
        .ok planOfCopied ∧
      ∃ world ∈ [({} : Storage)] ++ [({} : Storage)], ∃ founds,
        (Composite.finding copied).Finds world founds ∧ planOfCopied.MadeOf founds.flatten := by
  have h : ((({ composite := .finding copied } : Planner).after [{}]).resolve {}).value.1 =
      .ok planOfCopied := by cbv
  exact ⟨h, madeOf_of_resolve (.finding copied) [{}] {} planOfCopied h⟩

/-- **Conflicts are found and named**: a call that makes a pass in which no resolver fails fails
itself exactly if some of the found migrations contradict each other, and it then reports the least
of these contradictions. -/
theorem resolve_error_iff (p : Planner) (hp : p.plan? = none) (storage : Storage)
    (founds : List (List Migration)) (hfound : p.composite.Finds storage founds) :
    ((∃ e, (p.resolve storage).value.1 = .error e) ↔
      ∃ a ∈ founds.flatten, ∃ b ∈ founds.flatten, a.Contradicts b) ∧
    ∀ e, (p.resolve storage).value.1 = .error e → Plan.ConflictOf founds.flatten e := by
  rw [(resolve_of_eq_none hp storage).1, Composite.result_makePlan hfound]
  exact ⟨Plan.ofFound_eq_error_iff, fun e he => Plan.conflictOf_of_ofFound he⟩

/-- Migrations that contradict each other in two places; in one of these there is a duplicate too.
-/
def contradictory : List (List Migration) :=
  [[sampleScript "a" none "view" 3, sampleScript "b" none "view" 4],
    [sampleScript "a" (some ⟨["1", "0"], "1.0"⟩) "users" 1,
      sampleScript "b" (some ⟨["1"], "1"⟩) "users" 1,
      sampleScript "b" (some ⟨["1"], "1"⟩) "orders" 2]]

theorem conflictOf_contradictory :
    ((∃ e, (({ composite := .finding contradictory } : Planner).resolve {}).value.1 = .error e) ↔
      ∃ a ∈ contradictory.flatten, ∃ b ∈ contradictory.flatten, a.Contradicts b) ∧
    Plan.ConflictOf contradictory.flatten
      (.versionConflict "1.0" ⟨"a/users.sql", "SQL"⟩ ⟨"b/orders.sql", "SQL"⟩) := by
  obtain ⟨hiff, hconflict⟩ := resolve_error_iff { composite := .finding contradictory } rfl {}
    contradictory (Composite.finds_finding contradictory {})
  exact ⟨hiff, hconflict _ (by cbv)⟩

end Planner

end SchemaPlan
