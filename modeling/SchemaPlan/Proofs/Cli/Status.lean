import SchemaPlan.Cli.Run
import SchemaPlan.Proofs.Config.Toml
import SchemaPlan.Proofs.Location.ReadingBack
import SchemaPlan.Proofs.Plan.Acceptance
import SchemaPlan.Proofs.Resolver.Relocation
import SchemaPlan.Proofs.Storage.Places
import SchemaPlan.Proofs.Text.Utf8

/-!
# How commands end

Checking and printing a plan are the same work up to what is printed (`planned`), so both outcomes
go by one plan (`Follows`) and end with the same status (`exit_status`). It tells three cases apart:
there is a plan, migrations are in conflict, or anything else is wrong (`status_of_follows`). That a
conflict is told apart rests on two facts: while a configuration is read nothing is reported as a
conflict, and what goes wrong with an artifact is wrapped by its resolver, which a conflict never
is. Nothing of a plan is printed unless there is one.

Two things besides the matched scripts can be in the way of a plan: marks around placeholders that
are too long, which the check of a configuration lets pass, and a directory that cannot be listed.
-/

namespace SchemaPlan

/-! ### Reading a configuration -/

namespace Config

variable {e : PlanError}

theorem exists_toml_of_field {α : Type} {read? : Toml.Value → Option α} {key : String}
    {default_ : α} {entries : Toml.Entries} (h : field read? key default_ entries = .error e) :
    ∃ reason, e = .toml reason := by
  unfold field at h
  repeat' split at h
  all_goals cases h
  exact ⟨_, rfl⟩

/-- A table that is no configuration is refused at one of its fields. -/
theorem exists_toml_of_ofEntries {entries : Toml.Entries} (h : ofEntries entries = .error e) :
    ∃ reason, e = .toml reason := by
  simp only [ofEntries, Traversal.bind_eq_error_iff] at h
  iterate 12
    rcases h with h | ⟨_, -, h⟩
    · exact exists_toml_of_field h
  cases h

/-- What is wrong with a configuration file is no conflict. -/
theorem isConflict_of_ofFile {env : Environment} {path : String} {content : Option (List UInt8)}
    (h : ofFile env path content = .error e) : e.isConflict = false := by
  unfold ofFile at h
  split at h
  · unfold ofToml at h
    split at h
    · obtain ⟨reason, rfl⟩ := exists_toml_of_ofEntries h
      rfl
    · cases h
      rfl
  · cases h
    rfl
  · cases h
    rfl

end Config

end SchemaPlan

namespace SchemaPlan.Cli

variable {env : Environment} {files : FileTree} {path? : Option String} {locations : List String}

theorem exitCode_of_readConfig {e : CommandError} (h : readConfig env files path? = .error e) :
    e.exitCode = 1 := by
  unfold readConfig at h
  rcases Traversal.bind_eq_error_iff.1 h with hfile | ⟨file?, -, hread⟩
  · unfold configFile? at hfile
    repeat' split at hfile
    all_goals cases hfile
    rfl
  · split at hread
    · obtain ⟨cause, hcause, rfl⟩ := Traversal.mapError_eq_error_iff.1 hread
      rw [CommandError.exitCode, Config.isConflict_of_ofFile hcause]
      rfl
    · cases hread

/-! ### The work of a command -/

/-- The configuration that a command works with, before it is checked. -/
def configured (env : Environment) (files : FileTree) (path? : Option String)
    (locations : List String) : Except CommandError Config :=
  (readConfig env files path?).map fun config =>
    if locations.isEmpty then config else { config with locations }

/-- The plan that a command works out. -/
def planned (env : Environment) (files : FileTree) (path? : Option String)
    (locations : List String) : Except CommandError Plan :=
  configured env files path? locations >>= fun config =>
    ((CompositeParts.onDisk config).answer ⟨files, {}⟩).mapError .migration

theorem value_bind {α β : Type} (x : CliM α) (f : α → CliM β) :
    (x >>= f).run.value = x.run.value >>= fun a => (f a).run.value := by
  obtain ⟨value, steps⟩ := x
  cases value <;> rfl

theorem value_loadConfig :
    (loadConfig env files path? locations).run.value =
      configured env files path? locations >>= fun config =>
        (config.check.result.mapError .migration).map fun _ => config := by
  have hcheck (config : Config) : (lift config.check >>= fun _ => pure config : CliM _).run.value =
      (config.check.result.mapError .migration).map fun _ => config := by
    rw [value_bind]
    show Except.mapError _ config.check.result >>= _ = _
    cases config.check.result <;> rfl
  unfold loadConfig configured
  rw [value_bind]
  show readConfig env files path? >>= _ = _
  cases readConfig env files path? with
  | error e => rfl
  | ok config => exact hcheck _

theorem value_planOf (config : Config) :
    (planOf files config).run.value =
      ((CompositeParts.onDisk config).answer ⟨files, {}⟩).mapError .migration := by
  show Except.mapError _ (Composite.build (.onDisk config) >>= fun composite =>
    composite.makePlan ⟨files, {}⟩).result = _
  unfold CompositeParts.answer
  simp only [ResolveM.result_bind, Composite.answer_eq]

/-- First the configuration is checked, and then the plan is made. What the check finds would be in
the way of the plan as well. -/
theorem planned_eq :
    planned env files path? locations =
      (loadConfig env files path? locations).run.value >>= fun config =>
        (planOf files config).run.value := by
  rw [value_loadConfig, planned, bind_assoc]
  refine bind_congr fun config => ?_
  rw [← value_planOf]
  cases hcheck : config.check.result with
  | ok _ => rfl
  | error e =>
    have hbuild := @CompositeParts.build_of_check_eq_error (.onDisk config) e hcheck
    rw [value_planOf, CompositeParts.answer, hbuild]
    rfl

/-! ### What is printed -/

/-- What a traced computation returns goes into the one after it. -/
theorem value_traced_bind {α β : Type} (x : Traced α) (f : α → Traced β) :
    (x >>= f).value = (f x.value).value := rfl

/-- Nothing is printed where there is no plan. -/
theorem value_runResolve_of_error {e : CommandError}
    (h : planned env files path? locations = .error e) (format : Format) :
    (runResolve env files path? locations format).value = ⟨"", some e⟩ := by
  have hwork : (loadConfig env files path? locations >>= fun config =>
      planOf files config >>= fun plan =>
        pure (showPlan plan config.locations format)).run.value = .error e := by
    rw [planned_eq, Traversal.bind_eq_error_iff] at h
    rw [value_bind, Traversal.bind_eq_error_iff]
    refine h.imp_right fun ⟨config, hload, hplan⟩ => ⟨config, hload, ?_⟩
    rw [value_bind, hplan]
    rfl
  unfold runResolve
  simp only [value_traced_bind, hwork]
  rfl

theorem error?_runResolve_of_ok {plan : Plan}
    (h : planned env files path? locations = .ok plan) (format : Format) :
    (runResolve env files path? locations format).value.error? = none := by
  obtain ⟨text, hwork⟩ : ∃ text, (loadConfig env files path? locations >>= fun config =>
      planOf files config >>= fun plan =>
        pure (showPlan plan config.locations format)).run.value = .ok text := by
    rw [planned_eq, Traversal.bind_eq_ok_iff] at h
    obtain ⟨config, hload, hplan⟩ := h
    refine ⟨showPlan plan config.locations format, ?_⟩
    rw [value_bind, hload]
    show (planOf files config >>= _).run.value = _
    rw [value_bind, hplan]
    rfl
  unfold runResolve
  simp only [value_traced_bind, hwork]
  rfl

/-- What is printed of a check while nothing is known of a plan. -/
def headings : List String :=
  let loading := header "Validate Migrations" ++ step 1 2 "Loading configuration..."
  [loading, loading ++ step 2 2 "Resolving migrations..."]

/-- A check that fails has printed its headings only. -/
theorem value_runValidate_of_error {e : CommandError}
    (h : planned env files path? locations = .error e) :
    ∃ heading ∈ headings, (runValidate env files path? locations).value = ⟨heading, some e⟩ := by
  rw [planned_eq, Traversal.bind_eq_error_iff] at h
  unfold runValidate
  rcases h with hload | ⟨config, hload, hplan⟩
  · refine ⟨_, List.mem_cons_self, ?_⟩
    simp only [value_traced_bind, hload]
    rfl
  · refine ⟨_, List.mem_cons_of_mem _ List.mem_cons_self, ?_⟩
    simp only [value_traced_bind, hload, hplan]
    rfl

theorem error?_runValidate_of_ok {plan : Plan}
    (h : planned env files path? locations = .ok plan) :
    (runValidate env files path? locations).value.error? = none := by
  rw [planned_eq, Traversal.bind_eq_ok_iff] at h
  obtain ⟨config, hload, hplan⟩ := h
  unfold runValidate
  simp only [value_traced_bind, hload, hplan]
  rfl

/-! ### The status -/

/-- An outcome goes by a plan: it is no failure if there is the plan, and if there is an error it is
this failure, below one of the texts that are printed without a plan. -/
structure Follows (plan : Except CommandError Plan) (unplanned : List String) (o : Outcome) :
    Prop where
  ok : ∀ p, plan = .ok p → o.error? = none
  error : ∀ e, plan = .error e → o.error? = some e ∧ o.printed ∈ unplanned

theorem follows_validate (i : Invocation) (h : i.command = .validate locations) :
    Follows (planned env files i.config? locations) headings (i.run env files).value := by
  rw [Invocation.run, h]
  refine ⟨fun _ => error?_runValidate_of_ok, fun e he => ?_⟩
  obtain ⟨heading, hheading, hvalue⟩ := value_runValidate_of_error he
  simp [hvalue, hheading]

theorem follows_resolve (i : Invocation) {format : Format}
    (h : i.command = .resolve locations format) :
    Follows (planned env files i.config? locations) [""] (i.run env files).value := by
  rw [Invocation.run, h]
  refine ⟨fun _ hplan => error?_runResolve_of_ok hplan format, fun e he => ?_⟩
  simp [value_runResolve_of_error he format]

namespace Follows

variable {plan : Except CommandError Plan} {unplanned unplanned' : List String} {o o' : Outcome}

/-- Outcomes that go by one plan end with one status. -/
theorem exitCode_eq (h : Follows plan unplanned o) (h' : Follows plan unplanned' o') :
    o.exitCode = o'.exitCode := by
  unfold Outcome.exitCode
  cases hplan : plan with
  | ok p => rw [h.ok p hplan, h'.ok p hplan]
  | error e => rw [(h.error e hplan).1, (h'.error e hplan).1]

/-- A failure is not printed below a plan. -/
theorem stdout_of_exitCode (h : Follows plan unplanned o) (hstatus : o.exitCode ≠ 0) :
    ∃ text ∈ unplanned, o.stdout = text ++ line "" := by
  cases hplan : plan with
  | ok p =>
    rw [Outcome.exitCode, h.ok p hplan] at hstatus
    exact absurd rfl hstatus
  | error e =>
    obtain ⟨hfailure, hprinted⟩ := h.error e hplan
    refine ⟨o.printed, hprinted, ?_⟩
    rw [Outcome.stdout, hfailure]
    rfl

end Follows

/-- What an exit status says. -/
structure Status (env : Environment) (files : FileTree) (path? : Option String)
    (locations : List String) (status : Nat) : Prop where
  /-- There is a plan. -/
  zero : status = 0 ↔ ∃ config, configured env files path? locations = .ok config ∧
    config.Resolves files ∧ ¬ config.Collides files
  /-- Migrations are in conflict. -/
  two : status = 2 ↔ ∃ config, configured env files path? locations = .ok config ∧
    config.Resolves files ∧ config.Collides files
  /-- Anything else is wrong. -/
  one : status ≠ 0 → status ≠ 2 → status = 1

/-- The status of an outcome that goes by the plan of a command. -/
theorem status_of_follows {unplanned : List String} {o : Outcome}
    (h : Follows (planned env files path? locations) unplanned o) :
    Status env files path? locations o.exitCode := by
  unfold planned at h
  cases hconfig : configured env files path? locations with
  | error e =>
    rw [hconfig] at h
    have hstatus : o.exitCode = 1 := by
      rw [Outcome.exitCode, (h.error e rfl).1]
      exact exitCode_of_readConfig (Traversal.map_eq_error_iff.1 hconfig)
    rw [hstatus]
    refine ⟨?_, ?_, fun _ _ => rfl⟩ <;> simp [hconfig]
  | ok config =>
  rw [hconfig] at h
  have hends := config.ends_answer files {}
  cases hanswer : (CompositeParts.onDisk config).answer ⟨files, {}⟩ with
  | ok plan =>
    have hstatus : o.exitCode = 0 := by
      rw [Outcome.exitCode, h.ok plan (congrArg (Except.mapError _) hanswer)]
      rfl
    rw [hanswer] at hends
    obtain ⟨_, hresolves, hcollides⟩ := hends
    rw [hstatus]
    refine ⟨?_, ?_, fun h => absurd rfl h⟩ <;> simp [hconfig, hresolves, hcollides]
  | error e =>
    have hstatus : o.exitCode = if e.isConflict then 2 else 1 := by
      rw [Outcome.exitCode, (h.error (.migration e) (congrArg (Except.mapError _) hanswer)).1]
      rfl
    rw [hanswer] at hends
    rcases hends with _ | ⟨hconflict, hresolves, hcollides⟩ | ⟨hother, hrefused⟩
    · rw [hstatus, hconflict]
      refine ⟨?_, ?_, fun _ h => absurd rfl h⟩ <;> simp [hconfig, hresolves, hcollides]
    · rw [hstatus, hother]
      refine ⟨?_, ?_, fun _ _ => rfl⟩ <;> simp [hconfig, hrefused]

/-- **A command's exit status tells what became of the plan**: checking and printing end alike, with
0 if there is a plan, with 2 if nothing but conflicts is in its way, and with 1 otherwise; unless
the status is 0, no plan is printed. -/
theorem exit_status (env : Environment) (files : FileTree) (path? : Option String)
    (locations : List String) (format : Format) (verbose verbose' : Bool) :
    (Invocation.run env files ⟨path?, verbose, .validate locations⟩).value.exitCode =
        (Invocation.run env files ⟨path?, verbose', .resolve locations format⟩).value.exitCode ∧
      Status env files path? locations
        (Invocation.run env files ⟨path?, verbose, .validate locations⟩).value.exitCode ∧
      ((Invocation.run env files ⟨path?, verbose, .validate locations⟩).value.exitCode ≠ 0 →
        ∃ heading ∈ headings,
          (Invocation.run env files ⟨path?, verbose, .validate locations⟩).value.stdout =
            heading ++ line "") ∧
      ((Invocation.run env files ⟨path?, verbose', .resolve locations format⟩).value.exitCode ≠ 0 →
        (Invocation.run env files ⟨path?, verbose', .resolve locations format⟩).value.stdout =
          line "") := by
  have hvalidate := @follows_validate env files locations
    ⟨path?, verbose, .validate locations⟩ rfl
  have hresolve := @follows_resolve env files locations
    ⟨path?, verbose', .resolve locations format⟩ format rfl
  refine ⟨hvalidate.exitCode_eq hresolve, status_of_follows hvalidate,
    hvalidate.stdout_of_exitCode, fun hstatus => ?_⟩
  obtain ⟨text, htext, hstdout⟩ := hresolve.stdout_of_exitCode hstatus
  obtain rfl := List.mem_singleton.1 htext
  exact hstdout

/-! ### What neither the check nor the matched scripts tell -/

/-- A working directory with nothing but a configuration file in it. -/
def holdingConfig (config : Config) : FileTree where
  root := .dir [(defaultConfigFile, .file (Text.bytesOf config.toToml))]

/-- A configuration in the default file is the one that a command works with. -/
theorem configured_holdingConfig (config : Config) :
    configured Environment.empty (holdingConfig config) none [] = .ok config := by
  have hnode : (holdingConfig config).node? defaultConfigFile =
      some (.file (Text.bytesOf config.toToml)) :=
    FileTree.node?_eq_some_iff.2 ⟨by decide, [defaultConfigFile], FileTree.resolve?_eq_some_iff.2
      ⟨FileTree.isPath_iff.2 ⟨by decide, by decide⟩, rfl⟩, rfl⟩
  have hfile : (holdingConfig config).isFile defaultConfigFile = true := by
    rw [FileTree.isFile, hnode]
  have hcontent : (holdingConfig config).read? defaultConfigFile =
      some (Text.bytesOf config.toToml) := by
    rw [FileTree.read?, hnode]
  have htext : Text.decodeText (Text.bytesOf config.toToml) = .ok config.toToml := by
    rw [Text.decodeText, Text.bytesOf, Text.decode_encode]
    exact congrArg _ (String.ofList_toList)
  have hread : readConfig Environment.empty (holdingConfig config) none = .ok config := by
    unfold readConfig configFile?
    rw [if_pos hfile]
    show (Config.ofFile _ _ _).mapError _ = _
    rw [hcontent, Config.ofFile, Option.map_some, htext]
    show (Config.ofToml _ _).mapError _ = _
    rw [Config.ofToml, Environment.expand_empty, Config.read?_toToml]
    exact congrArg _ config.ofEntries_entries
  rw [configured, hread]
  rfl

/-- A check that succeeds has found nothing in the way of a plan. -/
theorem resolves_of_exitCode {config : Config} {verbose : Bool}
    (hconfig : configured env files path? locations = .ok config)
    (hstatus :
      (Invocation.run env files ⟨path?, verbose, .validate locations⟩).value.exitCode = 0) :
    config.Resolves files := by
  obtain ⟨config', hconfig', hresolves, -⟩ :=
    (status_of_follows (follows_validate ⟨path?, verbose, .validate locations⟩ rfl)).zero.1 hstatus
  exact Except.ok.inj (hconfig'.symm.trans hconfig) ▸ hresolves

/-- The check lets an opening mark pass that is too long, but with it there is no plan. -/
theorem not_exit_status_overlongMark :
    ¬ ∀ (env : Environment) (files : FileTree) (path? : Option String) (locations : List String)
      (verbose : Bool),
      (Invocation.run env files ⟨path?, verbose, .validate locations⟩).value.exitCode = 0 ↔
        ∃ config, configured env files path? locations = .ok config ∧
          config.check.result = .ok () ∧ config.resolvers = [] ∧
          (∀ repeatable resource, config.Matched files repeatable resource →
            ∃ m, config.record files repeatable resource = .ok m) ∧
          ¬ config.Collides files := by
  intro hall
  let config := CompositeParts.overlongMark.issued.config
  have hconfig := configured_holdingConfig config
  have hroots : config.roots.result = .ok [⟨.filesystem, "db/migration"⟩] := by rfl
  have hdir (es : List (String × Node)) :
      (holdingConfig config).node? "db/migration" ≠ some (.dir es) := by
    intro hnode
    obtain ⟨-, place, hplace, -⟩ := FileTree.node?_eq_some_iff.1 hnode
    cases (FileTree.resolve?_eq_some_iff.1 hplace).2
  have hnothing (repeatable : Bool) (resource : Resource) :
      ¬ config.Matched (holdingConfig config) repeatable resource := by
    rintro ⟨-, ⟨roots, hroots', l, hl, resources, hscan, hresource⟩, -⟩
    obtain rfl := Except.ok.inj (hroots.symm.trans hroots')
    obtain rfl := List.mem_singleton.1 hl
    rw [FileTree.result_scan_of_not_dir hdir] at hscan
    cases hscan
    cases hresource
  have hzero := (hall .empty (holdingConfig config) none [] false).2
    ⟨config, hconfig, CompositeParts.check_overlongMark, rfl,
      fun _ _ hmatched => absurd hmatched (hnothing _ _),
      Config.not_collides_of_not_matched hnothing⟩
  exact CompositeParts.not_marksFit_overlongMark (resolves_of_exitCode hconfig hzero).fits

/-- A directory with an empty directory in it. -/
def emptyInside : FileTree where
  root := .dir [("m", .dir [("views", .dir [])])]

/-- The directory inside cannot be listed when the path to it is too long. -/
theorem scan_emptyInside {n : Nat} (hn : n ≤ 2047) (hlong : 2045 ≤ n) (front back : String) :
    ∃ e, (emptyInside.scan ⟨.filesystem, idlePath n⟩ front back).result = .error e := by
  have hdir : emptyInside.node? (idlePath n) = some (.dir [("views", .dir [])]) :=
    node?_idlePath hn
  have hpath : ¬ FileTree.isPath (FileTree.join (idlePath n) "views") := by
    obtain ⟨slash, -, hjoin⟩ := FileTree.exists_join_eq (idlePath n)
    rw [FileTree.isPath_iff, hjoin, String.utf8ByteSize_append, String.utf8ByteSize_append,
      utf8ByteSize_idlePath]
    rintro ⟨hsize, -⟩
    change 2 * n + 1 + slash.utf8ByteSize + 5 ≤ 4095 at hsize
    omega
  have hunlisted : .unlisted (FileTree.join (idlePath n) "views") ∈
      emptyInside.searchAll (hasAffixes front back) "" (idlePath n) [("views", .dir [])] := by
    rw [FileTree.searchAll_eq, List.flatMap_cons, FileTree.search_dir, if_neg hpath]
    exact List.mem_cons_self
  obtain ⟨q, -, herror⟩ := FileTree.ofFindings_of_unlisted hunlisted
  rw [FileTree.result_scan _ rfl, FileTree.findings, hdir]
  exact ⟨_, herror⟩

theorem parse_idlePath (n : Nat) :
    Location.parse (Medium.filesystem.scheme ++ idlePath n) = .ok ⟨.filesystem, idlePath n⟩ := by
  obtain ⟨front, hfront⟩ : ∃ front, (idlePath n).toList = front ++ ['m'] := by
    induction n with
    | zero => exact ⟨[], rfl⟩
    | succ n ih =>
      obtain ⟨front, hfront⟩ := ih
      refine ⟨"./".toList ++ front, ?_⟩
      rw [idlePath, String.toList_append, hfront, List.append_assoc]
  have hkept {p : Char → Bool} (hp : ¬ p 'm') :
      (idlePath n).toList.rdropWhile p = (idlePath n).toList := by
    rw [hfront]
    exact List.rdropWhile_concat_neg _ _ _ hp
  have hseparators := hkept (p := Location.isSeparator) (by decide)
  have hne : (idlePath n).toList.rdropWhile Location.isSeparator ≠ [] := by
    rw [hseparators, hfront]
    exact List.append_ne_nil_of_right_ne_nil _ (List.cons_ne_nil _ _)
  rw [Location.parse_scheme_append, hkept (by decide), String.ofList_toList]
  refine Location.filesystem_eq_ok_iff.2 ⟨idlePath_ne_empty n, ?_⟩
  rw [Location.withoutTrailing_of_ne_nil hne, hseparators, String.ofList_toList]

/-- The default settings, with a location on a path with idle steps. -/
def lookingIn (n : Nat) : Config :=
  { Config.standard with locations := [Medium.filesystem.scheme ++ idlePath n] }

theorem roots_lookingIn (n : Nat) :
    (lookingIn n).roots.result = .ok [⟨.filesystem, idlePath n⟩] := by
  have hparse : Location.parseAll (lookingIn n).locations = .ok [⟨.filesystem, idlePath n⟩] := by
    rw [Location.parseAll, lookingIn, List.mapM_cons, parse_idlePath]
    rfl
  rw [Config.roots, Location.result_parseRoots, hparse]
  exact congrArg Except.ok (Location.roots_singleton _)

/-- Without a configuration file the location is asked for on the command line. -/
theorem configured_lookingIn (env : Environment) (n : Nat) :
    configured env emptyInside none (lookingIn n).locations = .ok (lookingIn n) := by
  have hnone : emptyInside.node? defaultConfigFile = none := by
    refine Option.eq_none_iff_forall_ne_some.2 fun node hnode => ?_
    obtain ⟨-, place, hplace, -⟩ := FileTree.node?_eq_some_iff.1 hnode
    cases (FileTree.resolve?_eq_some_iff.1 hplace).2
  have hread : readConfig env emptyInside none = .ok .standard := by
    unfold readConfig configFile?
    rw [FileTree.isFile, hnone]
    rfl
  rw [configured, hread]
  rfl

/-- Nothing is matched in a directory that cannot be listed, but there is no plan. -/
theorem not_exit_status_emptyInside :
    ¬ ∀ (env : Environment) (files : FileTree) (path? : Option String) (locations : List String)
      (verbose : Bool),
      (Invocation.run env files ⟨path?, verbose, .validate locations⟩).value.exitCode = 0 ↔
        ∃ config, configured env files path? locations = .ok config ∧
          config.check.result = .ok () ∧ config.resolvers = [] ∧ config.MarksFit ∧
          (∀ repeatable resource, config.Matched files repeatable resource →
            ∃ m, config.record files repeatable resource = .ok m) ∧
          ¬ config.Collides files := by
  intro hall
  -- the number of steps is hidden, so that the path is not written out
  obtain ⟨n, hn, hlong⟩ : ∃ n, n ≤ 2047 ∧ 2045 ≤ n := ⟨2047, by decide⟩
  have hconfig := configured_lookingIn .empty n
  have hroots := roots_lookingIn n
  have hnothing (repeatable : Bool) (resource : Resource) :
      ¬ (lookingIn n).Matched emptyInside repeatable resource := by
    rintro ⟨-, ⟨roots, hroots', l, hl, resources, hfound, -⟩, -⟩
    obtain rfl := Except.ok.inj (hroots.symm.trans hroots')
    obtain rfl := List.mem_singleton.1 hl
    obtain ⟨e, he⟩ := scan_emptyInside hn hlong ((lookingIn n).scheme repeatable).marker
      ((lookingIn n).scheme repeatable).suffix
    cases hfound.symm.trans he
  have hcheck : (lookingIn n).check.result = .ok () :=
    Config.result_check_eq_ok_iff.2 ⟨by rfl, _, hroots⟩
  have hfit : Config.standard.MarksFit := fun _ => by decide
  have hzero := (hall .empty emptyInside none (lookingIn n).locations false).2
    ⟨lookingIn n, hconfig, hcheck, rfl, hfit, fun _ _ hmatched => absurd hmatched (hnothing _ _),
      Config.not_collides_of_not_matched hnothing⟩
  obtain ⟨resources, hfound⟩ := (resolves_of_exitCode hconfig hzero).listed rfl _ hroots _
    List.mem_cons_self false
  obtain ⟨e, he⟩ := scan_emptyInside hn hlong ((lookingIn n).scheme false).marker
    ((lookingIn n).scheme false).suffix
  cases hfound.symm.trans he

end SchemaPlan.Cli
