import SchemaPlan.Proofs.InStep
import SchemaPlan.Proofs.Migration.Draft
import SchemaPlan.Proofs.Resolver.Embedded
import SchemaPlan.Proofs.Storage.Holds

/-!
# Scripts that are kept elsewhere

What is found in a tree of scripts does not depend on where the tree is held. Bound to any place
that holds it, a resolver goes through the same scripts in the same order (`queue_eq`); each of them
has the same migration but for the place, or fails for the same reason (`inStep_migration`). So in
two places the same migrations are found, or the same script is the first to fail. Only a path that
is too long makes a difference: a script below a directory with a long path may be out of reach,
which in memory none is.
-/

namespace SchemaPlan

/-! ### What does not depend on the place -/

/-- What a migration is apart from its place and what applies it. -/
def Migration.identity (m : Migration) :
    Option Version × String × String × Option Int32 × ArtifactKind :=
  (m.version, m.description, m.script, m.checksum, m.kind)

/-- Migrations that are the same but for the place are sorted the same way. -/
theorem Migration.map_identity_sort {ms ms' : List Migration}
    (h : ms.map identity = ms'.map identity) :
    (sort ms).map identity = (sort ms').map identity := by
  -- a migration without a place, to compare identities as migrations are compared
  let somewhere (i : Option Version × String × String × Option Int32 × ArtifactKind) : Migration :=
    ⟨i.1, i.2.1, i.2.2.1, i.2.2.2.1, i.2.2.2.2, "", .idle⟩
  have hsort : ∀ ms : List Migration, (sort ms).map identity =
      (ms.map identity).mergeSort fun i j => ((somewhere i).cmp (somewhere j)).isLE := fun ms =>
    List.map_mergeSort fun a _ b _ => rfl
  rw [hsort, hsort, h]

/-- Whether two errors say the same but for the place that they name. -/
inductive PlanError.SameCause : PlanError → PlanError → Prop where
  /-- The errors are the same. -/
  | refl (e : PlanError) : SameCause e e
  /-- A content is bad for the same reason. -/
  | content (place place' reason : String) :
      SameCause (.content place reason) (.content place' reason)

namespace SqlResolver

/-! ### Going through scripts -/

variable (r : SqlResolver) (storage : Storage) (l : Location)

/-- The scripts that are scanned for one kind, without the callbacks. -/
def scriptsOf (repeatable : Bool) : Except PlanError (List (Bool × Resource)) :=
  let scheme := r.issued.config.scheme repeatable
  (r.scanner.scan storage l scheme.marker scheme.suffix).result.map fun resources =>
    (scripts scheme resources).map fun resource => (repeatable, resource)

/-- The scripts that a resolver goes through in a location, each with whether it is taken for a
repeatable one. -/
def queue : Except PlanError (List (Bool × Resource)) := do
  let versioned ← r.scriptsOf storage l false
  let repeatable ← r.scriptsOf storage l true
  return versioned ++ repeatable

/-- The migration of a script that a resolver goes through. -/
def attempt (replacer : Option Replacer) (script : Bool × Resource) : Except PlanError Migration :=
  r.migration storage.files replacer (r.issued.config.scheme script.1) script.1 script.2

/-- The migrations of scripts. An error comes with the path of the first script that has none. -/
def trial (replacer : Option Replacer) (scripts : List (Bool × Resource)) :
    Except (String × PlanError) (List Migration) :=
  scripts.mapM fun script => (r.attempt storage replacer script).mapError (script.2.path, ·)

variable {r storage l} {replacer : Option Replacer}

/-- The scripts for one kind are told by the scan for it. -/
theorem scriptsOf_of_scan {repeatable : Bool} {resources : List Resource}
    (h : (r.scanner.scan storage l (r.issued.config.scheme repeatable).marker
      (r.issued.config.scheme repeatable).suffix).result = .ok resources) :
    r.scriptsOf storage l repeatable =
      .ok ((scripts (r.issued.config.scheme repeatable) resources).map fun resource =>
        (repeatable, resource)) :=
  congrArg (Except.map _) h

/-- For one kind the migrations of the scripts of this kind are found. -/
theorem result_migrationsNamed_scheme {repeatable : Bool} {scripts : List (Bool × Resource)}
    (h : r.scriptsOf storage l repeatable = .ok scripts) :
    (r.migrationsNamed storage replacer l (r.issued.config.scheme repeatable) repeatable).result =
      scripts.mapM (r.attempt storage replacer) := by
  obtain ⟨resources, hscan, rfl⟩ := Traversal.map_eq_ok_iff.1 h
  rw [result_migrationsNamed, hscan, List.mapM_map]
  rfl

/-- What is found in a location are the migrations of the scripts gone through. -/
theorem foundIn_of_queue {scripts : List (Bool × Resource)} (h : r.queue storage l = .ok scripts) :
    r.foundIn storage replacer l =
      (r.trial storage replacer scripts).mapError fun e => .resolver name l.display e.2 := by
  simp only [queue, Traversal.bind_eq_ok_iff] at h
  obtain ⟨versioned, hversioned, repeatable, hrepeatable, ⟨⟩⟩ := h
  have hmigrations : (r.migrationsIn storage replacer l).result =
      (versioned ++ repeatable).mapM (r.attempt storage replacer) := by
    rw [List.mapM_append, ← result_migrationsNamed_scheme hversioned,
      ← result_migrationsNamed_scheme hrepeatable]
    exact result_migrationsIn r storage replacer l
  rw [foundIn, hmigrations, trial]
  refine (Traversal.mapError_mapM ?_ _ _).symm
  exact fun _ _ => rfl

/-- Nothing is found in a location that cannot be scanned. -/
theorem foundIn_of_scan_eq_error {e : PlanError}
    (h : (r.scanner.scan storage l (r.issued.config.scheme false).marker
      (r.issued.config.scheme false).suffix).result = .error e) :
    r.foundIn storage replacer l = .error (.resolver name l.display e) := by
  have hversioned : (r.migrationsNamed storage replacer l (r.issued.config.scheme false)
      false).result = .error e := by
    rw [result_migrationsNamed, h]
    rfl
  rw [foundIn, result_migrationsIn]
  change (r.migrationsNamed storage replacer l r.issued.config.versionedScheme false).result = _
    at hversioned
  rw [hversioned]
  rfl

/-- Whether what a resolver finds in a location fails at a script, by the path of the script below
the location. -/
structure FailsAt (r : SqlResolver) (storage : Storage) (l : Location) (path : String)
    (cause : PlanError) : Prop where
  /-- The script is the first one that has no migration. -/
  first : ∃ replacer scripts, r.activeReplacer = .ok replacer ∧ r.queue storage l = .ok scripts ∧
    r.trial storage replacer scripts = .error (path, cause)
  /-- What is wrong with it is wrong with the whole. -/
  result : (r.resolve storage).result = .error (.resolver name l.display cause)

/-- Whether what a resolver finds in a location fails because a path on disk is too long. -/
def FailsOverlong (r : SqlResolver) (storage : Storage) (l : Location) : Prop :=
  ∃ e, l.Overlong e ∧ (r.resolve storage).result = .error (.resolver name l.display e)

/-- A resolver that is bound to a location fails if it cannot replace placeholders. -/
theorem result_resolve_of_refused {e : PlanError} (hbound : r.location? = some l)
    (hreplacer : r.activeReplacer = .error e) : (r.resolve storage).result = .error e := by
  rw [result_resolve_of_bound r storage hbound, hreplacer]
  rfl

/-- Otherwise it sorts what is found there. -/
theorem result_resolve_of_active (hbound : r.location? = some l)
    (hreplacer : r.activeReplacer = .ok replacer) :
    (r.resolve storage).result = (r.foundIn storage replacer l).map Migration.sort := by
  rw [result_resolve_of_bound r storage hbound, hreplacer]
  rfl

/-- A resolver that is bound to a location fails at the first script that has no migration. -/
theorem failsAt_of_trial {scripts : List (Bool × Resource)} {path : String} {cause : PlanError}
    (hbound : r.location? = some l) (hreplacer : r.activeReplacer = .ok replacer)
    (hqueue : r.queue storage l = .ok scripts)
    (htrial : r.trial storage replacer scripts = .error (path, cause)) :
    r.FailsAt storage l path cause where
  first := ⟨replacer, scripts, hreplacer, hqueue, htrial⟩
  result := by
    rw [result_resolve_of_active hbound hreplacer, foundIn_of_queue hqueue, htrial]
    rfl

/-- Whether two resolvers find the same in two places but for the places. -/
inductive SameOutcome (r r' : SqlResolver) (storage storage' : Storage) (l l' : Location) :
    Prop where
  /-- Both find the same migrations. -/
  | found {ms ms' : List Migration} (left : (r.resolve storage).result = .ok ms)
      (right : (r'.resolve storage').result = .ok ms')
      (same : ms.map Migration.identity = ms'.map Migration.identity)
  /-- Both fail at the same script, for the same reason. -/
  | failed {path : String} {cause cause' : PlanError} (left : r.FailsAt storage l path cause)
      (right : r'.FailsAt storage' l' path cause') (same : cause.SameCause cause')
  /-- Neither can replace placeholders. -/
  | refused {e : PlanError} (replacer : r.activeReplacer = .error e)
      (left : (r.resolve storage).result = .error e)
      (right : (r'.resolve storage').result = .error e)

end SqlResolver

/-! ### A tree of scripts -/

section Tree

variable {storage storage' : Storage} {tree : Dict (List UInt8)} {l l' : Location}
  {issued : IssuedConfig} {replacer : Option Replacer}

/-- The files of a tree that are scripts, each with whether it is taken for a repeatable one. -/
def Config.scriptsIn (c : Config) (tree : Dict (List UInt8)) :
    List (Bool × (String × List UInt8)) :=
  (tree.toList.filter fun file => c.wants false file.1).map (false, ·) ++
    (tree.toList.filter fun file => c.wants true file.1).map (true, ·)

namespace SqlResolver

theorem scripts_wanted (c : Config) (tree : Dict (List UInt8)) (l : Location)
    (repeatable : Bool) :
    scripts (c.scheme repeatable)
        ((tree.wanted (c.scheme repeatable).marker (c.scheme repeatable).suffix).map
          l.resourceAt) =
      (tree.toList.filter fun file => c.wants repeatable file.1).map l.resourceAt := by
  rw [scripts, List.filter_map, Dict.wanted, List.filter_filter]
  refine congrArg _ (List.filter_congr fun file _ => ?_)
  rw [Function.comp, Location.filename_resourceAt, Config.wants, NameScheme.covers,
    Config.suffix_scheme, Bool.and_comm]

/-- In every place that holds a tree the same scripts are gone through, unless there is a directory
with a path that is too long. -/
theorem queue_eq (h : storage.Holds tree l) (issued : IssuedConfig) :
    (forLocation l .standard issued).queue storage l =
        .ok ((issued.config.scriptsIn tree).map fun script => (script.1, l.resourceAt script.2)) ∨
      ∃ e, l.Overlong e ∧ ∀ replacer,
        (forLocation l .standard issued).foundIn storage replacer l =
          .error (.resolver name l.display e) := by
  rcases h.result_scan with hscan | hscan
  · refine .inl ?_
    have hscripts : ∀ repeatable,
        (forLocation l .standard issued).scriptsOf storage l repeatable =
          .ok ((tree.toList.filter fun file => issued.config.wants repeatable file.1).map
            fun file => (repeatable, l.resourceAt file)) := by
      intro repeatable
      have hscripts := scriptsOf_of_scan (r := forLocation l .standard issued)
        (hscan (issued.config.scheme repeatable).marker (issued.config.scheme repeatable).suffix)
      rw [hscripts]
      show Except.ok ((scripts (issued.config.scheme repeatable) _).map _) = _
      rw [scripts_wanted, List.map_map]
      rfl
    rw [queue, hscripts, hscripts, Config.scriptsIn, List.map_append, List.map_map, List.map_map]
    rfl
  · obtain ⟨e, he, hscan⟩ := hscan (issued.config.scheme false).marker
      (issued.config.scheme false).suffix
    exact .inr ⟨e, he, fun replacer => foundIn_of_scan_eq_error hscan⟩

/-- In every place that holds a tree a file has the same content, unless its path is too long. -/
theorem inStep_bytes (h : storage.Holds tree l) (h' : storage'.Holds tree l')
    {file : String × List UInt8} (hfile : file ∈ tree.toList) :
    InStep Eq PlanError.SameCause l.Overlong l'.Overlong
      ((l.resourceAt file).bytes storage.files) ((l'.resourceAt file).bytes storage'.files) := by
  rcases h.bytes_resourceAt hfile with hbytes | ⟨e, he, hbytes⟩
  · rcases h'.bytes_resourceAt hfile with hbytes' | ⟨e, he, hbytes'⟩
    · rw [hbytes, hbytes']
      exact .ok rfl
    · rw [hbytes']
      exact .right he
  · rw [hbytes]
    exact .left he

theorem inStep_text (h : storage.Holds tree l) (h' : storage'.Holds tree l')
    {file : String × List UInt8} (hfile : file ∈ tree.toList) :
    InStep Eq PlanError.SameCause l.Overlong l'.Overlong
      ((l.resourceAt file).text storage.files) ((l'.resourceAt file).text storage'.files) := by
  unfold Resource.text
  refine (inStep_bytes h h' hfile).bind fun bytes _ heq => ?_
  subst heq
  cases Text.decodeText bytes with
  | ok text => exact .ok rfl
  | error e => exact .error (.content _ _ _)

theorem inStep_resourceChecksum (policy : ChecksumPolicy) (h : storage.Holds tree l)
    (h' : storage'.Holds tree l') {file : String × List UInt8} (hfile : file ∈ tree.toList) :
    InStep Eq PlanError.SameCause l.Overlong l'.Overlong
      (policy.resourceChecksum storage.files (l.resourceAt file))
      (policy.resourceChecksum storage'.files (l'.resourceAt file)) := by
  cases policy with
  | rawBytes => exact (inStep_bytes h h' hfile).map fun _ _ => congrArg _
  | lines => exact (inStep_text h h' hfile).map fun _ _ => congrArg _
  | trimmedLines => exact (inStep_text h h' hfile).map fun _ _ => congrArg _

/-- In every place that holds a tree a script has the same migration but for the place. -/
theorem inStep_migration (h : storage.Holds tree l) (h' : storage'.Holds tree l')
    {file : String × List UInt8} (hfile : file ∈ tree.toList) (scheme : NameScheme)
    (repeatable : Bool) :
    InStep (fun m m' => m.identity = m'.identity) PlanError.SameCause l.Overlong l'.Overlong
      ((forLocation l .standard issued).migration storage.files replacer scheme repeatable
        (l.resourceAt file))
      ((forLocation l' .standard issued).migration storage'.files replacer scheme repeatable
        (l'.resourceAt file)) := by
  unfold migration
  have htitle : (forLocation l' .standard issued).readName (l'.resourceAt file) scheme repeatable =
      (forLocation l .standard issued).readName (l.resourceAt file) scheme repeatable := by
    show scheme.read (l'.resourceAt file).filename _ = scheme.read (l.resourceAt file).filename _
    rw [Location.filename_resourceAt, Location.filename_resourceAt]
  rw [htitle]
  refine (InStep.refl (fun _ => rfl) .refl _).bind fun title _ heq => ?_
  subst heq
  refine (inStep_resourceChecksum _ h h' hfile).bind fun checksum _ heq => ?_
  subst heq
  rw [Location.path_resourceAt, Location.path_resourceAt]
  show InStep _ _ _ _ (Migration.Draft.complete _) (Migration.Draft.complete _)
  rw [Migration.Draft.complete_eq, Migration.Draft.complete_eq]
  split
  · exact .error (.refl _)
  · exact .ok rfl

/-- In every place that holds a tree the migrations of the same scripts are the same, or the same
script has none for the same reason. -/
theorem inStep_trial (h : storage.Holds tree l) (h' : storage'.Holds tree l') :
    InStep (List.Forall₂ fun m m' => m.identity = m'.identity)
      (fun e e' => e.1 = e'.1 ∧ e.2.SameCause e'.2) (fun e => l.Overlong e.2)
      (fun e => l'.Overlong e.2)
      ((forLocation l .standard issued).trial storage replacer
        ((issued.config.scriptsIn tree).map fun script => (script.1, l.resourceAt script.2)))
      ((forLocation l' .standard issued).trial storage' replacer
        ((issued.config.scriptsIn tree).map fun script => (script.1, l'.resourceAt script.2))) := by
  have hmem : ∀ script ∈ issued.config.scriptsIn tree, script.2 ∈ tree.toList := by
    intro script hscript
    rcases List.mem_append.1 hscript with hscript | hscript <;>
    · obtain ⟨file, hfile, rfl⟩ := List.mem_map.1 hscript
      exact (List.mem_filter.1 hfile).1
  rw [trial, trial, List.mapM_map, List.mapM_map]
  refine InStep.mapM fun script hscript => ?_
  refine (inStep_migration h h' (hmem script hscript) _ script.1).mapError ?_ ?_ ?_
  · intro e e' he
    simp [he]
  · exact fun _ he => he
  · exact fun _ he => he

/-- **Independence of the storage**: what is found in a tree of scripts does not depend on the place
that holds it, unless in one of two places a path is too long. -/
theorem sameOutcome_or_failsOverlong (h : storage.Holds tree l) (h' : storage'.Holds tree l')
    (issued : IssuedConfig) :
    SameOutcome (forLocation l .standard issued) (forLocation l' .standard issued) storage storage'
        l l' ∨
      (forLocation l .standard issued).FailsOverlong storage l ∨
      (forLocation l' .standard issued).FailsOverlong storage' l' := by
  have hsame : (forLocation l' .standard issued).activeReplacer =
    (forLocation l .standard issued).activeReplacer := rfl
  cases hactive : (forLocation l .standard issued).activeReplacer with
  | error e =>
    exact .inl (.refused hactive (result_resolve_of_refused rfl hactive)
      (result_resolve_of_refused rfl (hsame.trans hactive)))
  | ok replacer =>
    have hactive' := hsame.trans hactive
    have hresolve := @result_resolve_of_active _ storage _ _ rfl hactive
    have hresolve' := @result_resolve_of_active _ storage' _ _ rfl hactive'
    rcases queue_eq h issued with hqueue | ⟨e, he, hfound⟩
    swap
    · exact .inr (.inl ⟨e, he, hresolve.trans (congrArg _ (hfound replacer))⟩)
    rcases queue_eq h' issued with hqueue' | ⟨e, he, hfound⟩
    swap
    · exact .inr (.inr ⟨e, he, hresolve'.trans (congrArg _ (hfound replacer))⟩)
    rw [foundIn_of_queue hqueue] at hresolve
    rw [foundIn_of_queue hqueue'] at hresolve'
    have hinStep := @inStep_trial _ _ _ _ _ issued replacer h h'
    generalize htrial : trial _ storage replacer _ = found at hinStep hresolve
    generalize htrial' : trial _ storage' replacer _ = found' at hinStep hresolve'
    cases hinStep with
    | @ok ms ms' hms =>
      refine .inl (.found hresolve hresolve' (Migration.map_identity_sort ?_))
      exact Traversal.map_eq_map_of_forall₂ hms fun _ _ hm => hm
    | @error e e' he =>
      obtain ⟨path, cause⟩ := e
      obtain ⟨_, cause'⟩ := e'
      obtain ⟨rfl, hcause⟩ := he
      exact .inl (.failed (failsAt_of_trial rfl hactive hqueue htrial)
        (failsAt_of_trial rfl hactive' hqueue' htrial') hcause)
    | @left e _ he => exact .inr (.inl ⟨e.2, he, hresolve⟩)
    | @right _ e he => exact .inr (.inr ⟨e.2, he, hresolve'⟩)

end SqlResolver

end Tree

/-! ### Two scripts in two places -/

/-- A versioned script, and a repeatable one in a directory of its own. -/
def twoScripts : Dict (List UInt8) :=
  Dict.ofList [("V1__a.sql", []), ("views/R__b.sql", [])]

/-- The directory of two scripts. -/
def scriptDirectory : List (String × Node) :=
  [("views", .dir [("R__b.sql", .file [])]), ("V1__a.sql", .file [])]

/-- A storage that has two scripts in the directory `m` and in the package `pkg`. -/
def twoPlaces : Storage where
  files := { root := .dir [("m", .dir scriptDirectory)] }
  embedded := ⟨Dict.ofList [("pkg/V1__a.sql", []), ("pkg/views/R__b.sql", [])]⟩

theorem plain_scriptDirectory : (Node.dir scriptDirectory).Plain := by
  refine .dir (by decide) (by decide) ?_
  have hviews : (Node.dir [("R__b.sql", .file [])]).Plain :=
    .dir (by decide) (by decide) (List.forall_mem_singleton.2 (.file []))
  exact List.forall_mem_cons.2 ⟨hviews, List.forall_mem_singleton.2 (.file [])⟩

theorem holds_directory {path : String}
    (h : twoPlaces.files.node? path = some (.dir scriptDirectory)) :
    twoPlaces.Holds twoScripts ⟨.filesystem, path⟩ := by
  refine .directory h plain_scriptDirectory ((Node.hasFiles_iff_perm plain_scriptDirectory).2 ?_)
  exact List.Perm.swap _ _ _

theorem holds_package : twoPlaces.Holds twoScripts ⟨.embedded, "pkg"⟩ :=
  .package (Bundle.hasFiles_iff.2 rfl)

/-- A path that leads to the directory `m`, after some steps that stay where they are. -/
def idlePath : Nat → String
  | 0 => "m"
  | n + 1 => "./" ++ idlePath n

theorem utf8ByteSize_idlePath (n : Nat) : (idlePath n).utf8ByteSize = 2 * n + 1 := by
  induction n with
  | zero => rfl
  | succ n ih =>
    rw [idlePath, String.utf8ByteSize_append, ih]
    show 2 + (2 * n + 1) = _
    omega

theorem nul_not_mem_idlePath (n : Nat) : '\x00' ∉ (idlePath n).toList := by
  induction n with
  | zero => decide
  | succ n ih => simpa [idlePath, String.toList_append] using ih

theorem pieces_idlePath (n : Nat) :
    FileTree.pieces (idlePath n).toList = List.replicate n "." ++ ["m"] := by
  induction n with
  | zero => rfl
  | succ n ih =>
    rw [idlePath, String.toList_append, List.replicate_succ, List.cons_append, ← ih]
    exact FileTree.pieces_append_cons ['.'] _

theorem follow_idle {root : Node} {es : List (String × Node)}
    {onLink : List String → List String → Option (List String)} (h : root.at? [] = some (.dir es))
    (n : Nat) (names : List String) :
    FileTree.follow root false onLink [] (List.replicate n "." ++ names) =
      FileTree.follow root false onLink [] names := by
  induction n with
  | zero => rfl
  | succ n ih =>
    rw [List.replicate_succ, List.cons_append, FileTree.follow, h]
    exact ih

theorem idlePath_ne_empty (n : Nat) : idlePath n ≠ "" := by
  intro hempty
  have hsize := utf8ByteSize_idlePath n
  rw [hempty] at hsize
  cases hsize

theorem node?_idlePath {es : List (String × Node)} {n : Nat} (h : n ≤ 2047) :
    FileTree.node? { root := .dir [("m", .dir es)] } (idlePath n) = some (.dir es) := by
  have hne := idlePath_ne_empty n
  have hsplit : FileTree.splitPath (idlePath n) = (false, List.replicate n "." ++ ["m"]) := by
    have hpieces := pieces_idlePath n
    cases n with
    | zero => rfl
    | succ n => rw [FileTree.splitPath_eq hne hpieces]; rfl
  refine FileTree.node?_eq_some_iff.2 ⟨hne, ["m"], FileTree.resolve?_eq_some_iff.2
    ⟨FileTree.isPath_iff.2 ⟨?_, nul_not_mem_idlePath n⟩, ?_⟩, rfl⟩
  · rw [utf8ByteSize_idlePath]
    show _ ≤ 4095
    omega
  · rw [hsplit]
    exact (follow_idle rfl n ["m"]).trans rfl

namespace SqlResolver

/-- A directory and a package may hold the same two scripts. -/
theorem sameOutcome_twoPlaces :
    twoPlaces.Holds twoScripts ⟨.filesystem, "m"⟩ ∧ twoPlaces.Holds twoScripts ⟨.embedded, "pkg"⟩ ∧
      (SameOutcome (forLocation ⟨.filesystem, "m"⟩ .standard .standard)
          (forLocation ⟨.embedded, "pkg"⟩ .standard .standard) twoPlaces twoPlaces
          ⟨.filesystem, "m"⟩ ⟨.embedded, "pkg"⟩ ∨
        (forLocation ⟨.filesystem, "m"⟩ .standard .standard).FailsOverlong twoPlaces
          ⟨.filesystem, "m"⟩ ∨
        (forLocation ⟨.embedded, "pkg"⟩ .standard .standard).FailsOverlong twoPlaces
          ⟨.embedded, "pkg"⟩) := by
  have hdirectory : twoPlaces.Holds twoScripts ⟨.filesystem, "m"⟩ :=
    holds_directory (node?_idlePath (Nat.zero_le 2047))
  exact ⟨hdirectory, holds_package, sameOutcome_or_failsOverlong hdirectory holds_package _⟩

theorem activeReplacer_standard (l : Location) :
    (forLocation l .standard .standard).activeReplacer =
      .ok (some ⟨Dict.empty, "$\x7b", "\x7d"⟩) := by
  show (Replacer.make Dict.empty "$\x7b" "\x7d").map some = _
  rw [Replacer.make, if_neg (by decide), if_neg (by decide)]
  rfl

theorem scriptsIn_twoScripts : Config.standard.scriptsIn twoScripts =
    [(false, "V1__a.sql", []), (true, "views/R__b.sql", [])] := rfl

/-- In the package both scripts have a migration. -/
theorem exists_result_package :
    ∃ ms, ((forLocation ⟨.embedded, "pkg"⟩ .standard .standard).resolve twoPlaces).result =
      .ok ms := by
  have hactive := activeReplacer_standard ⟨.embedded, "pkg"⟩
  rcases queue_eq holds_package .standard with hqueue | ⟨_, ⟨hdisk, _, _⟩, _⟩
  swap
  · cases hdisk
  rw [result_resolve_of_active rfl hactive, foundIn_of_queue hqueue]
  generalize some _ = replacer
  have hattempt : ∀ script ∈ [(false, "V1__a.sql", []), (true, "views/R__b.sql", [])],
      ∃ m, (forLocation ⟨.embedded, "pkg"⟩ .standard .standard).attempt twoPlaces replacer
        (script.1, Location.resourceAt ⟨.embedded, "pkg"⟩ script.2) = .ok m := by
    rw [List.forall_mem_cons, List.forall_mem_singleton]
    exact ⟨⟨_, migration_eq_ok_iff.2 ⟨_, _, _, rfl, rfl, rfl, rfl, rfl⟩⟩,
      ⟨_, migration_eq_ok_iff.2 ⟨_, _, _, rfl, rfl, rfl, rfl, rfl⟩⟩⟩
  have htrial : ∃ ms, (forLocation ⟨.embedded, "pkg"⟩ .standard .standard).trial twoPlaces replacer
      ((Config.standard.scriptsIn twoScripts).map fun script =>
        (script.1, Location.resourceAt ⟨.embedded, "pkg"⟩ script.2)) = .ok ms := by
    rw [trial, List.mapM_map, scriptsIn_twoScripts]
    refine Traversal.exists_mapM_eq_ok_iff.2 fun script hscript => ?_
    obtain ⟨m, hm⟩ := hattempt script hscript
    exact ⟨m, Traversal.mapError_eq_ok_iff.2 hm⟩
  obtain ⟨ms, hms⟩ := htrial
  exact ⟨Migration.sort ms, Traversal.map_eq_ok_iff.2
    ⟨ms, Traversal.mapError_eq_ok_iff.2 hms, rfl⟩⟩

/-- Where the path of the versioned script is too long, nothing is found. -/
theorem result_ne_of_size {path : String} (hholds : twoPlaces.Holds twoScripts ⟨.filesystem, path⟩)
    (hsize : FileTree.maxPathSize < (FileTree.join path "V1__a.sql").utf8ByteSize)
    (ms : List Migration) :
    ((forLocation ⟨.filesystem, path⟩ .standard .standard).resolve twoPlaces).result ≠ .ok ms := by
  intro h
  rw [result_resolve_of_active rfl (activeReplacer_standard _)] at h
  obtain ⟨found, hfound, -⟩ := Traversal.map_eq_ok_iff.1 h
  rcases queue_eq hholds .standard with hqueue | ⟨e, _, herror⟩
  swap
  · cases hfound.symm.trans (herror _)
  rw [foundIn_of_queue hqueue] at hfound
  have htrial := Traversal.mapError_eq_ok_iff.1 hfound
  change List.mapM _ ((Config.standard.scriptsIn twoScripts).map _) = _ at htrial
  rw [scriptsIn_twoScripts, Traversal.mapM_eq_ok_iff, List.map_cons, List.forall₂_cons_left_iff]
    at htrial
  obtain ⟨m, _, hm, _⟩ := htrial
  obtain ⟨_, checksum, _, _, hchecksum, _⟩ :=
    migration_eq_ok_iff.1 (Traversal.mapError_eq_ok_iff.1 hm)
  obtain ⟨text, htext, -⟩ := Traversal.map_eq_ok_iff.1 hchecksum
  obtain ⟨bytes, hbytes, -⟩ := Traversal.bind_eq_ok_iff.1 htext
  have hread : twoPlaces.files.read? (FileTree.join path "V1__a.sql") = none := by
    rw [FileTree.read?, FileTree.node?_of_size hsize]
  cases hbytes.symm.trans (Resource.bytes_ofFile_of_none hread _)

/-- A directory whose path is nearly too long holds two scripts as a package does, but not the same
is found there. -/
theorem not_sameOutcome_idlePath :
    twoPlaces.Holds twoScripts ⟨.filesystem, idlePath 2045⟩ ∧
      twoPlaces.Holds twoScripts ⟨.embedded, "pkg"⟩ ∧
      ¬ SameOutcome (forLocation ⟨.filesystem, idlePath 2045⟩ .standard .standard)
        (forLocation ⟨.embedded, "pkg"⟩ .standard .standard) twoPlaces twoPlaces
        ⟨.filesystem, idlePath 2045⟩ ⟨.embedded, "pkg"⟩ := by
  have hholds : twoPlaces.Holds twoScripts ⟨.filesystem, idlePath 2045⟩ :=
    holds_directory (node?_idlePath (by decide))
  have hsize : FileTree.maxPathSize <
      (FileTree.join (idlePath 2045) "V1__a.sql").utf8ByteSize := by
    obtain ⟨slash, -, hjoin⟩ := FileTree.exists_join_eq (idlePath 2045)
    rw [hjoin, String.utf8ByteSize_append, String.utf8ByteSize_append, utf8ByteSize_idlePath]
    show 4095 < 4091 + slash.utf8ByteSize + 9
    omega
  refine ⟨hholds, holds_package, fun h => ?_⟩
  obtain ⟨found, hfound⟩ := exists_result_package
  cases h with
  | found left _ _ => exact result_ne_of_size hholds hsize _ left
  | failed _ right _ => cases hfound.symm.trans right.result
  | refused _ _ right => cases hfound.symm.trans right

end SqlResolver

end SchemaPlan
