import SchemaPlan.Proofs.Location.Nesting
import SchemaPlan.Proofs.Plan.Standalone
import SchemaPlan.Proofs.Resolver.Embedded

/-!
# Scripts that contradict themselves

Two migrations are in conflict if they are in one place of the order and are no duplicates. Scripts
that were found at the same names below one place are duplicates (`ScriptAt.same`). So if a script
on disk is in conflict with itself, it was found below two places of which one is inside the other
(`ScriptAt.prefix_of_contradicts`), and its two names below these differ.

Of two roots neither encloses the other, but that is decided by their paths. Where there are no
links, paths of plain names lead to these names below the working directory (`resolve?_eq_append`),
and then one place is inside the other only if one location encloses the other
(`encloses_of_pieces`). What is left are paths that wind, with names that stay where they are or go
up (`Winding`): by these, two roots can overlap, and then a script of the inner one is found twice.
-/

namespace SchemaPlan

/-! ### Paths without idle steps -/

namespace FileTree

variable {t : FileTree} {root : Node} {place q names : List String} {path : String} {links : Nat}

/-- Whether one of the names in a path stays where it is or goes up. The empty name before a slash
at the front is one of them. -/
def Winding (path : String) : Prop :=
  ∃ name ∈ pieces path.toList, name = "" ∨ name = "." ∨ name = ".."

/-- Where there are no links, names that neither stay nor go up lead to themselves. -/
theorem eq_append_of_resolveFrom (hplain : root.Plain)
    (hnames : ∀ name ∈ names, ¬ (name = "" ∨ name = "." ∨ name = ".."))
    (h : resolveFrom root false links place names = some q) : q = place ++ names := by
  obtain ⟨onLink, heq⟩ := exists_onLink root links
  rw [heq] at h
  clear heq
  induction names generalizing place with
  | nil =>
    rw [follow] at h
    cases h
    exact (List.append_nil _).symm
  | cons name names ih =>
    obtain ⟨hname, hnames⟩ := List.forall_mem_cons.1 hnames
    rw [not_or, not_or] at hname
    obtain ⟨hempty, hself, hparent⟩ := hname
    rw [follow] at h
    split at h
    · next es hdir =>
      rw [if_neg (not_or.2 ⟨hempty, hself⟩), if_neg hparent] at h
      split at h
      · next target hlookup =>
        exact absurd rfl (((hplain.of_at? hdir).of_lookup hlookup).not_link target)
      · rw [ih hnames h, List.append_assoc, List.singleton_append]
      · cases h
    · cases h

/-- Where there are no links, a path that does not wind leads from the working directory to its
names. -/
theorem resolve?_eq_append (hplain : t.root.Plain) (hpath : ¬ Winding path)
    (h : t.resolve? false path = some q) : q = t.workingDirectory ++ pieces path.toList := by
  have hnames : ∀ name ∈ pieces path.toList, ¬ (name = "" ∨ name = "." ∨ name = "..") :=
    fun name hname hidle => hpath ⟨name, hname, hidle⟩
  obtain ⟨first, rest, hpieces⟩ := List.exists_cons_of_ne_nil (pieces_ne_nil path.toList)
  have hfirst : first ≠ "" := fun heq =>
    hnames first (hpieces ▸ List.mem_cons_self) (.inl heq)
  have hne : path ≠ "" := by
    rintro rfl
    have hempty : pieces "".toList = [""] := by decide
    rw [hempty] at hpieces
    cases hpieces
    exact hfirst rfl
  obtain ⟨-, h⟩ := resolve?_eq_some_iff.1 h
  rw [splitPath_eq hne hpieces, if_neg hfirst, ← hpieces] at h
  exact eq_append_of_resolveFrom hplain hnames h

end FileTree

namespace Location

variable {k l : Location}

/-- A location encloses another one if the names in its path are the first of those in the path of
the other one. -/
theorem encloses_of_pieces (hmedium : k.medium = l.medium) (hne : k.path ≠ l.path)
    (h : FileTree.pieces k.path.toList <+: FileTree.pieces l.path.toList) : k.encloses l := by
  obtain ⟨rest, hrest⟩ := h
  have hpath : l.path.toList = k.path.toList ++ '/' :: ("/".intercalate rest).toList := by
    have hne : rest ≠ [] := by
      rintro rfl
      rw [List.append_nil] at hrest
      refine hne ?_
      rw [← String.ofList_toList (s := k.path), ← String.ofList_toList (s := l.path),
        ← FileTree.intercalate_pieces, hrest, FileTree.intercalate_pieces]
    have hslash : ∀ name ∈ rest, '/' ∉ name.toList := fun name hname =>
      FileTree.slash_not_mem_pieces name (hrest ▸ List.mem_append_right _ hname)
    have hpieces : FileTree.pieces l.path.toList =
        FileTree.pieces (k.path.toList ++ '/' :: ("/".intercalate rest).toList) := by
      rw [FileTree.pieces_append_cons, FileTree.pieces_intercalate hne hslash, hrest]
    have hjoined := congrArg "/".intercalate hpieces
    rw [FileTree.intercalate_pieces, FileTree.intercalate_pieces] at hjoined
    exact String.ofList_injective hjoined
  exact encloses_iff_text.2 ⟨hmedium, hne, .inr ⟨_, hpath, .inl ⟨_, rfl⟩⟩⟩

end Location

/-- Whether a location leads to a directory inside that of another one by a path that does not show
it. -/
inductive FileTree.Overlaps (t : FileTree) (k l : Location) : Prop where
  | intro {p q : List String} (outer : t.resolve? false k.path = some p)
      (inner : t.resolve? false l.path = some q) (inside : p <+: q) (proper : p ≠ q)
      (winding : Winding k.path ∨ Winding l.path)

namespace Location

variable {t : FileTree} {k l : Location} {ls : List Location} {p q : List String}

/-- Roots on disk of which one leads inside the other overlap. -/
theorem overlaps_of_prefix (hplain : t.root.Plain) (hk : k ∈ roots ls) (hl : l ∈ roots ls)
    (hmedium : k.medium = l.medium) (hp : t.resolve? false k.path = some p)
    (hq : t.resolve? false l.path = some q) (hinside : p <+: q) (hproper : p ≠ q) :
    t.Overlaps k l := by
  refine .intro hp hq hinside hproper ?_
  by_contra hwinding
  rw [not_or] at hwinding
  have hp' := FileTree.resolve?_eq_append hplain hwinding.1 hp
  have hq' := FileTree.resolve?_eq_append hplain hwinding.2 hq
  have hne : k.path ≠ l.path := by
    intro heq
    rw [heq, hq] at hp
    cases hp
    exact hproper rfl
  rw [hp', hq', List.prefix_append_right_inj] at hinside
  exact (mem_roots_iff.1 hl).2 k (mem_roots_iff.1 hk).1
    (encloses_of_pieces hmedium hne hinside)

end Location

/-! ### Scripts on disk -/

/-- Whether the resolver of scripts in a location finds a migration. -/
def CompositeParts.FindsIn (parts : CompositeParts) (storage : Storage) (l : Location)
    (m : Migration) : Prop :=
  ∃ replacer found,
    (Composite.scriptResolver parts replacer l).foundIn storage replacer l = .ok found ∧ m ∈ found

/-- Whether a migration is that of the script on disk at some names below the place of a location.
-/
structure Migration.ScriptAt (t : FileTree) (c : Config) (l : Location) (place names : List String)
    (repeatable : Bool) (m : Migration) : Prop where
  leads : t.resolve? false l.path = some place
  script : m.script = "/".intercalate names
  below : m.physicalLocation = FileTree.join l.path m.script
  denotes : t.resolve? false m.physicalLocation = some (place ++ names)
  isFile : t.isFile m.physicalLocation
  title : (c.scheme repeatable).read (lastSegment m.script) repeatable =
    .ok ⟨m.version, m.description⟩
  content : ∃ bytes, t.root.at? (place ++ names) = some (.file bytes) ∧
    m.checksum = c.checksumPolicy.contentChecksum? bytes
  kind : m.kind = .sql

namespace Migration

variable {t : FileTree} {c : Config} {k l : Location} {p q names names' : List String}
  {repeatable repeatable' : Bool} {m m' : Migration}

theorem ScriptAt.isRepeatable_eq (h : m.ScriptAt t c l p names repeatable) :
    m.isRepeatable = repeatable :=
  NameScheme.isNone_version_of_read h.title

/-- What has been found at the same names below one place is a duplicate. -/
theorem ScriptAt.same (h : m.ScriptAt t c k p names repeatable)
    (h' : m'.ScriptAt t c l p names repeatable) : m.same m' := by
  have hscript : m.script = m'.script := h.script.trans h'.script.symm
  have htitle : (⟨m.version, m.description⟩ : Title) = ⟨m'.version, m'.description⟩ := by
    have hread := h.title
    rw [hscript, h'.title] at hread
    exact (Except.ok.inj hread).symm
  obtain ⟨hversion, hdescription⟩ := Title.mk.inj htitle
  obtain ⟨bytes, hbytes, hchecksum⟩ := h.content
  obtain ⟨bytes', hbytes', hchecksum'⟩ := h'.content
  rw [hbytes'] at hbytes
  cases hbytes
  refine same_iff.2 ⟨?_, hdescription, hscript, hchecksum.trans hchecksum'.symm,
    h.kind.trans h'.kind.symm⟩
  rw [hversion]
  exact Std.ReflCmp.compare_self

/-- Scripts that contradict each other and yet are one file have been found below places of which
one is inside the other. -/
theorem ScriptAt.prefix_of_contradicts (h : m.ScriptAt t c k p names repeatable)
    (h' : m'.ScriptAt t c l q names' repeatable') (hfile : p ++ names = q ++ names')
    (hcontradicts : m.Contradicts m') : (p <+: q ∨ q <+: p) ∧ p ≠ q := by
  have hprefix : p <+: p ++ names := List.prefix_append p names
  have hprefix' : q <+: p ++ names := hfile ▸ List.prefix_append q names'
  refine ⟨List.prefix_or_prefix_of_prefix hprefix hprefix', ?_⟩
  rintro rfl
  obtain rfl := List.append_cancel_left hfile
  have hrepeatable : repeatable = repeatable' := by
    rw [← h.isRepeatable_eq, ← h'.isRepeatable_eq]
    exact isRepeatable_eq_of_cmp_eq hcontradicts.1
  subst hrepeatable
  have hsame := h.same h'
  rw [hcontradicts.2] at hsame
  cases hsame

/-- What the resolver of a location on disk finds are scripts there. -/
theorem exists_scriptAt {parts : CompositeParts} {storage : Storage}
    (hscanner : parts.scanner.ReadsFiles) (hplain : storage.files.root.Plain)
    (hl : l.isFilesystem) (h : parts.FindsIn storage l m) :
    ∃ place names repeatable,
      m.ScriptAt storage.files parts.issued.config l place names repeatable := by
  obtain ⟨replacer, found, hfound, hm⟩ := h
  obtain ⟨repeatable, resources, hscan, resource, hresource, hmigration⟩ :=
    SqlResolver.exists_of_mem_foundIn hfound hm
  change (parts.scanner.scan storage l _ _).result = _ at hscan
  rw [hscanner storage _ _ hl] at hscan
  obtain ⟨place, names, hmeets, rfl⟩ :=
    FileTree.exists_meets_of_mem_scan hplain.proper hscan hresource
  obtain ⟨title, sum, executor, htitle, hsum, -, -, rfl⟩ :=
    SqlResolver.migration_eq_ok_iff.1 hmigration
  obtain ⟨bytes, hbytes, hsum⟩ := ChecksumPolicy.resourceChecksum_eq_ok_iff.1 hsum
  have hread := Resource.read?_of_bytes_ofFile hbytes
  have hnode : storage.files.node? (FileTree.join l.path ("/".intercalate names)) =
      some (.file bytes) := by
    unfold FileTree.read? at hread
    split at hread
    · next content hcontent => rw [hcontent, Option.some.inj hread]
    · cases hread
  have hsize := (FileTree.isPath_iff.1 (FileTree.isPath_of_node? hnode)).1
  obtain ⟨inner, hat, -⟩ := hmeets.entry
  obtain ⟨es, hplace, hdir⟩ := hmeets.exists_dir
  have hlink := (hplain.of_at? hat).not_link
  have hinner := hat
  rw [Node.at?_append, hplace, Option.bind_some] at hinner
  have hproper := (hplain.of_at? hplace).proper
  have hjoin := FileTree.node?_join hdir hproper hmeets.below hinner hlink hsize
  rw [hjoin] at hnode
  cases hnode
  refine ⟨place, names, repeatable, ?_⟩
  exact {
    leads := hmeets.leads
    script := rfl
    below := rfl
    denotes := FileTree.resolve?_join hmeets.leads hplace hproper hmeets.nonempty hmeets.below
      hinner hlink hsize
    isFile := by
      show storage.files.isFile (FileTree.join l.path ("/".intercalate names)) = true
      rw [FileTree.isFile, hjoin]
    title := htitle
    content := ⟨bytes, hat, hsum.symm⟩
    kind := rfl }

end Migration

/-! ### Conflicts of scripts on disk -/

/-- Whether an error is the conflict of two offenders. -/
inductive PlanError.Between (first second : Offender) : PlanError → Prop where
  /-- A conflict of versions. -/
  | versions (version : String) : Between first second (.versionConflict version first second)
  /-- A conflict of repeatable migrations. -/
  | repeatables (description : String) :
    Between first second (.repeatableConflict description first second)

theorem Plan.between_conflict (a b : Migration) :
    (Plan.conflict a b).Between a.offender b.offender := by
  unfold Plan.conflict
  split
  · exact .versions _
  · exact .repeatables _

theorem Plan.offender_of_between {a b : Migration} {first second : Offender}
    (h : (Plan.conflict a b).Between first second) :
    first = a.offender ∧ second = b.offender := by
  unfold Plan.conflict at h
  split at h <;>
  · cases h
    exact ⟨rfl, rfl⟩

namespace CompositeParts

variable {parts : CompositeParts} {replacer : Option Replacer} {ls : List Location}
  {storage : Storage} {e : PlanError} {first second : Offender}

/-- No conflict is found while things are prepared. -/
theorem not_between_of_prepared {roots : List Location}
    (hroots : parts.issued.config.roots.result = .ok roots) (h : parts.prepared = .error e) :
    ¬ e.Between first second := by
  simp only [prepared, hroots, Traversal.bind_eq_error_iff] at h
  obtain ⟨reason, rfl⟩ : ∃ reason, e = .config reason := by
    rcases h with hcheck | ⟨_, -, hroots' | ⟨_, -, hreplacer | ⟨_, -, ⟨⟩⟩⟩⟩
    · exact Config.exists_config_of_check hroots hcheck
    · cases hroots'
    · exact Composite.exists_config_of_sharedReplacer hreplacer
  rintro ⟨⟩

/-- What goes wrong in one of the roots is no conflict. -/
theorem not_between_of_foundInRoots {roots : List Location}
    (h : parts.foundInRoots replacer roots storage = .error e) : ¬ e.Between first second := by
  obtain ⟨l, -, hl⟩ := Traversal.exists_of_mapM_eq_error h
  obtain ⟨cause, -, rfl⟩ := SqlResolver.foundIn_eq_error_iff.1 hl
  rintro ⟨⟩

/-- Two offenders are migrations that were found in some roots and contradict each other. -/
theorem exists_contradicts_of_between (hunnamed : parts.issued.config.resolvers = [])
    (hunits : parts.units = {}) (hextras : parts.extras = []) {roots : List Location}
    (hroots : parts.issued.config.roots.result = .ok roots)
    (h : parts.answer storage = .error e) (hbetween : e.Between first second) :
    ∃ k ∈ roots, ∃ l ∈ roots, ∃ m m', parts.FindsIn storage k m ∧ parts.FindsIn storage l m' ∧
      m.Contradicts m' ∧ first = m.offender ∧ second = m'.offender := by
  rw [answer_eq_bind parts hunnamed, hextras] at h
  rcases Traversal.bind_eq_error_iff.1 h with hprepared | ⟨⟨roots', replacer⟩, hprepared, h⟩
  · exact absurd hbetween (not_between_of_prepared hroots hprepared)
  obtain ⟨hroots', hreplacer⟩ := of_prepared_eq_ok hprepared
  rw [hroots] at hroots'
  cases hroots'
  change Traversal.gather _ (Composite.defaultResolvers parts replacer roots ++ []) >>= _ = _ at h
  rw [List.append_nil] at h
  cases hdefaults : parts.issued.config.skipDefaultResolvers with
  | true =>
    -- without any resolvers nothing is found
    rw [Composite.defaultResolvers, hdefaults, if_pos rfl, Traversal.gather_nil] at h
    obtain ⟨m, m', hleast, -⟩ := Plan.exists_leastConflict_of_ofFound h
    cases hleast.first_mem
  | false =>
  rw [gather_defaultResolvers ⟨hdefaults, hunnamed, hunits, hextras⟩ hreplacer] at h
  cases hfounds : parts.foundInRoots replacer roots storage with
  | error e' =>
    rw [hfounds] at h
    cases h
    exact absurd hbetween (not_between_of_foundInRoots hfounds)
  | ok founds =>
  rw [hfounds] at h
  change Plan.ofFound (founds.map Migration.sort).flatten = _ at h
  obtain ⟨m, m', hleast, rfl⟩ := Plan.exists_leastConflict_of_ofFound h
  have hfinds : ∀ m ∈ (founds.map Migration.sort).flatten,
      ∃ l ∈ roots, parts.FindsIn storage l m := by
    intro m hm
    obtain ⟨sorted, hsorted, hm⟩ := List.mem_flatten.1 hm
    obtain ⟨found, hfound, rfl⟩ := List.mem_map.1 hsorted
    obtain ⟨l, hl, hfound⟩ := (Traversal.mem_of_mapM_eq_ok hfounds).1 hfound
    exact ⟨l, hl, replacer, found, hfound, Migration.mem_sort.1 hm⟩
  obtain ⟨k, hk, hm⟩ := hfinds m hleast.first_mem
  obtain ⟨l, hl, hm'⟩ := hfinds m' hleast.second_mem
  exact ⟨k, hk, l, hl, m, m', hm, hm', hleast.contradicts, Plan.offender_of_between hbetween⟩

/-- **Conflicts of scripts**: where there are no links, two scripts on disk that are reported to be
in conflict are two different files, unless two roots overlap without their paths showing it; then
one of the scripts was found in each of these. -/
theorem files_of_conflict_or_overlaps (hscanner : parts.scanner.ReadsFiles)
    (hunnamed : parts.issued.config.resolvers = []) (hunits : parts.units = {})
    (hextras : parts.extras = [])
    (hls : Location.parseAll parts.issued.config.locations = .ok ls)
    (hdisk : ∀ l ∈ ls, l.isFilesystem) (hplain : storage.files.root.Plain)
    (h : parts.answer storage = .error e) (hbetween : e.Between first second) :
    storage.files.isFile first.location ∧ storage.files.isFile second.location ∧
      ∃ p q, storage.files.resolve? false first.location = some p ∧
        storage.files.resolve? false second.location = some q ∧
        (p ≠ q ∨ ∃ k ∈ Location.roots ls, ∃ l ∈ Location.roots ls,
          (storage.files.Overlaps k l ∨ storage.files.Overlaps l k) ∧
          (∃ script, first.location = FileTree.join k.path script) ∧
          ∃ script, second.location = FileTree.join l.path script) := by
  have hroots : parts.issued.config.roots.result = .ok (Location.roots ls) := by
    rw [Config.roots, Location.result_parseRoots, hls]
    rfl
  obtain ⟨k, hk, l, hl, m, m', hm, hm', hcontradicts, rfl, rfl⟩ :=
    exists_contradicts_of_between hunnamed hunits hextras hroots h hbetween
  have hkdisk := hdisk k (Location.mem_roots_iff.1 hk).1
  have hldisk := hdisk l (Location.mem_roots_iff.1 hl).1
  obtain ⟨p, names, repeatable, hscript⟩ :=
    Migration.exists_scriptAt hscanner hplain hkdisk hm
  obtain ⟨q, names', repeatable', hscript'⟩ :=
    Migration.exists_scriptAt hscanner hplain hldisk hm'
  refine ⟨hscript.isFile, hscript'.isFile, _, _, hscript.denotes, hscript'.denotes, ?_⟩
  rw [or_iff_not_imp_left, not_not]
  intro hfile
  have hmedium : k.medium = l.medium :=
    (of_decide_eq_true hkdisk).trans (of_decide_eq_true hldisk).symm
  obtain ⟨hinside, hproper⟩ := hscript.prefix_of_contradicts hscript' hfile hcontradicts
  refine ⟨k, hk, l, hl, hinside.imp ?_ ?_, ⟨_, hscript.below⟩, _, hscript'.below⟩
  · exact fun hinside => Location.overlaps_of_prefix hplain hk hl hmedium hscript.leads
      hscript'.leads hinside hproper
  · exact fun hinside => Location.overlaps_of_prefix hplain hl hk hmedium.symm hscript'.leads
      hscript.leads hinside hproper.symm

/-! ### Two trees -/

/-- Where a scan for versioned scripts finds a single one, and a scan for repeatable ones nothing,
the migration of that script is found. -/
theorem foundIn_single {l : Location} {resource : Resource} {m : Migration}
    (hversioned : (parts.scanner.scan storage l parts.issued.config.versionedMarker
      parts.issued.config.suffix).result = .ok [resource])
    (hrepeatable : (parts.scanner.scan storage l parts.issued.config.repeatableMarker
      parts.issued.config.suffix).result = .ok [])
    (hcallback : isCallbackName resource.filename parts.issued.config.suffix = false)
    (hm : (Composite.scriptResolver parts replacer l).migration storage.files replacer
      parts.issued.config.versionedScheme false resource = .ok m) :
    (Composite.scriptResolver parts replacer l).foundIn storage replacer l = .ok [m] := by
  have hscripts : SqlResolver.scripts parts.issued.config.versionedScheme [resource] =
      [resource] := by
    rw [SqlResolver.scripts, List.filter_singleton]
    exact congrArg (cond · _ _) (congrArg not hcallback)
  refine SqlResolver.foundIn_eq_ok_iff.2 ⟨[m], [], ?_, ?_, rfl⟩
  · rw [SqlResolver.result_migrationsNamed]
    refine Traversal.bind_eq_ok_iff.2 ⟨_, hversioned, ?_⟩
    refine (congrArg (List.mapM _) hscripts).trans ?_
    rw [List.mapM_cons, List.mapM_nil]
    exact Traversal.bind_eq_ok_iff.2 ⟨m, hm, rfl⟩
  · rw [SqlResolver.result_migrationsNamed]
    exact Traversal.bind_eq_ok_iff.2 ⟨_, hrepeatable, rfl⟩

/-- The migration of a script on disk that begins with a version. -/
theorem migration_ofFile {l : Location} {script path : String} {title : Title} {bytes : List UInt8}
    {sum : Int32}
    (htitle : parts.issued.config.versionedScheme.read (lastSegment script) false = .ok title)
    (hread : storage.files.read? path = some bytes)
    (hsum : parts.issued.config.checksumPolicy.contentChecksum? bytes = some sum) :
    (Composite.scriptResolver parts replacer l).migration storage.files replacer
        parts.issued.config.versionedScheme false (.ofFile script path) =
      .ok ⟨title.version, title.description, script, some sum, .sql, path,
        .script (.ofFile script path) replacer⟩ := by
  refine SqlResolver.migration_eq_ok_iff.2 ⟨title, sum, _, htitle, ?_, rfl,
    NameScheme.allBlank_of_read htitle, rfl⟩
  exact ChecksumPolicy.resourceChecksum_eq_ok_iff.2
    ⟨bytes, Resource.bytes_ofFile hread script, hsum⟩

/-- Of two roots in which contradicting migrations are found, each by itself, these are in conflict.
-/
theorem exists_conflict_of_two_roots (honly : parts.ScriptsOnly) {k l : Location}
    (hprepared : parts.prepared = .ok ([k, l], replacer)) {m m' : Migration}
    (hk : (Composite.scriptResolver parts replacer k).foundIn storage replacer k = .ok [m])
    (hl : (Composite.scriptResolver parts replacer l).foundIn storage replacer l = .ok [m'])
    (hcontradicts : m.Contradicts m') :
    ∃ e first second, parts.answer storage = .error e ∧ e.Between first second ∧
      first ∈ [m.offender, m'.offender] ∧ second ∈ [m.offender, m'.offender] := by
  have hfounds : parts.foundInRoots replacer [k, l] storage = .ok [[m], [m']] := by
    rw [foundInRoots, List.mapM_cons, List.mapM_cons, List.mapM_nil, hk, hl]
    rfl
  have hanswer : parts.answer storage = Plan.ofFound [m, m'] := by
    rw [answer_eq_bind parts honly.unnamed, hprepared, honly.extras]
    show Traversal.gather _ (Composite.defaultResolvers parts replacer [k, l] ++ []) >>= _ = _
    rw [List.append_nil, gather_defaultResolvers honly (of_prepared_eq_ok hprepared).2, hfounds]
    show Plan.ofFound ([[m], [m']].map Migration.sort).flatten = _
    simp [Migration.sort]
  obtain ⟨e, he⟩ := Plan.ofFound_eq_error_iff.2
    ⟨m, List.mem_cons_self, m', List.mem_cons_of_mem _ List.mem_cons_self, hcontradicts⟩
  obtain ⟨a, b, hleast, rfl⟩ := Plan.exists_leastConflict_of_ofFound he
  exact ⟨_, a.offender, b.offender, hanswer.trans he, Plan.between_conflict a b,
    List.mem_map_of_mem hleast.first_mem, List.mem_map_of_mem hleast.second_mem⟩

/-- Parts with some directories for locations. -/
def inDirectories (locations : List String) : CompositeParts where
  issued := ⟨1, { Config.standard with locations }⟩

/-- The migration of an empty script is found where a scan finds that script alone. -/
theorem foundIn_emptyScript {locations : List String} {l : Location} {script path : String}
    {title : Title} (hl : l.isFilesystem)
    (hversioned : (storage.files.scan l "V" ".sql").result = .ok [.ofFile script path])
    (hrepeatable : (storage.files.scan l "R" ".sql").result = .ok [])
    (hcallback : isCallbackName (lastSegment script) ".sql" = false)
    (htitle : NameScheme.standard.read (lastSegment script) false = .ok title)
    (hread : storage.files.node? path = some (.file [])) :
    (Composite.scriptResolver (inDirectories locations) replacer l).foundIn storage replacer l =
      .ok [⟨title.version, title.description, script, some 0, .sql, path,
        .script (.ofFile script path) replacer⟩] := by
  have hscan : ∀ front, ((inDirectories locations).scanner.scan storage l front ".sql").result =
      (storage.files.scan l front ".sql").result :=
    fun front => Scanner.readsFiles_withoutEmbedded storage front ".sql" hl
  have hbytes : storage.files.read? path = some [] := by rw [FileTree.read?, hread]
  exact foundIn_single ((hscan "V").trans hversioned) ((hscan "R").trans hrepeatable) hcallback
    (migration_ofFile htitle hbytes rfl)

/-- The migration of an empty script is found in a directory that holds nothing else. -/
theorem foundIn_singleScript {locations : List String} {l : Location} {name : String}
    {title : Title} {p : List String} (hl : l.isFilesystem) (hne : l.path ≠ "")
    (hname : IsEntryName name) (hleads : storage.files.resolve? false l.path = some p)
    (hat : storage.files.root.at? p = some (.dir [(name, .file [])]))
    (hversioned : hasAffixes "V" ".sql" name) (hrepeatable : hasAffixes "R" ".sql" name = false)
    (hcallback : isCallbackName (lastSegment name) ".sql" = false)
    (htitle : NameScheme.standard.read (lastSegment name) false = .ok title)
    (hsize : (FileTree.join l.path name).utf8ByteSize ≤ FileTree.maxPathSize) :
    (Composite.scriptResolver (inDirectories locations) replacer l).foundIn storage replacer l =
      .ok [⟨title.version, title.description, name, some 0, .sql, FileTree.join l.path name,
        .script (.ofFile name (FileTree.join l.path name)) replacer⟩] := by
  have hscan := fun front => FileTree.result_scan_single l front ".sql" hl hne hleads hat
  have hproper : (Node.dir [(name, .file [])]).Proper :=
    .dir (List.nodup_singleton name) (List.forall_mem_singleton.2 hname)
      (List.forall_mem_singleton.2 (.file []))
  have hentry : (Node.dir [(name, .file [])]).at? [name] = some (.file []) := by simp
  have hdir := FileTree.node?_eq_some_iff.2 ⟨hne, p, hleads, hat⟩
  refine foundIn_emptyScript hl ?_ ?_ hcallback htitle ?_
  · rw [hscan, if_pos hversioned]
  · rw [hscan, hrepeatable, if_neg Bool.false_ne_true]
  · have hjoin := FileTree.node?_join hdir hproper (List.cons_ne_nil _ _) hentry nofun
    rw [String.intercalate_singleton] at hjoin
    exact hjoin hsize

/-- Two directories beside each other, with the same version in each. -/
def sameVersion : Storage where
  files.root := .dir
    [("a", .dir [("V1__x.sql", .file [])]), ("b", .dir [("V1__y.sql", .file [])])]

theorem files_of_conflict_sameVersion :
    ∃ e first second, (inDirectories ["a", "b"]).answer sameVersion = .error e ∧
      e.Between first second ∧
      sameVersion.files.isFile first.location ∧ sameVersion.files.isFile second.location ∧
      ∃ p q, sameVersion.files.resolve? false first.location = some p ∧
        sameVersion.files.resolve? false second.location = some q ∧
        (p ≠ q ∨ ∃ k ∈ Location.roots [⟨.filesystem, "a"⟩, ⟨.filesystem, "b"⟩],
          ∃ l ∈ Location.roots [⟨.filesystem, "a"⟩, ⟨.filesystem, "b"⟩],
          (sameVersion.files.Overlaps k l ∨ sameVersion.files.Overlaps l k) ∧
          (∃ script, first.location = FileTree.join k.path script) ∧
          ∃ script, second.location = FileTree.join l.path script) := by
  have hplain : sameVersion.files.root.Plain := by
    refine .dir (by decide) (by decide) (List.forall_mem_cons.2
      ⟨?_, List.forall_mem_singleton.2 ?_⟩) <;>
    exact .dir (by decide) (by decide) (List.forall_mem_singleton.2 (.file []))
  have honly : (inDirectories ["a", "b"]).ScriptsOnly := ⟨rfl, rfl, rfl, rfl⟩
  have hprepared : (inDirectories ["a", "b"]).prepared =
      .ok ([⟨.filesystem, "a"⟩, ⟨.filesystem, "b"⟩], some ⟨Dict.empty, "$\x7b", "\x7d"⟩) := by rfl
  have ha : sameVersion.files.resolve? false "a" = some ["a"] :=
    FileTree.resolve?_eq_some_iff.2 ⟨FileTree.isPath_iff.2 (by decide), by decide⟩
  have hb : sameVersion.files.resolve? false "b" = some ["b"] :=
    FileTree.resolve?_eq_some_iff.2 ⟨FileTree.isPath_iff.2 (by decide), by decide⟩
  have htitleX : NameScheme.standard.read (lastSegment "V1__x.sql") false =
      .ok ⟨some ⟨["1"], "1"⟩, "x"⟩ := by rfl
  have htitleY : NameScheme.standard.read (lastSegment "V1__y.sql") false =
      .ok ⟨some ⟨["1"], "1"⟩, "y"⟩ := by rfl
  obtain ⟨e, first, second, he, hbetween, -⟩ := exists_conflict_of_two_roots honly hprepared
    (foundIn_singleScript rfl (by decide) (by decide) ha rfl rfl rfl rfl htitleX (by decide))
    (foundIn_singleScript rfl (by decide) (by decide) hb rfl rfl rfl rfl htitleY (by decide))
    ⟨by decide, by decide⟩
  have hls : Location.parseAll (inDirectories ["a", "b"]).issued.config.locations =
      .ok [⟨.filesystem, "a"⟩, ⟨.filesystem, "b"⟩] := by rfl
  exact ⟨e, first, second, he, hbetween,
    files_of_conflict_or_overlaps Scanner.readsFiles_withoutEmbedded rfl rfl rfl hls (by decide)
      hplain he hbetween⟩

/-- A directory in the working directory, with a script. -/
def oneScript : Storage where
  files.root := .dir [("a", .dir [("V1__x.sql", .file [])])]

/-- Below the working directory and below the directory in it, one script is found by two names, and
these are reported as a conflict. -/
theorem not_files_of_conflict_oneScript :
    ¬ ∀ (parts : CompositeParts) (storage : Storage) (ls : List Location) (e : PlanError)
        (first second : Offender),
      parts.scanner.ReadsFiles → parts.issued.config.resolvers = [] → parts.units = {} →
      parts.extras = [] → Location.parseAll parts.issued.config.locations = .ok ls →
      (∀ l ∈ ls, l.isFilesystem ∧ ¬ Text.startsWith ['/'] l.path.toList) →
      storage.files.root.Plain → parts.answer storage = .error e → e.Between first second →
      ∃ p q, storage.files.resolve? false first.location = some p ∧
        storage.files.resolve? false second.location = some q ∧ p ≠ q := by
  intro hall
  have hplain : oneScript.files.root.Plain :=
    .dir (by decide) (by decide) (List.forall_mem_singleton.2
      (.dir (by decide) (by decide) (List.forall_mem_singleton.2 (.file []))))
  have honly : (inDirectories [".", "a"]).ScriptsOnly := ⟨rfl, rfl, rfl, rfl⟩
  have hprepared : (inDirectories [".", "a"]).prepared =
      .ok ([⟨.filesystem, "."⟩, ⟨.filesystem, "a"⟩], some ⟨Dict.empty, "$\x7b", "\x7d"⟩) := by rfl
  have hself : oneScript.files.resolve? false "." = some [] :=
    FileTree.resolve?_eq_some_iff.2 ⟨FileTree.isPath_iff.2 (by decide), by decide⟩
  have ha : oneScript.files.resolve? false "a" = some ["a"] :=
    FileTree.resolve?_eq_some_iff.2 ⟨FileTree.isPath_iff.2 (by decide), by decide⟩
  have hfile : ∀ path ∈ ["./a/V1__x.sql", "a/V1__x.sql"],
      oneScript.files.resolve? false path = some ["a", "V1__x.sql"] := by
    simp only [List.forall_mem_cons]
    refine ⟨?_, ?_, List.forall_mem_nil _⟩ <;>
    exact FileTree.resolve?_eq_some_iff.2 ⟨FileTree.isPath_iff.2 (by decide), by decide⟩
  have hscan : ∀ front, (oneScript.files.scan ⟨.filesystem, "."⟩ front ".sql").result =
      .ok (if hasAffixes front ".sql" "V1__x.sql" then
        [.ofFile "a/V1__x.sql" "./a/V1__x.sql"] else []) := by
    intro front
    have hdir : oneScript.files.node? "." = some (.dir [("a", .dir [("V1__x.sql", .file [])])]) :=
      FileTree.node?_eq_some_iff.2 ⟨by decide, [], hself, rfl⟩
    have hinner : FileTree.isPath (FileTree.join "." "a") := FileTree.isPath_iff.2 (by decide)
    rw [FileTree.result_scan_of_node? rfl hdir, FileTree.search_dir,
      if_pos (FileTree.isPath_of_node? hdir), List.flatMap_singleton, FileTree.search_dir,
      if_pos hinner, List.flatMap_singleton, FileTree.search_file]
    have hscript : FileTree.join (FileTree.join "" "a") "V1__x.sql" = "a/V1__x.sql" := by decide
    have hpath : FileTree.join (FileTree.join "." "a") "V1__x.sql" = "./a/V1__x.sql" := by decide
    split <;>
    · rw [FileTree.ofFindings_of_listed (by simp)]
      simp [FileTree.Finding.resource?, hscript, hpath]
  have htitle : NameScheme.standard.read (lastSegment "V1__x.sql") false =
      .ok ⟨some ⟨["1"], "1"⟩, "x"⟩ := by rfl
  obtain ⟨e, first, second, he, hbetween, hfirst, hsecond⟩ :=
    exists_conflict_of_two_roots honly hprepared
      (foundIn_emptyScript rfl (hscan "V") (hscan "R") rfl htitle
        (FileTree.node?_eq_some_iff.2 ⟨by decide, _, hfile _ (by simp), rfl⟩))
      (foundIn_singleScript rfl (by decide) (by decide) ha rfl rfl rfl rfl htitle (by decide))
      ⟨by decide, by decide⟩
  have hls : Location.parseAll (inDirectories [".", "a"]).issued.config.locations =
      .ok [⟨.filesystem, "."⟩, ⟨.filesystem, "a"⟩] := by rfl
  obtain ⟨p, q, hp, hq, hne⟩ := hall _ oneScript _ e first second
    Scanner.readsFiles_withoutEmbedded rfl rfl rfl hls (by decide) hplain he hbetween
  rw [hfile _ (List.mem_map_of_mem (f := Offender.location) hfirst)] at hp
  rw [hfile _ (List.mem_map_of_mem (f := Offender.location) hsecond)] at hq
  cases hp
  cases hq
  exact hne rfl

end CompositeParts

end SchemaPlan
