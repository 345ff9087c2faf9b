import SchemaPlan.Proofs.Storage.Holds

/-!
# Where a scan finds things

A directory that a path leads to has a place in the tree, and what a scan finds below it has the
names on the way added to that place (`Meets`). The paths of these things are another matter: they
begin with the path of the directory, which may go up and through links. A path that leads on from a
directory first leads to that directory (`exists_resolve?_of_join`), with the links of both parts
together (`resolveFrom_add`), and it leaves it only by a name that goes up or through a link
(`prefix_of_resolveFrom_zero`).
-/

namespace SchemaPlan.FileTree

variable {t : FileTree} {root node inner : Node} {es : List (String × Node)}
  {onLink onLink' : List String → List String → Option (List String)}
  {place q names front : List String} {name path : String} {links more : Nat}

/-! ### Parts of a path -/

/-- Names that lead on from where others lead are followed behind these, with the links of both. -/
theorem follow_append_of_follow {p : List String}
    (hend : follow root false onLink' p names = some q)
    (hlink : ∀ start target, onLink start target = some p →
      onLink' start (target ++ names) = some q)
    (h : follow root false onLink place front = some p) :
    follow root false onLink' place (front ++ names) = some q := by
  induction front generalizing place with
  | nil =>
    cases (Option.some.inj h : place = p)
    exact hend
  | cons name front ih =>
    rw [List.cons_append]
    rcases follow_cons root place name with hstep | ⟨next, -, hstep⟩ | ⟨start, target, hstep⟩
    · rw [hstep] at h
      cases h
    · rw [hstep] at h ⊢
      exact ih h
    · rw [hstep] at h ⊢
      rw [← List.append_assoc]
      exact hlink _ _ h

/-- If more is known of links, names that led somewhere still lead there. -/
theorem follow_mono (honLink : ∀ start names, onLink start names = some q →
      onLink' start names = some q) (h : follow root false onLink place names = some q) :
    follow root false onLink' place names = some q := by
  rw [← List.append_nil names]
  refine follow_append_of_follow rfl (fun start target htarget => ?_) h
  rw [List.append_nil]
  exact honLink start target htarget

/-- Names that lead somewhere still lead there if more links may be followed. -/
theorem resolveFrom_mono (hle : links ≤ more)
    (h : resolveFrom root false links place names = some q) :
    resolveFrom root false more place names = some q := by
  induction links generalizing more place names with
  | zero =>
    cases more with
    | zero => exact h
    | succ more =>
      refine follow_mono ?_ h
      intro start names hlink
      cases hlink
  | succ links ih =>
    cases more with
    | zero => exact absurd hle (Nat.not_succ_le_zero links)
    | succ more => exact follow_mono (fun _ _ h => ih (Nat.le_of_succ_le_succ hle) h) h

theorem exists_onLink (root : Node) (links : Nat) :
    ∃ onLink, resolveFrom root false links = follow root false onLink := by
  cases links with
  | zero => exact ⟨_, rfl⟩
  | succ links => exact ⟨_, rfl⟩

theorem resolveFrom_nil (root : Node) (links : Nat) (place : List String) :
    resolveFrom root false links place [] = some place := by
  obtain ⟨onLink, heq⟩ := exists_onLink root links
  rw [heq, follow]

/-- Where names lead on with some links, they do so behind others with the links of both. -/
theorem resolveFrom_add {p : List String}
    (hfront : resolveFrom root false links place front = some p)
    (hnames : resolveFrom root false more p names = some q) :
    resolveFrom root false (links + more) place (front ++ names) = some q := by
  induction links generalizing place front with
  | zero =>
    obtain ⟨onLink, heq⟩ := exists_onLink root more
    rw [Nat.zero_add, heq]
    rw [heq] at hnames
    refine follow_append_of_follow hnames ?_ hfront
    intro start target hlink
    cases hlink
  | succ links ih =>
    rw [Nat.succ_add]
    refine follow_append_of_follow ?_ (fun _ _ hlink => ih hlink) hfront
    exact resolveFrom_mono (by omega : more ≤ links + more + 1) hnames

/-- Names lead on from a directory only. -/
theorem exists_dir_of_resolveFrom (hnames : names ≠ [])
    (h : resolveFrom root false links place names = some q) :
    ∃ es, root.at? place = some (.dir es) := by
  obtain ⟨onLink, heq⟩ := exists_onLink root links
  obtain ⟨name, rest, rfl⟩ := List.exists_cons_of_ne_nil hnames
  rw [heq, follow] at h
  split at h
  · next es hdir => exact ⟨es, hdir⟩
  · cases h

theorem exists_follow_of_append {P : List String → Prop}
    (hend : ∀ p, follow root false onLink p names = some q → P p)
    (hlink : ∀ start target, onLink start (target ++ names) = some q →
      ∃ p, onLink start target = some p ∧ P p)
    (h : follow root false onLink place (front ++ names) = some q) :
    ∃ p, follow root false onLink place front = some p ∧ P p := by
  induction front generalizing place with
  | nil => exact ⟨place, by rw [follow], hend place h⟩
  | cons name front ih =>
    rw [List.cons_append] at h
    rcases follow_cons root place name with hstep | ⟨next, -, hstep⟩ | ⟨start, target, hstep⟩
    · rw [hstep] at h
      cases h
    · rw [hstep] at h ⊢
      exact ih h
    · rw [hstep, ← List.append_assoc] at h
      rw [hstep]
      exact hlink _ _ h

/-- What leads somewhere leads to a place on the way there first, and on from it with the links that
are left. -/
theorem exists_resolveFrom_of_append
    (h : resolveFrom root false links place (front ++ names) = some q) :
    ∃ p, resolveFrom root false links place front = some p ∧
      ∃ left ≤ links, resolveFrom root false left p names = some q := by
  induction links generalizing place front with
  | zero =>
    exact exists_follow_of_append (fun p hp => ⟨0, le_rfl, hp⟩) (fun _ _ hlink => nomatch hlink) h
  | succ links ih =>
    refine exists_follow_of_append (fun p hp => ⟨links + 1, le_rfl, hp⟩) (fun _ _ hlink => ?_) h
    obtain ⟨p, hfront, left, hleft, hnames⟩ := ih hlink
    exact ⟨p, hfront, left, Nat.le_succ_of_le hleft, hnames⟩

/-- Without links, names lead to a place below the one they begin at, unless one of them goes up. -/
theorem prefix_of_resolveFrom_zero (hup : ".." ∉ names)
    (h : resolveFrom root false 0 place names = some q) : place <+: q := by
  induction names generalizing place with
  | nil =>
    rw [resolveFrom_nil] at h
    cases h
    exact List.prefix_rfl
  | cons name names ih =>
    rw [List.mem_cons, not_or] at hup
    rw [resolveFrom] at h
    rcases follow_cons root place name with hstep | ⟨next, hnext, hstep⟩ | ⟨start, target, hstep⟩
    · rw [hstep] at h
      cases h
    · rw [hstep] at h
      exact (hnext.resolve_left (Ne.symm hup.1)).trans (ih hup.2 h)
    · rw [hstep] at h
      cases h

theorem isPath_of_join (h : isPath (join path name)) : isPath path := by
  obtain ⟨slash, -, hjoin⟩ := exists_join_eq path
  rw [hjoin, isPath_iff, String.append_assoc, String.utf8ByteSize_append,
    String.toList_append] at h
  exact isPath_iff.2 ⟨by omega, fun hnul => h.2 (List.mem_append_left _ hnul)⟩

/-- A path that leads on from another path first leads where that one leads, which is a directory.
-/
theorem exists_resolve?_of_join (hpath : path ≠ "") (hnames : names ≠ [])
    (hslash : ∀ name ∈ names, '/' ∉ name.toList)
    (h : t.resolve? false (join path ("/".intercalate names)) = some q) :
    ∃ p es, t.resolve? false path = some p ∧ t.root.at? p = some (.dir es) ∧
      ∃ left ≤ maxLinks, resolveFrom t.root false left p names = some q := by
  obtain ⟨absolute, front, idle, hidle, hsplit, hsplit'⟩ := splitPath_join hpath hnames hslash
  obtain ⟨hjoin, h⟩ := resolve?_eq_some_iff.1 h
  rw [hsplit'] at h
  obtain ⟨p, hfront, left, hleft, hrest⟩ := exists_resolveFrom_of_append h
  obtain ⟨es, hdir⟩ := exists_dir_of_resolveFrom hnames hrest
  refine ⟨p, es, resolve?_eq_some_iff.2 ⟨isPath_of_join hjoin, ?_⟩, hdir, left, hleft, hrest⟩
  rw [hsplit]
  rw [← List.append_nil front] at hfront
  exact resolveFrom_of_idle (.inl rfl) (follow_idle_of_dir hidle hdir) hfront

/-- A path leads on from where its first part leads, with enough links for both parts. -/
theorem resolveFrom_join (hne : path ≠ "") (hleads : t.resolve? false path = some place)
    (hnames : names ≠ []) (hslash : ∀ name ∈ names, '/' ∉ name.toList)
    (h : resolveFrom t.root false links place names = some q) :
    resolveFrom t.root false (maxLinks + links)
      (if (splitPath (join path ("/".intercalate names))).1 then [] else t.workingDirectory)
      (splitPath (join path ("/".intercalate names))).2 = some q := by
  obtain ⟨absolute, front, idle, hidle, hsplit, hsplit'⟩ := splitPath_join hne hnames hslash
  obtain ⟨-, hplace⟩ := resolve?_eq_some_iff.1 hleads
  rw [hsplit] at hplace
  rw [hsplit']
  obtain ⟨p, hfront, left, -, hrest⟩ := exists_resolveFrom_of_append hplace
  obtain ⟨onLink, heq⟩ := exists_onLink t.root left
  rw [heq] at hrest
  obtain rfl := eq_of_follow_idle hidle hrest
  exact resolveFrom_add hfront h

/-! ### What a search takes for a file -/

/-- Whether a search takes a node for a file: a link counts as one unless its path leads to a
directory. -/
def TakenForFile (t : FileTree) (path : String) : Node → Prop
  | .file _ => True
  | .link _ => ¬ t.isDir path
  | .dir _ => False

/-- Where there is no directory there are no further names. -/
theorem at?_eq_some_iff_of_not_dir (h : ∀ es, node ≠ .dir es) :
    node.at? names = some inner ↔ names = [] ∧ node = inner := by
  cases names with
  | nil => rw [Node.at?_nil, Option.some.injEq, and_iff_right rfl]
  | cons name names =>
    refine iff_of_false (fun hat => ?_) (fun hnil => nomatch hnil.1)
    obtain ⟨es, -, hdir, -⟩ := Node.exists_of_at?_cons hat
    exact h es hdir

/-- A search finds what is taken for a file below a node, as far as the names are wanted. -/
theorem file_mem_search_iff {wanted : String → Bool} {relative : String} (h : node.Proper)
    (hlisted : ∀ p, .unlisted p ∉ t.search wanted relative path name node) {r p : String} :
    .file r p ∈ t.search wanted relative path name node ↔
      ∃ names inner, node.at? names = some inner ∧
        t.TakenForFile (names.foldl join path) inner ∧ wanted (names.getLastD name) ∧
        r = names.foldl join relative ∧ p = names.foldl join path := by
  induction h generalizing relative path name with
  | file content =>
    rw [search_file]
    have hleaf : ∀ es, Node.file content ≠ .dir es := by simp
    cases hwanted : wanted name <;>
      simp [at?_eq_some_iff_of_not_dir hleaf, TakenForFile, hwanted]
  | link target =>
    rw [search_link]
    have hleaf : ∀ es, Node.link target ≠ .dir es := by simp
    cases hwanted : wanted name <;> cases hdir : t.isDir path <;>
      simp [at?_eq_some_iff_of_not_dir hleaf, TakenForFile, hwanted, hdir]
  | @dir es hdistinct hentry hinner ih =>
    rw [search_dir] at hlisted ⊢
    split at hlisted
    · next hpath =>
      rw [if_pos hpath, List.mem_flatMap]
      have hbelow : ∀ e ∈ es, ∀ p,
          .unlisted p ∉ t.search wanted (join relative e.1) (join path e.1) e.1 e.2 :=
        fun e he p hp => hlisted p (List.mem_flatMap.2 ⟨e, he, hp⟩)
      constructor
      · rintro ⟨e, he, hmem⟩
        obtain ⟨names, inner, hat, htaken, hwanted, hr, hp⟩ := (ih e he (hbelow e he)).1 hmem
        refine ⟨e.1 :: names, inner, ?_, htaken, by rwa [List.getLastD_cons], hr, hp⟩
        rw [Node.at?_dir_cons, Assoc.lookup_of_mem hdistinct he, Option.bind_some, hat]
      · rintro ⟨names, inner, hat, htaken, hwanted, hr, hp⟩
        cases names with
        | nil =>
          rw [Node.at?_nil] at hat
          cases hat
          cases htaken
        | cons first rest =>
          rw [Node.at?_dir_cons, Option.bind_eq_some_iff] at hat
          obtain ⟨next, hnext, hat⟩ := hat
          have he := Assoc.mem_of_lookup hnext
          rw [List.getLastD_cons] at hwanted
          exact ⟨_, he, (ih _ he (hbelow _ he)).2 ⟨rest, inner, hat, htaken, hwanted, hr, hp⟩⟩
    · exact absurd (List.mem_singleton.2 rfl) (hlisted path)

/-! ### What a scan finds -/

variable {l : Location} {front back : String}

/-- Whether some names lead down from the place of a location to what a scan of the location looks
for. -/
structure Meets (t : FileTree) (l : Location) (front back : String) (place names : List String) :
    Prop where
  medium : l.isFilesystem
  nonempty : l.path ≠ ""
  leads : t.resolve? false l.path = some place
  below : names ≠ []
  entry : ∃ inner, t.root.at? (place ++ names) = some inner ∧
    t.TakenForFile (join l.path ("/".intercalate names)) inner
  wanted : hasAffixes front back (names.getLastD "")

/-- The resource that a scan of a location finds at names below it. -/
def resourceBelow (l : Location) (names : List String) : Resource :=
  .ofFile ("/".intercalate names) (join l.path ("/".intercalate names))

variable {place names : List String}

theorem Meets.exists_dir (h : t.Meets l front back place names) :
    ∃ es, t.root.at? place = some (.dir es) ∧ t.node? l.path = some (.dir es) := by
  obtain ⟨inner, hat, -⟩ := h.entry
  obtain ⟨name, rest, hnames⟩ := List.exists_cons_of_ne_nil h.below
  rw [Node.at?_append, Option.bind_eq_some_iff] at hat
  obtain ⟨node, hnode, hat⟩ := hat
  rw [hnames] at hat
  obtain ⟨es, -, rfl, -⟩ := Node.exists_of_at?_cons hat
  exact ⟨es, hnode, node?_eq_some_iff.2 ⟨h.nonempty, place, h.leads, hnode⟩⟩

/-- The path of what is found below a location, with a slash after each directory on the way, is the
path of its entry. -/
theorem Meets.entry? (hproper : t.root.Proper) (h : t.Meets l front back place names)
    (hpath : isPath (join l.path ("/".intercalate names))) :
    t.entry? (join l.path ("/".intercalate names)) = some (place ++ names) := by
  obtain ⟨inner, hat, -⟩ := h.entry
  obtain ⟨es, hplace, hdir⟩ := h.exists_dir
  rw [Node.at?_append, hplace, Option.bind_some] at hat
  have hproper := hproper.of_at? hplace
  have hentry := hproper.entryName_of_at? hat
  obtain ⟨dirs, name, rfl⟩ : ∃ dirs name, names = dirs ++ [name] :=
    ⟨_, _, (List.dropLast_append_getLast h.below).symm⟩
  have hdirs : ∀ name ∈ dirs, IsEntryName name := fun name hname =>
    hentry name (List.mem_append_left _ hname)
  have hname : IsEntryName name := hentry name (by simp)
  -- the directory in which the last name is looked up
  rw [Node.at?_append, Option.bind_eq_some_iff] at hat
  obtain ⟨node, hnode, hat⟩ := hat
  obtain ⟨es', -, rfl, -⟩ := Node.exists_of_at?_cons hat
  have hjoin : join l.path ("/".intercalate (dirs ++ [name])) =
      join (dirs.foldl join l.path) name := by
    rw [← foldl_join l.path h.below hentry, List.foldl_append, List.foldl_cons, List.foldl_nil]
  rw [hjoin] at hpath ⊢
  have hlead : dirs.foldl join l.path ≠ "" ∧
      t.resolve? false (dirs.foldl join l.path) = some (place ++ dirs) := by
    by_cases hnil : dirs = []
    · rw [hnil, List.foldl_nil, List.append_nil]
      exact ⟨h.nonempty, h.leads⟩
    · have hsize := (isPath_iff.1 (isPath_of_join hpath)).1
      rw [foldl_join l.path hnil hdirs] at hsize ⊢
      exact ⟨join_ne_empty h.nonempty _,
        resolve?_join h.leads hplace hproper h.nonempty hnil hnode nofun hsize⟩
  have hdirAt : t.root.at? (place ++ dirs) = some (.dir es') := by
    rw [Node.at?_append, hplace, Option.bind_some, hnode]
  have hslash : isPath (join (dirs.foldl join l.path) "") := by
    obtain ⟨slash, -, hadd⟩ := exists_join_eq (dirs.foldl join l.path)
    rw [hadd, isPath_iff] at hpath ⊢
    rw [String.append_empty]
    rw [String.utf8ByteSize_append, String.toList_append] at hpath
    exact ⟨by omega, fun hnul => hpath.2 (List.mem_append_left _ hnul)⟩
  have hresolve := resolve?_join_empty hlead.2 hdirAt hlead.1 hslash
  rw [FileTree.entry?, splitLast_join hlead.1 hname.noSlash]
  simp [hpath, hname.nonempty, hname.notSelf, hname.notParent, hresolve]

theorem result_scan_of_node? (hl : l.isFilesystem) (hdir : t.node? l.path = some (.dir es)) :
    (t.scan l front back).result =
      ofFindings (t.search (hasAffixes front back) "" l.path "" (.dir es)) := by
  rw [result_scan t hl, findings, hdir]
  exact congrArg ofFindings (searchAll_eq_search (isPath_of_node? hdir))

/-- A scan that does not fail at a directory with a path that is too long finds what it is to look
for. -/
theorem Meets.result_scan (hproper : t.root.Proper) (h : t.Meets l front back place names) :
    (∃ e, l.Overlong e ∧ (t.scan l front back).result = .error e) ∨
      ∃ found, (t.scan l front back).result = .ok found ∧ resourceBelow l names ∈ found := by
  obtain ⟨es, hat, hdir⟩ := h.exists_dir
  have hproper := hproper.of_at? hat
  rw [result_scan_of_node? h.medium hdir]
  by_cases hlisted :
      ∀ p, .unlisted p ∉ t.search (hasAffixes front back) "" l.path "" (.dir es)
  · refine .inr ⟨_, ofFindings_of_listed hlisted, ?_⟩
    obtain ⟨inner, hinner, htaken⟩ := h.entry
    rw [Node.at?_append, hat, Option.bind_some] at hinner
    have hentry := hproper.entryName_of_at? hinner
    have hrelative := foldl_join "" h.below hentry
    rw [join_empty] at hrelative
    have hpath := foldl_join l.path h.below hentry
    refine List.mem_mergeSort.2 (List.mem_filterMap.2 ⟨.file _ _, ?_, rfl⟩)
    refine (file_mem_search_iff hproper hlisted).2 ⟨names, inner, hinner, ?_, h.wanted,
      hrelative.symm, hpath.symm⟩
    rwa [hpath]
  · obtain ⟨p, hp⟩ := not_forall_not.1 hlisted
    exact .inl (overlong_of_unlisted h.medium hproper (isPath_of_node? hdir) hp)

theorem result_scan_of_not_dir (hdir : ∀ es, t.node? l.path ≠ some (.dir es)) :
    (t.scan l front back).result = .ok [] := by
  cases hl : l.isFilesystem with
  | false => exact result_scan_of_not_filesystem t hl front back
  | true =>
    have hnone : t.findings (hasAffixes front back) l.path = none := by
      unfold findings
      split
      · next es hes => exact absurd hes (hdir es)
      · rfl
    rw [FileTree.result_scan t hl, hnone]

/-- A scan finds nothing but what it is to look for. -/
theorem exists_meets_of_mem_scan (hproper : t.root.Proper) {found : List Resource}
    (hfound : (t.scan l front back).result = .ok found) {r : Resource} (hr : r ∈ found) :
    ∃ place names, t.Meets l front back place names ∧ r = resourceBelow l names := by
  cases hl : l.isFilesystem with
  | false =>
    rw [result_scan_of_not_filesystem t hl] at hfound
    cases hfound
    cases hr
  | true =>
  by_cases hdir : ∃ es, t.node? l.path = some (.dir es)
  · obtain ⟨es, hdir⟩ := hdir
    obtain ⟨hne, place, hplace, hat⟩ := node?_eq_some_iff.1 hdir
    have hproper := hproper.of_at? hat
    rw [result_scan_of_node? hl hdir] at hfound
    obtain ⟨hlisted, hfiles⟩ := mem_of_ofFindings_eq_ok hfound
    obtain ⟨relative, p, hfile, rfl⟩ := hfiles r hr
    obtain ⟨names, inner, hinner, htaken, hwanted, rfl, rfl⟩ :=
      (file_mem_search_iff hproper hlisted).1 hfile
    have hnames : names ≠ [] := by
      rintro rfl
      rw [Node.at?_nil] at hinner
      cases hinner
      exact htaken
    have hentry := hproper.entryName_of_at? hinner
    have hrelative := foldl_join "" hnames hentry
    rw [join_empty] at hrelative
    have hpath := foldl_join l.path hnames hentry
    rw [hrelative, hpath]
    rw [hpath] at htaken
    refine ⟨place, names, ⟨hl, hne, hplace, hnames, ⟨inner, ?_, htaken⟩, hwanted⟩, rfl⟩
    rw [Node.at?_append, hat, Option.bind_some, hinner]
  · rw [result_scan_of_not_dir fun es hes => hdir ⟨es, hes⟩] at hfound
    cases hfound
    cases hr

end SchemaPlan.FileTree
