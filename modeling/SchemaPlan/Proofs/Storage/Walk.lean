import SchemaPlan.Proofs.Location.Nesting
import SchemaPlan.Proofs.Text.ByteOrder

/-!
# Walking a directory

A scan walks through the directories below a location, and through no links. What it looks for there
is told by the tree alone (`Sought`): the files, and the links that lead to no directory. It cannot
see whether a link leads to a directory if the path of the link cannot be followed (`Unfollowed`),
and takes such a link for a file (`takenForFile_link_iff`).

Where every directory can be listed, the scan reports each of these things once, in the order of
the bytes of their paths (`reported_of_listable`). This fixes the list (`Reported.unique`), so that
it does not depend on the order in which a directory lists its entries (`scan_walks`).
-/

namespace SchemaPlan

/-! ### Other orders of entries -/

namespace Node

/-- Whether two nodes differ in nothing but the orders in which directories list their entries. -/
inductive Reordered : Node → Node → Prop where
  /-- A file. -/
  | file (content : List UInt8) : Reordered (.file content) (.file content)
  /-- A link. -/
  | link (target : String) : Reordered (.link target) (.link target)
  /-- A directory, in which entries of one name may differ in the same way. -/
  | dir {es es' : List (String × Node)} (names : (es.map Prod.fst).Perm (es'.map Prod.fst))
      (inner : ∀ name node node', (name, node) ∈ es → (name, node') ∈ es' → Reordered node node') :
      Reordered (.dir es) (.dir es')

variable {node node' inner : Node} {es es' : List (String × Node)} {name : String}
  {names : List String}

namespace Reordered

theorem symm (h : Reordered node node') : Reordered node' node := by
  induction h with
  | file content => exact .file content
  | link target => exact .link target
  | dir hnames _ ih =>
    exact .dir hnames.symm fun name node node' hnode hnode' => ih name node' node hnode' hnode

theorem proper (h : Reordered node node') (hproper : node.Proper) : node'.Proper := by
  induction h with
  | file content => exact hproper
  | link target => exact hproper
  | @dir es es' hnames _ ih =>
    cases hproper with | dir hdistinct hentry hinner =>
    have hold : ∀ e' ∈ es', ∃ node, (e'.1, node) ∈ es := by
      intro e' he'
      obtain ⟨⟨name, node⟩, he, hname⟩ :=
        List.mem_map.1 (hnames.symm.subset (List.mem_map_of_mem he'))
      exact ⟨node, hname ▸ he⟩
    refine .dir (hnames.nodup_iff.1 hdistinct) (fun e' he' => ?_) (fun e' he' => ?_)
    · obtain ⟨node, hnode⟩ := hold e' he'
      exact hentry (e'.1, node) hnode
    · obtain ⟨node, hnode⟩ := hold e' he'
      exact ih _ _ _ hnode he' (hinner _ hnode)

theorem of_perm (hdistinct : (es.map Prod.fst).Nodup) (hperm : es.Perm es')
    (hinner : ∀ e ∈ es, Reordered e.2 e.2) : Reordered (.dir es) (.dir es') := by
  refine .dir (hperm.map Prod.fst) fun name node node' hnode hnode' => ?_
  have hsame := (Assoc.lookup_of_mem hdistinct hnode).symm.trans
    (Assoc.lookup_of_mem hdistinct (hperm.symm.subset hnode'))
  cases hsame
  exact hinner _ hnode

theorem refl (h : node.Proper) : Reordered node node := by
  induction h with
  | file content => exact .file content
  | link target => exact .link target
  | dir hdistinct _ _ ih => exact of_perm hdistinct (List.Perm.refl _) ih

/-- An entry of a directory is found by its name in any order. -/
theorem lookup (h : Reordered (.dir es) (.dir es')) (hproper : (Node.dir es).Proper)
    (hname : es.lookup name = some inner) :
    ∃ inner', es'.lookup name = some inner' ∧ inner.Reordered inner' := by
  cases h.proper hproper with | dir hdistinct _ _ =>
  cases h with | dir hnames hinner =>
  have hmem := Assoc.mem_of_lookup hname
  obtain ⟨⟨other, inner'⟩, hmem', hother⟩ :=
    List.mem_map.1 (hnames.subset (List.mem_map_of_mem hmem))
  cases hother
  exact ⟨inner', Assoc.lookup_of_mem hdistinct hmem', hinner _ _ _ hmem hmem'⟩

/-- Names lead to the same things in any order. -/
theorem at? (h : Reordered node node') (hproper : node.Proper)
    (hnames : node.at? names = some inner) :
    ∃ inner', node'.at? names = some inner' ∧ inner.Reordered inner' := by
  induction names generalizing node node' with
  | nil =>
    rw [at?_nil] at hnames
    cases hnames
    exact ⟨node', at?_nil node', h⟩
  | cons name names ih =>
    obtain ⟨es, next, rfl, hname, hnames⟩ := exists_of_at?_cons hnames
    cases h with | @dir _ es' hperm hinner =>
    obtain ⟨next', hname', hnext⟩ := (Reordered.dir hperm hinner).lookup hproper hname
    rw [at?_dir_cons, hname']
    exact ih hnext (hproper.of_lookup hname) hnames

/-- What is no directory is the same in any order. -/
theorem at?_of_not_dir (h : Reordered node node') (hproper : node.Proper)
    (hnames : node.at? names = some inner) (hinner : ∀ es, inner ≠ .dir es) :
    node'.at? names = some inner := by
  obtain ⟨inner', hnames', hreordered⟩ := h.at? hproper hnames
  cases hreordered with
  | file content => exact hnames'
  | link target => exact hnames'
  | dir _ _ => exact absurd rfl (hinner _)

theorem exists_at?_eq_dir (h : Reordered node node') (hproper : node.Proper)
    (hnames : node.at? names = some (.dir es)) : ∃ es', node'.at? names = some (.dir es') := by
  obtain ⟨_, hnames', ⟨_, _⟩⟩ := h.at? hproper hnames
  exact ⟨_, hnames'⟩

end Reordered

end Node

namespace FileTree

variable {t t' : FileTree} {l : Location} {root root' : Node} {es : List (String × Node)}
  {onLink onLink' : List String → List String → Option (List String)}
  {place names q : List String} {links : Nat} {front back path : String}

/-- Whether two trees differ in nothing but the orders in which directories list their entries. -/
structure Reordered (t t' : FileTree) : Prop where
  root : t.root.Reordered t'.root
  workingDirectory : t.workingDirectory = t'.workingDirectory

theorem Reordered.symm (h : t.Reordered t') : t'.Reordered t :=
  ⟨h.root.symm, h.workingDirectory.symm⟩

theorem follow_of_reordered (h : root.Reordered root') (hproper : root.Proper)
    (honLink : ∀ start names, onLink start names = some q → onLink' start names = some q)
    (hfollow : follow root false onLink place names = some q) :
    follow root' false onLink' place names = some q := by
  induction names generalizing place with
  | nil => exact hfollow
  | cons name names ih =>
    rw [follow] at hfollow ⊢
    split at hfollow
    · next es hplace =>
      obtain ⟨_, hplace', hdir⟩ := h.at? hproper hplace
      cases hdir with | @dir _ es' hperm hinner =>
      simp only [hplace']
      by_cases hself : name = "" ∨ name = "."
      · rw [if_pos hself] at hfollow ⊢
        exact ih hfollow
      by_cases hparent : name = ".."
      · rw [if_neg hself, if_pos hparent] at hfollow ⊢
        exact ih hfollow
      rw [if_neg hself, if_neg hparent] at hfollow ⊢
      cases hname : es.lookup name with
      | none =>
        rw [hname] at hfollow
        cases hfollow
      | some inner =>
        obtain ⟨inner', hname', hentry⟩ :=
          (Node.Reordered.dir hperm hinner).lookup (hproper.of_at? hplace) hname
        rw [hname] at hfollow
        rw [hname']
        cases hentry with
        | file content => exact ih hfollow
        | link target => exact honLink _ _ hfollow
        | dir _ _ => exact ih hfollow
    · cases hfollow

theorem resolveFrom_of_reordered (h : root.Reordered root') (hproper : root.Proper)
    (hresolve : resolveFrom root false links place names = some q) :
    resolveFrom root' false links place names = some q := by
  induction links generalizing place names with
  | zero => exact follow_of_reordered h hproper (fun _ _ hlink => hlink) hresolve
  | succ links ih => exact follow_of_reordered h hproper (fun _ _ hlink => ih hlink) hresolve

/-- Paths lead to the same places in any order. -/
theorem resolveFrom_reordered (h : root.Reordered root') (hproper : root.Proper) :
    resolveFrom root false links place names = resolveFrom root' false links place names := by
  refine Option.ext fun q => ⟨resolveFrom_of_reordered h hproper, ?_⟩
  exact resolveFrom_of_reordered h.symm (h.proper hproper)

theorem resolve?_reordered (h : t.Reordered t') (hproper : t.root.Proper) (path : String) :
    t.resolve? false path = t'.resolve? false path := by
  unfold resolve?
  rw [h.workingDirectory]
  split
  · exact resolveFrom_reordered h.root hproper
  · rfl

/-! ### What a scan looks for -/

/-- Whether a path is too long to be followed, or leads somewhere through more links than are
followed for one path. -/
def Unfollowed (t : FileTree) (path : String) : Prop :=
  maxPathSize < path.utf8ByteSize ∨
    ∃ links q, resolveFrom t.root false links
        (if (splitPath path).1 then [] else t.workingDirectory) (splitPath path).2 = some q ∧
      resolveFrom t.root false maxLinks
        (if (splitPath path).1 then [] else t.workingDirectory) (splitPath path).2 = none

/-- Whether some names lead from a place, through directories only, to something that a scan of the
location there reports: its own name has the wanted beginning and end, without an overlap of the
two, and it is a file or a link, but no link to a directory, unless the path that the scan meets it
under is not followed. -/
structure Sought (t : FileTree) (l : Location) (front back : String) (place names : List String) :
    Prop where
  named : ∃ dirs mid, names = dirs ++ [front ++ mid ++ back]
  entry : (∃ content, t.root.at? (place ++ names) = some (.file content)) ∨
    ∃ target, t.root.at? (place ++ names) = some (.link target) ∧
      (t.LinksToDir (place ++ names) → t.Unfollowed (join l.path ("/".intercalate names)))

/-- A search takes a link for a file unless it leads to a directory along a path that is followed.
-/
theorem takenForFile_link_iff (hproper : t.root.Proper) (hne : l.path ≠ "")
    (hleads : t.resolve? false l.path = some place) (hnames : names ≠ []) {target : String}
    (hat : t.root.at? (place ++ names) = some (.link target)) :
    t.TakenForFile (join l.path ("/".intercalate names)) (.link target) ↔
      (t.LinksToDir (place ++ names) → t.Unfollowed (join l.path ("/".intercalate names))) := by
  have hentry : ∀ name ∈ names, IsEntryName name := fun name hname =>
    hproper.entryName_of_at? hat name (List.mem_append_right _ hname)
  constructor
  · rintro hnotDir ⟨-, q, es, -, hq, hqat⟩
    by_contra hfollowed
    obtain ⟨hsize, hlinks⟩ := not_or.1 hfollowed
    -- the names lead on from the place, and so does the path, but for the number of links
    obtain ⟨node, hplace, hnode⟩ :=
      Option.bind_eq_some_iff.1 ((Node.at?_append t.root place names).symm.trans hat)
    obtain ⟨name, rest, rfl⟩ := List.exists_cons_of_ne_nil hnames
    obtain ⟨es', -, rfl, -⟩ := Node.exists_of_at?_cons hnode
    obtain ⟨onLink, heq⟩ := exists_onLink t.root maxLinks
    rw [heq, follow_of_at? hproper (Node.at?_nil _) hplace nofun, ← heq, List.nil_append] at hq
    have hmore := resolveFrom_join hne hleads hnames
      (fun name hname => (hentry name hname).noSlash) hq
    have hsome := fun hnone => hlinks ⟨_, q, hmore, hnone⟩
    obtain ⟨q', hq'⟩ := Option.ne_none_iff_exists'.1 hsome
    have hsame := resolveFrom_mono (Nat.le_add_right maxLinks maxLinks) hq'
    rw [hmore] at hsame
    cases hsame
    have hjoin : isPath (join l.path ("/".intercalate (name :: rest))) :=
      isPath_iff.2 ⟨Nat.le_of_not_lt hsize,
        nul_not_mem_join (isPath_iff.1 (resolve?_eq_some_iff.1 hleads).1).2
          (nul_not_mem_intercalate fun name hname => (hentry name hname).noNul)⟩
    exact hnotDir (isDir_iff.2 ⟨es, node?_eq_some_iff.2
      ⟨join_ne_empty hne _, q, resolve?_eq_some_iff.2 ⟨hjoin, hq'⟩, hqat⟩⟩)
  · intro hunfollowed hdir
    obtain ⟨es, hnode⟩ := isDir_iff.1 hdir
    obtain ⟨-, q, hq, -⟩ := node?_eq_some_iff.1 hnode
    obtain ⟨hpath, hq⟩ := resolve?_eq_some_iff.1 hq
    rcases hunfollowed (linksToDir_of_isDir hproper hne hleads hat hnames hdir) with
      hsize | ⟨links, q', -, hnone⟩
    · exact Nat.not_le_of_lt hsize (isPath_iff.1 hpath).1
    · rw [hnone] at hq
      cases hq

theorem named_iff :
    (∃ dirs mid, names = dirs ++ [front ++ mid ++ back]) ↔
      names ≠ [] ∧ hasAffixes front back (names.getLastD "") := by
  rw [hasAffixes_iff_eq_append]
  constructor
  · rintro ⟨dirs, mid, rfl⟩
    exact ⟨List.concat_ne_nil _ dirs, mid, List.getLastD_concat⟩
  · rintro ⟨hnames, mid, hmid⟩
    rw [List.getLastD_eq_getLast?, List.getLast?_eq_some_getLast hnames, Option.getD_some] at hmid
    exact ⟨names.dropLast, mid, hmid ▸ (List.dropLast_append_getLast hnames).symm⟩

/-- What a scan looks for below the place of its location is what it meets there. -/
theorem meets_iff (hproper : t.root.Proper) (hl : l.isFilesystem) (hne : l.path ≠ "")
    (hleads : t.resolve? false l.path = some place) :
    t.Meets l front back place names ↔ t.Sought l front back place names := by
  constructor
  · rintro ⟨-, -, -, hnames, ⟨inner, hat, htaken⟩, hwanted⟩
    refine ⟨named_iff.2 ⟨hnames, hwanted⟩, ?_⟩
    cases inner with
    | file content => exact .inl ⟨content, hat⟩
    | link target =>
      exact .inr ⟨target, hat, (takenForFile_link_iff hproper hne hleads hnames hat).1 htaken⟩
    | dir es => exact absurd htaken id
  · rintro ⟨hnamed, hentry⟩
    obtain ⟨hnames, hwanted⟩ := named_iff.1 hnamed
    refine ⟨hl, hne, hleads, hnames, ?_, hwanted⟩
    rcases hentry with ⟨content, hat⟩ | ⟨target, hat, hlink⟩
    · exact ⟨_, hat, trivial⟩
    · exact ⟨_, hat, (takenForFile_link_iff hproper hne hleads hnames hat).2 hlink⟩

/-! ### What can be listed -/

/-- Whether the path of each directory below a place, as a scan of the location there meets it, is
one that can be listed. -/
def Listable (t : FileTree) (l : Location) (place : List String) : Prop :=
  ∀ names es, names ≠ [] → t.root.at? (place ++ names) = some (.dir es) →
    (join l.path ("/".intercalate names)).utf8ByteSize ≤ maxPathSize

theorem unlisted_not_mem_search_iff {node : Node} (h : node.Proper) {wanted : String → Bool}
    {relative name : String} :
    (∀ p, .unlisted p ∉ t.search wanted relative path name node) ↔
      ∀ names es, node.at? names = some (.dir es) → isPath (names.foldl join path) := by
  induction h generalizing relative path name with
  | file content =>
    rw [search_file]
    have hleaf : ∀ es, Node.file content ≠ .dir es := by simp
    cases wanted name <;> simp [at?_eq_some_iff_of_not_dir hleaf]
  | link target =>
    rw [search_link]
    have hleaf : ∀ es, Node.link target ≠ .dir es := by simp
    cases wanted name <;> cases t.isDir path <;> simp [at?_eq_some_iff_of_not_dir hleaf]
  | @dir es hdistinct hentry hinner ih =>
    rw [search_dir]
    split
    · next hpath =>
      constructor
      · intro hlisted names es' hat
        cases names with
        | nil => exact hpath
        | cons first rest =>
          rw [Node.at?_dir_cons, Option.bind_eq_some_iff] at hat
          obtain ⟨next, hnext, hat⟩ := hat
          have he := Assoc.mem_of_lookup hnext
          have hbelow : ∀ p, .unlisted p ∉
              t.search wanted (join relative first) (join path first) first next :=
            fun p hp => hlisted p (List.mem_flatMap.2 ⟨_, he, hp⟩)
          exact (ih _ he).1 hbelow rest es' hat
      · intro hpaths p hp
        obtain ⟨e, he, hp⟩ := List.mem_flatMap.1 hp
        refine (ih e he).2 (fun names es' hat => hpaths (e.1 :: names) es' ?_) p hp
        rw [Node.at?_dir_cons, Assoc.lookup_of_mem hdistinct he, Option.bind_some, hat]
    · next hpath =>
      refine iff_of_false (fun hlisted => ?_) (fun hpaths => hpath (hpaths [] es rfl))
      exact hlisted path (List.mem_singleton.2 rfl)

theorem join_inj {a b : String} : join path a = join path b ↔ a = b := by
  obtain ⟨slash, -, hjoin⟩ := exists_join_eq path
  rw [hjoin, hjoin, String.append_right_inj]

/-- What is met at an entry of a directory has a path that goes on with the name of the entry. -/
theorem exists_names_of_mem_search {e : String × Node} {wanted : String → Bool} {relative : String}
    (hentry : IsEntryName e.1) (hinner : e.2.Proper)
    (hlisted : ∀ p, .unlisted p ∉ t.search wanted (join relative e.1) (join path e.1) e.1 e.2)
    {r : Resource} (hr : r ∈ (t.search wanted (join relative e.1) (join path e.1) e.1
      e.2).filterMap Finding.resource?) :
    ∃ names, (∀ name ∈ e.1 :: names, '/' ∉ name.toList) ∧
      r.path = join relative ("/".intercalate (e.1 :: names)) := by
  obtain ⟨finding, hfinding, hresource⟩ := List.mem_filterMap.1 hr
  obtain ⟨r, p, rfl, rfl⟩ := Finding.resource?_eq_some_iff.1 hresource
  obtain ⟨names, inner, hat, -, -, rfl, -⟩ := (file_mem_search_iff hinner hlisted).1 hfinding
  have hnames := List.forall_mem_cons.2 ⟨hentry, hinner.entryName_of_at? hat⟩
  exact ⟨names, fun name hname => (hnames name hname).noSlash,
    foldl_join relative (List.cons_ne_nil _ _) hnames⟩

/-- A search meets no two files under one path. -/
theorem nodup_paths_search {node : Node} (h : node.Proper) {wanted : String → Bool}
    {relative name : String}
    (hlisted : ∀ p, .unlisted p ∉ t.search wanted relative path name node) :
    (((t.search wanted relative path name node).filterMap Finding.resource?).map
      Resource.path).Nodup := by
  induction h generalizing relative path name with
  | file content =>
    rw [search_file]
    split
    · exact List.nodup_singleton relative
    · exact List.nodup_nil
  | link target =>
    rw [search_link]
    split
    · exact List.nodup_nil
    · split
      · exact List.nodup_singleton relative
      · exact List.nodup_nil
  | @dir es hdistinct hentry hinner ih =>
    rw [search_dir] at hlisted ⊢
    split at hlisted
    · next hpath =>
      have hbelow : ∀ e ∈ es, ∀ p,
          .unlisted p ∉ t.search wanted (join relative e.1) (join path e.1) e.1 e.2 :=
        fun e he p hp => hlisted p (List.mem_flatMap.2 ⟨e, he, hp⟩)
      rw [if_pos hpath, List.filterMap_flatMap, List.map_flatMap, List.nodup_flatMap]
      refine ⟨fun e he => ih e he (hbelow e he), ?_⟩
      rw [List.nodup_iff_pairwise_ne, List.pairwise_map] at hdistinct
      refine hdistinct.imp_of_mem fun {a b} ha hb hne x hxa hxb => hne ?_
      obtain ⟨r, hr, rfl⟩ := List.mem_map.1 hxa
      obtain ⟨r', hr', heq⟩ := List.mem_map.1 hxb
      obtain ⟨names, hslash, hpath⟩ :=
        exists_names_of_mem_search (hentry a ha) (hinner a ha) (hbelow a ha) hr
      obtain ⟨names', hslash', hpath'⟩ :=
        exists_names_of_mem_search (hentry b hb) (hinner b hb) (hbelow b hb) hr'
      rw [hpath, hpath', join_inj] at heq
      have hsame := intercalate_inj (List.cons_ne_nil _ _) (List.cons_ne_nil _ _) hslash' hslash heq
      exact (List.cons.inj hsame).1.symm
    · exact absurd (List.mem_singleton.2 rfl) (hlisted path)

/-! ### What a scan reports -/

/-- Whether a list has one resource for each thing that a scan of a location looks for below a
place, and no other ones, in the order of the bytes of their paths. -/
structure Reported (t : FileTree) (l : Location) (front back : String) (place : List String)
    (found : List Resource) : Prop where
  mem_iff : ∀ r, r ∈ found ↔ ∃ names, t.Sought l front back place names ∧ r = resourceBelow l names
  distinct : ∀ names names', t.Sought l front back place names →
    t.Sought l front back place names' → resourceBelow l names = resourceBelow l names' →
    names = names'
  ascending : found.Pairwise fun a b => Text.bytesOf a.path < Text.bytesOf b.path

/-- There is one such list. -/
theorem Reported.unique {found found' : List Resource} (h : t.Reported l front back place found)
    (h' : t.Reported l front back place found') : found = found' := by
  have hascending := h.ascending
  have hascending' := h'.ascending
  simp only [Text.bytesOf_lt_iff] at hascending hascending'
  exact eq_of_ascending Resource.path hascending hascending' fun r =>
    (h.mem_iff r).trans (h'.mem_iff r).symm

/-- Resources with different paths are sorted by the bytes of these. -/
theorem pairwise_mergeSort_bytes {found : List Resource} (h : (found.map Resource.path).Nodup) :
    (found.mergeSort fun a b => a.path ≤ b.path).Pairwise
      fun a b => Text.bytesOf a.path < Text.bytesOf b.path := by
  have hperm := List.mergeSort_perm found fun a b => a.path ≤ b.path
  have hdistinct := (hperm.map Resource.path).nodup_iff.2 h
  rw [List.nodup_iff_pairwise_ne, List.pairwise_map] at hdistinct
  refine ((pairwise_mergeSort_path found).and hdistinct).imp ?_
  rintro a b ⟨hle, hne⟩
  exact Text.bytesOf_lt_iff.2 (lt_of_le_of_ne hle hne)

theorem listable_iff (hproper : t.root.Proper) (hplace : t.root.at? place = some (.dir es))
    (hpath : isPath l.path) (wanted : String → Bool) :
    t.Listable l place ↔ ∀ p, .unlisted p ∉ t.search wanted "" l.path "" (.dir es) := by
  have hinner := hproper.of_at? hplace
  have hat : ∀ names, t.root.at? (place ++ names) = (Node.dir es).at? names := by
    intro names
    rw [Node.at?_append, hplace, Option.bind_some]
  rw [unlisted_not_mem_search_iff hinner, Listable]
  simp only [hat]
  constructor
  · intro hsize names es' hdir
    by_cases hnames : names = []
    · rwa [hnames]
    have hentry := hinner.entryName_of_at? hdir
    rw [foldl_join l.path hnames hentry, isPath_iff]
    exact ⟨hsize names es' hnames hdir, nul_not_mem_join (isPath_iff.1 hpath).2
      (nul_not_mem_intercalate fun name hname => (hentry name hname).noNul)⟩
  · intro hpaths names es' hnames hdir
    have hjoin := hpaths names es' hdir
    rw [foldl_join l.path hnames (hinner.entryName_of_at? hdir), isPath_iff] at hjoin
    exact hjoin.1

/-- What is looked for at different names has different paths. -/
theorem Sought.eq_of_resourceBelow_eq {names' : List String} (hproper : t.root.Proper)
    (h : t.Sought l front back place names) (h' : t.Sought l front back place names')
    (heq : resourceBelow l names = resourceBelow l names') : names = names' := by
  have hslash : ∀ names, t.Sought l front back place names → ∀ name ∈ names, '/' ∉ name.toList := by
    rintro names ⟨-, ⟨content, hat⟩ | ⟨target, hat, -⟩⟩ name hname
    · exact (hproper.entryName_of_at? hat name (List.mem_append_right _ hname)).noSlash
    · exact (hproper.entryName_of_at? hat name (List.mem_append_right _ hname)).noSlash
  exact intercalate_inj (named_iff.1 h.named).1 (named_iff.1 h'.named).1 (hslash names h)
    (hslash names' h') (congrArg Resource.path heq)

/-- Where every directory can be listed, a scan reports what it looks for. -/
theorem reported_of_listable (hproper : t.root.Proper) (hl : l.isFilesystem)
    (hne : l.path ≠ "") (hleads : t.resolve? false l.path = some place)
    (hplace : t.root.at? place = some (.dir es)) (hlistable : t.Listable l place)
    (front back : String) :
    ∃ found, (t.scan l front back).result = .ok found ∧ t.Reported l front back place found := by
  have hdir := node?_eq_some_iff.2 ⟨hne, place, hleads, hplace⟩
  have hlisted :=
    (listable_iff hproper hplace (isPath_of_node? hdir) (hasAffixes front back)).1 hlistable
  have hscan := (result_scan_of_node? hl hdir).trans (ofFindings_of_listed hlisted)
  refine ⟨_, hscan, fun r => ⟨fun hr => ?_, ?_⟩,
    fun _ _ hsought hsought' => hsought.eq_of_resourceBelow_eq hproper hsought',
    pairwise_mergeSort_bytes (nodup_paths_search (hproper.of_at? hplace) hlisted)⟩
  · obtain ⟨place', names, hmeets, rfl⟩ := exists_meets_of_mem_scan hproper hscan hr
    obtain rfl : place' = place := Option.some.inj (hmeets.leads.symm.trans hleads)
    exact ⟨names, (meets_iff hproper hl hne hleads).1 hmeets, rfl⟩
  · rintro ⟨names, hsought, rfl⟩
    rcases ((meets_iff hproper hl hne hleads).2 hsought).result_scan hproper with
      ⟨e, -, herror⟩ | ⟨found, hfound, hr⟩
    · rw [hscan] at herror
      cases herror
    · rw [hscan] at hfound
      cases hfound
      exact hr

/-- Where one cannot be listed, the scan fails. -/
theorem overlong_of_not_listable (hproper : t.root.Proper) (hl : l.isFilesystem)
    (hne : l.path ≠ "") (hleads : t.resolve? false l.path = some place)
    (hplace : t.root.at? place = some (.dir es)) (hlistable : ¬ t.Listable l place)
    (front back : String) :
    ∃ e, l.Overlong e ∧ (t.scan l front back).result = .error e := by
  have hdir := node?_eq_some_iff.2 ⟨hne, place, hleads, hplace⟩
  have hpath := isPath_of_node? hdir
  rw [listable_iff hproper hplace hpath (hasAffixes front back)] at hlistable
  obtain ⟨p, hp⟩ := not_forall_not.1 hlistable
  rw [result_scan_of_node? hl hdir]
  exact overlong_of_unlisted hl (hproper.of_at? hplace) hpath hp

/-! ### Other orders -/

theorem Unfollowed.reordered (h : t.Reordered t') (hproper : t.root.Proper)
    (hpath : t.Unfollowed path) : t'.Unfollowed path := by
  unfold Unfollowed at hpath ⊢
  simpa only [h.workingDirectory, resolveFrom_reordered h.root hproper] using hpath

theorem LinksToDir.reordered (h : t.Reordered t') (hproper : t.root.Proper)
    (hlink : t.LinksToDir names) : t'.LinksToDir names := by
  obtain ⟨target, q, es, hat, hq, hdir⟩ := hlink
  obtain ⟨es', hdir'⟩ := h.root.exists_at?_eq_dir hproper hdir
  exact ⟨target, q, es', h.root.at?_of_not_dir hproper hat nofun,
    resolveFrom_of_reordered h.root hproper hq, hdir'⟩

theorem Sought.reordered (h : t.Reordered t') (hproper : t.root.Proper)
    (hsought : t.Sought l front back place names) : t'.Sought l front back place names := by
  refine ⟨hsought.named, ?_⟩
  rcases hsought.entry with ⟨content, hat⟩ | ⟨target, hat, hlink⟩
  · exact .inl ⟨content, h.root.at?_of_not_dir hproper hat nofun⟩
  · refine .inr ⟨target, h.root.at?_of_not_dir hproper hat nofun, fun hdir => ?_⟩
    exact (hlink (hdir.reordered h.symm (h.root.proper hproper))).reordered h hproper

theorem Listable.reordered (h : t.Reordered t') (hproper : t.root.Proper)
    (hlistable : t.Listable l place) : t'.Listable l place := by
  intro names es hnames hdir
  obtain ⟨es', hdir'⟩ := h.root.symm.exists_at?_eq_dir (h.root.proper hproper) hdir
  exact hlistable names es' hnames hdir'

theorem Reported.reordered {found : List Resource} (h : t.Reordered t') (hproper : t.root.Proper)
    (hreported : t.Reported l front back place found) : t'.Reported l front back place found := by
  have hsought : ∀ names,
      t.Sought l front back place names ↔ t'.Sought l front back place names := fun names =>
    ⟨fun hsought => hsought.reordered h hproper,
      fun hsought => hsought.reordered h.symm (h.root.proper hproper)⟩
  refine ⟨fun r => (hreported.mem_iff r).trans ?_, fun names names' hnames hnames' => ?_,
    hreported.ascending⟩
  · exact exists_congr fun names => and_congr_left' (hsought names)
  · exact hreported.distinct names names' ((hsought names).2 hnames) ((hsought names').2 hnames')

/-- **Scans of directories**: a scan finds nothing if its location is no directory. If every
directory below the location can be listed, it finds one resource for each thing that it looks for,
and no other ones, in the order of the bytes of their paths, and the same ones in whatever order
directories list their entries. If one cannot be listed, it fails. -/
theorem scan_walks (t : FileTree) (l : Location) (front back : String) (hproper : t.root.Proper)
    (hl : l.isFilesystem) :
    ((∀ es, t.node? l.path ≠ some (.dir es)) → (t.scan l front back).result = .ok []) ∧
      ∀ es, t.node? l.path = some (.dir es) →
        ∃ place, t.resolve? false l.path = some place ∧ t.root.at? place = some (.dir es) ∧
          (t.Listable l place → ∃ found, (t.scan l front back).result = .ok found ∧
            t.Reported l front back place found ∧
            ∀ t', t.Reordered t' → (t'.scan l front back).result = .ok found) ∧
          (¬ t.Listable l place →
            ∃ e, l.Overlong e ∧ (t.scan l front back).result = .error e) := by
  refine ⟨result_scan_of_not_dir, fun es hdir => ?_⟩
  obtain ⟨hne, place, hleads, hplace⟩ := node?_eq_some_iff.1 hdir
  refine ⟨place, hleads, hplace, fun hlistable => ?_, fun hlistable =>
    overlong_of_not_listable hproper hl hne hleads hplace hlistable front back⟩
  obtain ⟨found, hscan, hreported⟩ :=
    reported_of_listable hproper hl hne hleads hplace hlistable front back
  refine ⟨found, hscan, hreported, fun t' h => ?_⟩
  obtain ⟨es', hplace'⟩ := h.root.exists_at?_eq_dir hproper hplace
  obtain ⟨found', hscan', hreported'⟩ :=
    reported_of_listable (h.root.proper hproper) hl hne
      ((resolve?_reordered h hproper l.path).symm.trans hleads) hplace'
      (hlistable.reordered h hproper) front back
  rw [hscan', hreported'.unique (hreported.reordered h hproper)]

/-- The entries of a directory: a link to a script, and a directory with the script and a link in a
circle. -/
def circle : List (String × Node) :=
  [("V2__b.sql", .link "s/V1__a.sql"),
    ("s", .dir [("V1__a.sql", .file []), ("V3__c.sql", .link "..")])]

theorem proper_circle : (Node.dir circle).Proper := by
  refine .dir (by decide) (by decide) (List.forall_mem_cons.2
    ⟨.link "s/V1__a.sql", List.forall_mem_singleton.2 (.dir (by decide) (by decide) ?_)⟩)
  exact List.forall_mem_cons.2 ⟨.file [], List.forall_mem_singleton.2 (.link "..")⟩

theorem at?_ne_dir {node : Node} (h : ∀ es, node ≠ .dir es) : node.at? names ≠ some (.dir es) :=
  fun hat => h es ((at?_eq_some_iff_of_not_dir h).1 hat).2

theorem listable_circle : ({ root := .dir circle } : FileTree).Listable ⟨.filesystem, "."⟩ [] := by
  intro names es hnames hdir
  obtain ⟨name, rest, rfl⟩ := List.exists_cons_of_ne_nil hnames
  obtain ⟨_, next, hroot, hname, hnext⟩ := Node.exists_of_at?_cons hdir
  cases hroot
  rcases List.mem_cons.1 (Assoc.mem_of_lookup hname) with hlink | hs
  · cases hlink
    exact absurd hnext (at?_ne_dir nofun)
  cases List.mem_singleton.1 hs
  cases rest with
  | nil => decide
  | cons name' rest' =>
    obtain ⟨_, next', hinner, hname', hnext'⟩ := Node.exists_of_at?_cons hnext
    cases hinner
    rcases List.mem_cons.1 (Assoc.mem_of_lookup hname') with hfile | hlink
    · cases hfile
      exact absurd hnext' (at?_ne_dir nofun)
    · cases List.mem_singleton.1 hlink
      exact absurd hnext' (at?_ne_dir nofun)

theorem scan_walks_circle :
    (Node.dir circle).Proper ∧ (⟨.filesystem, "."⟩ : Location).isFilesystem ∧
      ({ root := .dir circle } : FileTree).node? "." = some (.dir circle) ∧
      ({ root := .dir circle } : FileTree).Listable ⟨.filesystem, "."⟩ [] ∧
      ({ root := .dir circle } : FileTree).Reordered { root := .dir circle.reverse } ∧
      ∃ found, (({ root := .dir circle } : FileTree).scan ⟨.filesystem, "."⟩ "V" ".sql").result =
          .ok found ∧
        ({ root := .dir circle } : FileTree).Reported ⟨.filesystem, "."⟩ "V" ".sql" [] found ∧
        (({ root := .dir circle.reverse } : FileTree).scan ⟨.filesystem, "."⟩ "V" ".sql").result =
          .ok found := by
  have hleads : ({ root := .dir circle } : FileTree).resolve? false "." = some [] :=
    resolve?_eq_some_iff.2 ⟨isPath_iff.2 (by decide), by decide⟩
  have hdir : ({ root := .dir circle } : FileTree).node? "." = some (.dir circle) :=
    node?_eq_some_iff.2 ⟨by decide, [], hleads, rfl⟩
  have hreordered : ({ root := .dir circle } : FileTree).Reordered
      { root := .dir circle.reverse } := by
    cases proper_circle with | dir hdistinct _ hinner =>
    exact ⟨.of_perm hdistinct (List.reverse_perm circle).symm fun e he => .refl (hinner e he), rfl⟩
  obtain ⟨place, hplace, -, hscan, -⟩ :=
    (scan_walks { root := .dir circle } ⟨.filesystem, "."⟩ "V" ".sql" proper_circle rfl).2 _ hdir
  obtain rfl : place = [] := Option.some.inj (hplace.symm.trans hleads)
  obtain ⟨found, hfound, hreported, hsame⟩ := hscan listable_circle
  exact ⟨proper_circle, rfl, hdir, listable_circle, hreordered, found, hfound, hreported,
    hsame _ hreordered⟩

/-- A directory with a directory, a link to that and a link to itself. -/
def loopTree : FileTree where
  root := .dir [("d", .dir []), ("l", .link "."), ("V1__d.sql", .link "d")]

/-- Names that go through the link to itself are followed with the links that are left. -/
theorem resolveFrom_loops (links n : Nat) (names : List String) :
    resolveFrom loopTree.root false links [] (List.replicate n "l" ++ names) =
      if n ≤ links then resolveFrom loopTree.root false (links - n) [] names else none := by
  induction n generalizing links with
  | zero => rw [List.replicate_zero, List.nil_append, if_pos (Nat.zero_le links), Nat.sub_zero]
  | succ n ih =>
    rw [List.replicate_succ, List.cons_append]
    cases links with
    | zero => rfl
    | succ links =>
      have hstep : ∀ names, resolveFrom loopTree.root false (links + 1) [] ("l" :: names) =
          resolveFrom loopTree.root false links [] names := by
        intro names
        cases links with
        | zero => rfl
        | succ links => rfl
      rw [hstep, ih]
      simp only [Nat.succ_le_succ_iff, Nat.succ_sub_succ]

/-- The location of that directory that goes through the link to itself as often as links are
followed. -/
def manyLinks : Location := ⟨.filesystem, "/".intercalate (List.replicate maxLinks "l")⟩

theorem splitPath_intercalate {first : String} (hfirst : first ≠ "")
    (hslash : ∀ name ∈ first :: names, '/' ∉ name.toList) :
    splitPath ("/".intercalate (first :: names)) = (false, first :: names) := by
  have hpieces := pieces_intercalate (List.cons_ne_nil first names) hslash
  have hne : "/".intercalate (first :: names) ≠ "" := by
    intro hempty
    rw [hempty] at hpieces
    exact hfirst (List.cons.inj hpieces).1.symm
  rw [splitPath_eq hne hpieces, if_neg hfirst]

/-- A path through the link to itself leads to where the names behind it do. -/
theorem resolveFrom_manyLinks (links : Nat) (hslash : ∀ name ∈ names, '/' ∉ name.toList) :
    resolveFrom loopTree.root false (maxLinks + links)
        (if (splitPath ("/".intercalate (List.replicate maxLinks "l" ++ names))).1 then []
          else loopTree.workingDirectory)
        (splitPath ("/".intercalate (List.replicate maxLinks "l" ++ names))).2 =
      resolveFrom loopTree.root false links [] names := by
  have hall : ∀ name ∈ "l" :: (List.replicate 39 "l" ++ names), '/' ∉ name.toList := by
    intro name hname
    rw [← List.cons_append, ← List.replicate_succ] at hname
    rcases List.mem_append.1 hname with hl | hname
    · rw [List.eq_of_mem_replicate hl]
      decide
    · exact hslash name hname
  have hsplit : splitPath ("/".intercalate (List.replicate maxLinks "l" ++ names)) =
      (false, List.replicate maxLinks "l" ++ names) :=
    splitPath_intercalate (by decide) hall
  rw [hsplit]
  refine (resolveFrom_loops (maxLinks + links) maxLinks names).trans ?_
  rw [if_pos (Nat.le_add_right _ _), Nat.add_sub_cancel_left]

theorem resolve?_manyLinks : loopTree.resolve? false manyLinks.path = some [] := by
  refine resolve?_eq_some_iff.2 ⟨isPath_iff.2 ⟨by decide, by decide⟩, ?_⟩
  have h := resolveFrom_manyLinks 0 (List.forall_mem_nil _)
  rw [List.append_nil] at h
  exact h

theorem unfollowed_manyLinks : loopTree.Unfollowed (join manyLinks.path "V1__d.sql") := by
  have hslash : ∀ name ∈ ["V1__d.sql"], '/' ∉ name.toList := by decide
  have hjoin : join manyLinks.path "V1__d.sql" =
      "/".intercalate (List.replicate maxLinks "l" ++ ["V1__d.sql"]) := by decide
  rw [hjoin]
  exact .inr ⟨maxLinks + 1, ["d"], resolveFrom_manyLinks 1 hslash, resolveFrom_manyLinks 0 hslash⟩

theorem listable_manyLinks : loopTree.Listable manyLinks [] := by
  intro names es hnames hdir
  obtain ⟨name, rest, rfl⟩ := List.exists_cons_of_ne_nil hnames
  obtain ⟨_, next, hroot, hname, hnext⟩ := Node.exists_of_at?_cons hdir
  cases hroot
  rcases List.mem_cons.1 (Assoc.mem_of_lookup hname) with hd | hlink
  · cases hd
    cases rest with
    | nil => decide
    | cons name' rest' => cases hnext
  · rcases List.mem_cons.1 hlink with hlink | hlink
    · cases hlink
      exact absurd hnext (at?_ne_dir nofun)
    · cases List.mem_singleton.1 hlink
      exact absurd hnext (at?_ne_dir nofun)

/-- A link to a directory is reported if its path goes through too many links. -/
theorem not_scan_walks_manyLinks :
    ¬ ∀ (t : FileTree) (l : Location) (front back : String) (place : List String)
        (es : List (String × Node)) (found : List Resource), t.root.Proper → l.isFilesystem →
      t.resolve? false l.path = some place → t.root.at? place = some (.dir es) →
      t.Listable l place → (t.scan l front back).result = .ok found →
      ∀ r ∈ found, ∃ entry, t.placeOf? l r = some entry ∧ ¬ t.LinksToDir entry := by
  intro hall
  have hproper : loopTree.root.Proper := by
    refine .dir (by decide) (by decide) (List.forall_mem_cons.2 ⟨?_, List.forall_mem_cons.2
      ⟨.link ".", List.forall_mem_singleton.2 (.link "d")⟩⟩)
    exact .dir (by decide) (by decide) (List.forall_mem_nil _)
  obtain ⟨found, hscan, hreported⟩ := reported_of_listable hproper (l := manyLinks) rfl (by decide)
    resolve?_manyLinks rfl listable_manyLinks "V" ".sql"
  have hsought : loopTree.Sought manyLinks "V" ".sql" [] ["V1__d.sql"] :=
    ⟨⟨[], "1__d", rfl⟩, .inr ⟨"d", rfl, fun _ => unfollowed_manyLinks⟩⟩
  obtain ⟨entry, hentry, hnot⟩ := hall loopTree manyLinks "V" ".sql" [] _ found hproper rfl
    resolve?_manyLinks rfl listable_manyLinks hscan _
    ((hreported.mem_iff _).2 ⟨_, hsought, rfl⟩)
  rw [placeOf?, resolve?_manyLinks] at hentry
  cases hentry
  exact hnot ⟨"d", ["d"], [], rfl, rfl, rfl⟩

end FileTree

end SchemaPlan
