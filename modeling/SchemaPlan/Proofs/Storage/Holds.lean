import SchemaPlan.Proofs.Storage.Scanner
import SchemaPlan.Proofs.Storage.Search

/-!
# One tree of files in different places

A tree of files is a dictionary of contents by relative path. It may be held by a directory or by a
package in memory (`Storage.Holds`). Wherever it is held, a scan lists the same paths in the same
order, with the same contents to be read from them (`result_scan`, `bytes_resourceAt`). A directory
can keep less than a package, though: what has a path that is too long can be neither listed nor
read (`Overlong`).
-/

namespace SchemaPlan

/-! ### Ascending entries -/

theorem nodup_of_ascending {α : Type} (key : α → String) {xs : List α}
    (h : xs.Pairwise fun a b => key a < key b) : xs.Nodup := by
  refine h.imp ?_
  rintro a _ hlt rfl
  exact String.lt_irrefl (key a) hlt

/-- Ascending entries are told by what is among them. -/
theorem eq_of_ascending {α : Type} (key : α → String) {xs ys : List α}
    (hxs : xs.Pairwise fun a b => key a < key b) (hys : ys.Pairwise fun a b => key a < key b)
    (h : ∀ e, e ∈ xs ↔ e ∈ ys) : xs = ys :=
  List.Perm.eq_of_pairwise (fun _ _ _ _ hab hba => absurd hba (String.lt_asymm hab)) hxs hys
    ((List.perm_ext_iff_of_nodup (nodup_of_ascending key hxs) (nodup_of_ascending key hys)).2 h)

/-! ### Holding a tree -/

/-- Whether the files below a node are those of a tree. -/
def Node.HasFiles (node : Node) (tree : Dict (List UInt8)) : Prop :=
  ∀ key content, (key, content) ∈ tree.toList ↔
    ∃ names, "/".intercalate names = key ∧ node.at? names = some (.file content)

/-- Whether the resources whose path begins with `base` are those of a tree. -/
def Bundle.HasFiles (resources : Bundle) (base : String) (tree : Dict (List UInt8)) : Prop :=
  ∀ key content, (key, content) ∈ tree.toList ↔ (base ++ key, content) ∈ resources.entries.toList

/-- Whether what is below a location is a tree of files and nothing else. -/
inductive Storage.Holds (storage : Storage) (tree : Dict (List UInt8)) : Location → Prop where
  /-- A directory without links that has the files of the tree. -/
  | directory {path : String} {es : List (String × Node)}
      (leads : storage.files.node? path = some (.dir es)) (plain : (Node.dir es).Plain)
      (files : (Node.dir es).HasFiles tree) : Holds storage tree ⟨.filesystem, path⟩
  /-- A package that has the files of the tree as resources. -/
  | package {path : String}
      (files : storage.embedded.HasFiles (Bundle.base ⟨.embedded, path⟩) tree) :
      Holds storage tree ⟨.embedded, path⟩

namespace Location

/-- The resource that a file of a tree is, below a location that holds the tree. -/
def resourceAt (l : Location) (file : String × List UInt8) : Resource :=
  match l.medium with
  | .filesystem => .ofFile file.1 (FileTree.join l.path file.1)
  | .embedded =>
    .inMemory file.1 (Medium.embedded.scheme ++ (Bundle.base l ++ file.1)) file.2

@[simp] theorem path_resourceAt (l : Location) (file : String × List UInt8) :
    (l.resourceAt file).path = file.1 := by
  obtain ⟨medium, path⟩ := l
  cases medium <;> rfl

@[simp] theorem filename_resourceAt (l : Location) (file : String × List UInt8) :
    (l.resourceAt file).filename = lastSegment file.1 :=
  congrArg lastSegment (path_resourceAt l file)

/-- Whether an error is that of a file or directory below a location on disk that has a path which
is too long. -/
inductive Overlong (l : Location) : PlanError → Prop where
  | io {path reason : String} (medium : l.isFilesystem) (below : l.path.toList <+: path.toList)
      (size : FileTree.maxPathSize < path.utf8ByteSize) : Overlong l (.io path reason)

end Location

variable {storage : Storage} {tree : Dict (List UInt8)} {l : Location} {path : String}
  {es : List (String × Node)} {front back : String}

/-- The files of a tree that a scan looks for. -/
def Dict.wanted (tree : Dict (List UInt8)) (front back : String) : List (String × List UInt8) :=
  tree.toList.filter fun file => hasAffixes front back (lastSegment file.1)

/-! ### In memory -/

namespace Bundle

theorem append_lt_append {front a b : String} (h : a < b) : front ++ a < front ++ b := by
  rw [String.lt_iff, String.toList_append, String.toList_append]
  exact List.append_left_lt (String.lt_iff.1 h)

theorem mem_below_base_append_iff {resources : Bundle} {key : String} {content : List UInt8} :
    (base l ++ key, content) ∈ resources.below l ↔
      (base l ++ key, content) ∈ resources.entries.toList := by
  rw [mem_below_iff, String.toList_append]
  exact and_iff_left (List.prefix_append _ _)

/-- A package that has the files of a tree keeps them in the order of the tree. -/
theorem hasFiles_iff {resources : Bundle} :
    resources.HasFiles (base l) tree ↔
      resources.below l = tree.toList.map fun file => (base l ++ file.1, file.2) := by
  constructor
  · intro h
    refine eq_of_ascending Prod.fst (resources.entries.ascending.sublist List.filter_sublist) ?_ ?_
    · exact List.pairwise_map.2 (tree.ascending.imp append_lt_append)
    · rintro ⟨key, content⟩
      rw [List.mem_map]
      constructor
      · intro hkey
        obtain ⟨rest, hrest⟩ := (mem_below_iff.1 hkey).2
        have heq : base l ++ String.ofList rest = key := by
          rw [← String.toList_inj, String.toList_append, String.toList_ofList, hrest]
        subst heq
        exact ⟨_, (h _ _).2 (mem_below_base_append_iff.1 hkey), rfl⟩
      · rintro ⟨⟨rest, other⟩, hrest, heq⟩
        cases heq
        exact mem_below_base_append_iff.2 ((h _ _).1 hrest)
  · intro h key content
    rw [← mem_below_base_append_iff, h, List.mem_map]
    constructor
    · exact fun hkey => ⟨_, hkey, rfl⟩
    · rintro ⟨⟨rest, other⟩, hrest, heq⟩
      obtain ⟨hkey, rfl⟩ := Prod.mk.inj heq
      rwa [← (String.append_right_inj _).1 hkey]

theorem resource_base_append (hl : l.medium = .embedded) (file : String × List UInt8) :
    resource (base l) (base l ++ file.1, file.2) = l.resourceAt file := by
  rw [resource_append, Location.resourceAt, hl]

/-- In a package the files of the tree that are looked for are found. -/
theorem found_of_hasFiles {resources : Bundle} (hl : l.medium = .embedded)
    (h : resources.HasFiles (base l) tree) (front back : String) :
    resources.found l front back = (tree.wanted front back).map l.resourceAt := by
  rw [found_eq, hasFiles_iff.1 h, List.filter_map, List.map_map, Dict.wanted]
  simp only [Function.comp_def, lastSegment_base_append, resource_base_append hl]

end Bundle

/-! ### On disk -/

theorem lastSegment_intercalate {names : List String} (h : ∀ name ∈ names, IsEntryName name) :
    lastSegment ("/".intercalate names) = names.getLastD "" := by
  induction names with
  | nil => rfl
  | cons name names ih =>
    obtain ⟨hname, hnames⟩ := List.forall_mem_cons.1 h
    cases names with
    | nil => rw [String.intercalate_singleton]; exact lastSegment_eq_self hname.noSlash
    | cons next names =>
      have happend : ("/".intercalate (name :: next :: names)).toList =
          name.toList ++ '/' :: ("/".intercalate (next :: names)).toList := by
        rw [String.intercalate_cons_cons, String.toList_append, String.toList_append,
          List.append_assoc]
        rfl
      rw [lastSegment_eq_of_append happend, ih hnames]
      rfl

namespace Node

/-- The path and the content of a file below a directory. -/
def keyed (file : List String × List UInt8) : String × List UInt8 :=
  ("/".intercalate file.1, file.2)

theorem mem_map_keyed_iff (hplain : (dir es).Plain) {key : String} {content : List UInt8} :
    (key, content) ∈ (dir es).files.map keyed ↔
      ∃ names, "/".intercalate names = key ∧ (dir es).at? names = some (.file content) := by
  rw [List.mem_map]
  constructor
  · rintro ⟨⟨names, other⟩, hf, heq⟩
    cases heq
    exact ⟨names, rfl, (mem_files_iff hplain).1 hf⟩
  · rintro ⟨names, rfl, hat⟩
    exact ⟨(names, content), (mem_files_iff hplain).2 hat, rfl⟩

theorem entryName_of_mem_files (hplain : (dir es).Plain) {file : List String × List UInt8}
    (h : file ∈ (dir es).files) : ∀ name ∈ file.1, IsEntryName name :=
  hplain.proper.entryName_of_at? ((mem_files_iff hplain).1 h)

/-- A directory that has the files of a tree lists them in some order. -/
theorem hasFiles_iff_perm (hplain : (dir es).Plain) :
    (dir es).HasFiles tree ↔ ((dir es).files.map keyed).Perm tree.toList := by
  have hinj : ∀ f ∈ (dir es).files, ∀ g ∈ (dir es).files, keyed f = keyed g → f = g := by
    rintro f hf g hg heq
    obtain ⟨hkey, hcontent⟩ := Prod.mk.inj heq
    refine Prod.ext ?_ hcontent
    exact FileTree.intercalate_inj (files_ne_nil hf) (files_ne_nil hg)
      (fun name hname => (entryName_of_mem_files hplain hf name hname).noSlash)
      (fun name hname => (entryName_of_mem_files hplain hg name hname).noSlash) hkey
  refine Iff.trans ?_ (List.perm_ext_iff_of_nodup (((nodup_files hplain).of_map _).map_on hinj)
    (nodup_of_ascending Prod.fst tree.ascending)).symm
  constructor
  · rintro h ⟨key, content⟩
    exact (mem_map_keyed_iff hplain).trans (h key content).symm
  · exact fun h key content => (h (key, content)).symm.trans (mem_map_keyed_iff hplain)

end Node

namespace FileTree

variable {t : FileTree}

/-- Where every directory can be listed, the files of the tree that are looked for are found. -/
theorem searchAll_perm (hplain : (Node.dir es).Plain) (h : (Node.dir es).HasFiles tree)
    (hpath : isPath path)
    (hlisted : ∀ p, .unlisted p ∉ t.searchAll (hasAffixes front back) "" path es) :
    ((t.searchAll (hasAffixes front back) "" path es).filterMap Finding.resource?).Perm
      ((tree.wanted front back).map (Location.resourceAt ⟨.filesystem, path⟩)) := by
  have hsearch : t.searchAll (hasAffixes front back) "" path es =
      t.search (hasAffixes front back) "" path "" (.dir es) := searchAll_eq_search hpath
  rw [hsearch] at hlisted ⊢
  rw [filterMap_search hplain hlisted, Dict.wanted]
  refine List.Perm.trans (List.Perm.of_eq ?_)
    ((((Node.hasFiles_iff_perm hplain).1 h).filter _).map _)
  rw [List.filter_map, List.map_map]
  have hname : ∀ file ∈ (Node.dir es).files,
      lastSegment (Node.keyed file).1 = file.1.getLastD "" := fun file hfile =>
    lastSegment_intercalate (Node.entryName_of_mem_files hplain hfile)
  have hresource : ∀ file ∈ (Node.dir es).files,
      Resource.ofFile (file.1.foldl join "") (file.1.foldl join path) =
        Location.resourceAt ⟨.filesystem, path⟩ (Node.keyed file) := by
    intro file hfile
    have hentry := Node.entryName_of_mem_files hplain hfile
    have hjoin := fun base => foldl_join base (Node.files_ne_nil hfile) hentry
    rw [hjoin, hjoin, join_empty]
    rfl
  have hfilter := List.filter_congr fun file hfile =>
    congrArg (hasAffixes front back) (hname file hfile)
  simp only [Function.comp_def]
  rw [hfilter]
  exact List.map_congr_left fun file hfile => hresource file (List.mem_filter.1 hfile).1

/-- Sorted by their paths, the files of a tree are in the order of the tree. -/
theorem mergeSort_eq {resources : List Resource}
    (h : resources.Perm ((tree.wanted front back).map (Location.resourceAt ⟨.filesystem, path⟩))) :
    (resources.mergeSort fun a b => a.path ≤ b.path) =
      (tree.wanted front back).map (Location.resourceAt ⟨.filesystem, path⟩) := by
  have hperm := (List.mergeSort_perm resources fun a b => a.path ≤ b.path).trans h
  -- a file is told by its path
  have hfile : ∀ r ∈ (tree.wanted front back).map (Location.resourceAt ⟨.filesystem, path⟩),
      r = .ofFile r.path (join path r.path) := by
    intro r hr
    obtain ⟨file, -, rfl⟩ := List.mem_map.1 hr
    rfl
  refine List.Perm.eq_of_pairwise ?_ (pairwise_mergeSort_path resources) ?_ hperm
  · intro a b ha hb hab hba
    rw [hfile a (hperm.mem_iff.1 ha), hfile b hb, String.le_antisymm hab hba]
  · refine List.pairwise_map.2 ((tree.ascending.filter _).imp fun {a b} hlt => ?_)
    rw [Location.path_resourceAt, Location.path_resourceAt]
    exact String.not_lt.1 (String.lt_asymm hlt)

/-- Where every directory can be listed, a scan finds the files of the tree that are looked for. -/
theorem ofFindings_searchAll (hplain : (Node.dir es).Plain) (h : (Node.dir es).HasFiles tree)
    (hpath : isPath path)
    (hlisted : ∀ p, .unlisted p ∉ t.searchAll (hasAffixes front back) "" path es) :
    ofFindings (t.searchAll (hasAffixes front back) "" path es) =
      .ok ((tree.wanted front back).map (Location.resourceAt ⟨.filesystem, path⟩)) := by
  rw [ofFindings_of_listed hlisted]
  exact congrArg Except.ok (mergeSort_eq (searchAll_perm hplain h hpath hlisted))

/-- Where a directory cannot be listed, a scan fails at one whose path is too long. -/
theorem overlong_of_unlisted {node : Node} {wanted : String → Bool} {relative name p : String}
    (hl : l.isFilesystem) (hproper : node.Proper) (hpath : isPath l.path)
    (hp : .unlisted p ∈ t.search wanted relative l.path name node) :
    ∃ e, l.Overlong e ∧ ofFindings (t.search wanted relative l.path name node) = .error e := by
  obtain ⟨q, hq, herror⟩ := ofFindings_of_unlisted hp
  obtain ⟨hbelow, hsize⟩ := size_of_unlisted hproper (isPath_iff.1 hpath).2 hq
  exact ⟨_, .io hl hbelow hsize, herror⟩

end FileTree

namespace Resource

theorem bytes_ofFile {files : FileTree} {place : String} {bytes : List UInt8}
    (h : files.read? place = some bytes) (path : String) :
    (ofFile path place).bytes files = .ok bytes := by
  simp only [Resource.bytes, ofFile, h]

theorem read?_of_bytes_ofFile {files : FileTree} {path place : String} {bytes : List UInt8}
    (h : (ofFile path place).bytes files = .ok bytes) : files.read? place = some bytes := by
  simp only [Resource.bytes, ofFile] at h
  split at h
  · next hread =>
    cases h
    exact hread
  · cases h

theorem bytes_ofFile_of_none {files : FileTree} {place : String} (h : files.read? place = none)
    (path : String) :
    (ofFile path place).bytes files = .error (.io place "the file cannot be read") := by
  simp only [Resource.bytes, ofFile, h]

end Resource

/-! ### Scans -/

namespace Storage.Holds

/-- In every place that holds a tree a scan finds the same files in the same order, unless there is
a directory that cannot be listed. -/
theorem result_scan (h : storage.Holds tree l) :
    (∀ front back, (Scanner.standard.scan storage l front back).result =
        .ok ((tree.wanted front back).map l.resourceAt)) ∨
      ∀ front back, ∃ e, l.Overlong e ∧
        (Scanner.standard.scan storage l front back).result = .error e := by
  cases h with
  | @package path hfiles =>
    refine .inl fun front back => ?_
    show (storage.embedded.scan ⟨.embedded, path⟩ front back).result = _
    rw [Bundle.result_scan, Bundle.found_of_hasFiles rfl hfiles]
    rfl
  | @directory path es hleads hplain hfiles =>
    have hscan : ∀ front back,
        (Scanner.standard.scan storage ⟨.filesystem, path⟩ front back).result =
          FileTree.ofFindings (storage.files.searchAll (hasAffixes front back) "" path es) := by
      intro front back
      show (storage.files.scan ⟨.filesystem, path⟩ front back).result = _
      rw [FileTree.result_scan _ rfl, FileTree.findings, hleads]
    have hpath := FileTree.isPath_of_node? hleads
    have hsearch : ∀ wanted : String → Bool, storage.files.searchAll wanted "" path es =
        storage.files.search wanted "" path "" (.dir es) := fun wanted =>
      FileTree.searchAll_eq_search hpath
    by_cases hlisted : ∀ p, .unlisted p ∉ storage.files.searchAll (fun _ => true) "" path es
    · refine .inl fun front back => ?_
      rw [hscan, FileTree.ofFindings_searchAll hplain hfiles hpath fun p hp => hlisted p ?_]
      rw [hsearch] at hp ⊢
      exact (FileTree.unlisted_mem_search_iff hplain.proper).1 hp
    · refine .inr fun front back => ?_
      obtain ⟨p, hp⟩ := not_forall_not.1 hlisted
      have hp' : .unlisted p ∈ storage.files.searchAll (hasAffixes front back) "" path es := by
        rw [hsearch] at hp ⊢
        exact (FileTree.unlisted_mem_search_iff hplain.proper).1 hp
      rw [hscan, hsearch]
      rw [hsearch] at hp'
      exact FileTree.overlong_of_unlisted rfl hplain.proper hpath hp'

/-- In every place that holds a tree its files have the same contents, unless their path is too
long. -/
theorem bytes_resourceAt (h : storage.Holds tree l) {file : String × List UInt8}
    (hfile : file ∈ tree.toList) :
    (l.resourceAt file).bytes storage.files = .ok file.2 ∨
      ∃ e, l.Overlong e ∧ (l.resourceAt file).bytes storage.files = .error e := by
  cases h with
  | package _ => exact .inl rfl
  | @directory path es hleads hplain hfiles =>
    obtain ⟨key, content⟩ := file
    obtain ⟨names, rfl, hat⟩ := (hfiles key content).1 hfile
    have hnames : names ≠ [] := by
      rintro rfl
      cases hat
    by_cases hsize :
        (FileTree.join path ("/".intercalate names)).utf8ByteSize ≤ FileTree.maxPathSize
    · refine .inl (Resource.bytes_ofFile ?_ _)
      rw [FileTree.read?, FileTree.node?_join hleads hplain.proper hnames hat nofun hsize]
    · have hlong := Nat.lt_of_not_le hsize
      refine .inr ⟨_, .io rfl (FileTree.isPrefix_join path _) hlong,
        Resource.bytes_ofFile_of_none ?_ _⟩
      rw [FileTree.read?, FileTree.node?_of_size hlong]

end Storage.Holds

end SchemaPlan
