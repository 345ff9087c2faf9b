import Mathlib.Data.List.Flatten
import SchemaPlan.Proofs.Storage.FileTree
import SchemaPlan.Storage.Scanner

/-!
# What a search of a directory finds

A tree without links holds its files at different names, and these are the names that lead to them
(`mem_files_iff`). A search finds all of these files whose own name is wanted, in the order in which
the directories list their entries (`filterMap_search`), unless there is a directory on the way
whose path is too long for it to be listed; whether there is one does not depend on what is wanted.
-/

namespace SchemaPlan

/-! ### The files of a tree -/

namespace Node

mutual

/-- The files at a node and below it, with the names that lead to them. -/
def files : Node → List (List String × List UInt8)
  | .file content => [([], content)]
  | .link _ => []
  | .dir es => filesIn es

/-- The files at and below some entries. -/
def filesIn : List (String × Node) → List (List String × List UInt8)
  | [] => []
  | e :: es => filesOf e ++ filesIn es

/-- The files at and below an entry. -/
def filesOf : String × Node → List (List String × List UInt8)
  | (name, node) => node.files.map fun f => (name :: f.1, f.2)

end

variable {node : Node} {es : List (String × Node)}

theorem files_dir (es : List (String × Node)) : (dir es).files = es.flatMap filesOf := by
  rw [files]
  induction es with
  | nil => rw [filesIn, List.flatMap_nil]
  | cons e es ih => rw [filesIn, ih, List.flatMap_cons]

theorem mem_filesOf_iff {e : String × Node} {f : List String × List UInt8} :
    f ∈ filesOf e ↔ ∃ inner ∈ e.2.files, (e.1 :: inner.1, inner.2) = f := by
  obtain ⟨name, node⟩ := e
  rw [filesOf, List.mem_map]

/-- The files of a tree without links are what its names lead to. -/
theorem mem_files_iff (h : node.Plain) {names : List String} {content : List UInt8} :
    (names, content) ∈ node.files ↔ node.at? names = some (.file content) := by
  induction h generalizing names with
  | file other =>
    rw [files, List.mem_singleton]
    cases names with
    | nil => rw [at?_nil]; simp [eq_comm]
    | cons name names => simp [at?]
  | @dir es hdistinct hentry hinner ih =>
    rw [files_dir, List.mem_flatMap]
    constructor
    · rintro ⟨e, he, hf⟩
      obtain ⟨⟨rest, other⟩, hrest, heq⟩ := mem_filesOf_iff.1 hf
      cases heq
      rw [at?_dir_cons, Assoc.lookup_of_mem hdistinct he]
      exact (ih e he).1 hrest
    · intro hat
      cases names with
      | nil => cases hat
      | cons name rest =>
        rw [at?_dir_cons, Option.bind_eq_some_iff] at hat
        obtain ⟨next, hnext, hat⟩ := hat
        have he := Assoc.mem_of_lookup hnext
        exact ⟨_, he, mem_filesOf_iff.2 ⟨_, (ih _ he).2 hat, rfl⟩⟩

/-- The files of a tree without links are at different names. -/
theorem nodup_files (h : node.Plain) : (node.files.map Prod.fst).Nodup := by
  induction h with
  | file content => simp [files]
  | @dir es hdistinct hentry hinner ih =>
    rw [files_dir, List.map_flatMap, List.nodup_flatMap]
    have hfst : ∀ e : String × Node,
        (filesOf e).map Prod.fst = (e.2.files.map Prod.fst).map (e.1 :: ·) := by
      rintro ⟨name, node⟩
      rw [filesOf, List.map_map, List.map_map]
      rfl
    constructor
    · intro e he
      rw [hfst]
      exact (ih e he).map fun _ _ heq => (List.cons.inj heq).2
    · rw [List.nodup_iff_pairwise_ne, List.pairwise_map] at hdistinct
      refine hdistinct.imp fun {a b} hne names ha hb => hne ?_
      simp only [hfst, List.mem_map] at ha hb
      obtain ⟨_, -, rfl⟩ := ha
      obtain ⟨_, -, heq⟩ := hb
      exact (List.cons.inj heq).1.symm

theorem files_ne_nil {names : List String} {content : List UInt8}
    (h : (names, content) ∈ (dir es).files) : names ≠ [] := by
  rw [files_dir, List.mem_flatMap] at h
  obtain ⟨e, -, hf⟩ := h
  obtain ⟨_, -, heq⟩ := mem_filesOf_iff.1 hf
  cases heq
  exact List.cons_ne_nil _ _

end Node

/-! ### Searching a tree -/

namespace FileTree

variable {t : FileTree} {wanted other : String → Bool} {relative path name : String} {node : Node}
  {es : List (String × Node)}

theorem searchAll_eq (t : FileTree) (wanted : String → Bool) (relative path : String)
    (es : List (String × Node)) :
    t.searchAll wanted relative path es =
      es.flatMap fun e => t.search wanted (join relative e.1) (join path e.1) e.1 e.2 := by
  induction es with
  | nil => rw [searchAll, List.flatMap_nil]
  | cons e es ih =>
    obtain ⟨name, node⟩ := e
    rw [searchAll, searchEntry, ih, List.flatMap_cons]

theorem search_file (content : List UInt8) :
    t.search wanted relative path name (.file content) =
      if wanted name then [.file relative path] else [] := by
  rw [search]

theorem search_link (target : String) :
    t.search wanted relative path name (.link target) =
      if t.isDir path then [.skippedLink path]
      else if wanted name then [.file relative path] else [] := by
  rw [search]

theorem search_dir (es : List (String × Node)) :
    t.search wanted relative path name (.dir es) =
      if isPath path then
        es.flatMap fun e => t.search wanted (join relative e.1) (join path e.1) e.1 e.2
      else [.unlisted path] := by
  rw [search, searchAll_eq]

/-- What is met at the entries of a directory with a usable path is what is met at the directory. -/
theorem searchAll_eq_search (hpath : isPath path) :
    t.searchAll wanted relative path es = t.search wanted relative path name (.dir es) := by
  rw [search, if_pos hpath]

/-- Which directories cannot be listed does not depend on what is wanted. -/
theorem unlisted_mem_search_iff (h : node.Proper) {p : String} :
    .unlisted p ∈ t.search wanted relative path name node ↔
      .unlisted p ∈ t.search other relative path name node := by
  induction h generalizing relative path name with
  | file content =>
    rw [search_file, search_file]
    cases wanted name <;> cases other name <;> simp
  | link target =>
    rw [search_link, search_link]
    split
    · rfl
    · cases wanted name <;> cases other name <;> simp
  | @dir es hdistinct hentry hinner ih =>
    rw [search_dir, search_dir]
    split
    · simp only [List.mem_flatMap]
      exact exists_congr fun e => and_congr_right fun he => ih e he
    · rfl

/-- A directory that cannot be listed is below the one that is searched, and its path is too long.
-/
theorem size_of_unlisted (h : node.Proper) (hpath : '\x00' ∉ path.toList) {p : String}
    (hp : .unlisted p ∈ t.search wanted relative path name node) :
    path.toList <+: p.toList ∧ maxPathSize < p.utf8ByteSize := by
  induction h generalizing relative path name with
  | file content =>
    rw [search_file] at hp
    split at hp <;> simp at hp
  | link target =>
    rw [search_link] at hp
    split at hp
    · simp at hp
    · split at hp <;> simp at hp
  | @dir es hdistinct hentry hinner ih =>
    rw [search_dir] at hp
    split at hp
    · obtain ⟨e, he, hp⟩ := List.mem_flatMap.1 hp
      obtain ⟨hfront, hsize⟩ := ih e he (nul_not_mem_join hpath (hentry e he).noNul) hp
      exact ⟨(isPrefix_join path e.1).trans hfront, hsize⟩
    · next hno =>
      cases List.mem_singleton.1 hp
      rw [isPath_iff, not_and] at hno
      exact ⟨List.prefix_rfl, Nat.lt_of_not_le fun hsize => hno hsize hpath⟩

/-- Where every directory can be listed, a search finds the files whose own name is wanted. -/
theorem filterMap_search (h : node.Plain)
    (hlisted : ∀ p, .unlisted p ∉ t.search wanted relative path name node) :
    (t.search wanted relative path name node).filterMap Finding.resource? =
      (node.files.filter fun f => wanted (f.1.getLastD name)).map fun f =>
        .ofFile (f.1.foldl join relative) (f.1.foldl join path) := by
  induction h generalizing relative path name with
  | file content =>
    rw [search_file, Node.files, List.filter_singleton]
    show _ = List.map _ (bif wanted name then _ else _)
    cases wanted name <;> rfl
  | @dir es hdistinct hentry hinner ih =>
    rw [search_dir] at hlisted ⊢
    split at hlisted
    · next hpath =>
      rw [if_pos hpath, Node.files_dir, List.filterMap_flatMap, List.filter_flatMap,
        List.map_flatMap]
      refine List.flatMap_congr fun e he => ?_
      rw [ih e he fun p hp => hlisted p (List.mem_flatMap.2 ⟨e, he, hp⟩)]
      obtain ⟨inner, node⟩ := e
      rw [Node.filesOf, List.filter_map, List.map_map]
      simp only [Function.comp_def, List.getLastD_cons, List.foldl_cons]
    · exact absurd (List.mem_singleton.2 rfl) (hlisted path)

end FileTree

end SchemaPlan
