import SchemaPlan.Proofs.Location.ReadingBack
import SchemaPlan.Proofs.Storage.Places

/-!
# What is lost with a nested location

Each configured location is held by a root, by the text of their paths: on disk the path of the
inner location goes on behind that of the outer one (`exists_join_of_encloses`).

The scan of that root finds what a scan of the inner location finds (`Meets.of_prefix`) if the inner
location leads to a directory in that of the root. It need not do so: behind the path of the root
there may be names that go up, or links, and with these the inner location can stray from the root
(`StraysFrom`). Then discarding it loses what is found there.

## Honest scope

What a scan finds is told by its place in the tree, the names that lead to it from the root of all
files, which is what the path of the finding stands for as long as a path may be that long.
-/

namespace SchemaPlan

namespace Location

variable {k l : Location}

/-- On disk, the path of an enclosed location is that of the enclosing one with names added. -/
theorem exists_join_of_encloses (hk : k.isFilesystem) (h : k.encloses l) :
    ∃ names ≠ [], (∀ name ∈ names, '/' ∉ name.toList) ∧
      l.path = FileTree.join k.path ("/".intercalate names) := by
  obtain ⟨-, hpath, ⟨hembedded, -⟩ | ⟨rest, hrest, hslash⟩⟩ := encloses_iff_text.1 h
  · have hmedium : k.medium = .filesystem := of_decide_eq_true hk
    have hmedium' : k.medium = .embedded := of_decide_eq_true hembedded
    rw [hmedium] at hmedium'
    cases hmedium'
  by_cases hjoin : k.path = "" ∨ Text.endsWith ['/'] k.path.toList
  · refine ⟨_, FileTree.pieces_ne_nil rest, FileTree.slash_not_mem_pieces, ?_⟩
    rw [FileTree.join, if_pos hjoin, FileTree.intercalate_pieces, ← String.toList_inj,
      String.toList_append, String.toList_ofList, hrest]
  · obtain ⟨behind, rfl⟩ :=
      hslash.resolve_right fun h => hjoin (.inr (Text.endsWith_iff.2 h))
    refine ⟨_, FileTree.pieces_ne_nil behind, FileTree.slash_not_mem_pieces, ?_⟩
    rw [FileTree.join, if_neg hjoin, FileTree.intercalate_pieces, ← String.toList_inj,
      String.toList_append, String.toList_append, String.toList_ofList (l := behind), hrest,
      List.append_assoc]
    rfl

end Location

namespace FileTree

open Location (roots)

variable {t : FileTree} {k l : Location} {ls : List Location} {front back : String}
  {p q mid names : List String}

/-! ### What a location on disk reports -/

/-- The names that lead from the root of all files to what a scan of a location has found: those of
the directory of the location, and behind them those of the path below it. -/
def placeOf? (t : FileTree) (l : Location) (r : Resource) : Option (List String) :=
  (t.resolve? false l.path).map (· ++ pieces r.path.toList)

/-- Whether a scan of a location finds what is at some names. -/
def Reports (t : FileTree) (l : Location) (front back : String) (entry : List String) : Prop :=
  ∃ found, (t.scan l front back).result = .ok found ∧ ∃ r ∈ found, t.placeOf? l r = some entry

/-- Whether some names are those of a link to a directory. -/
def LinksToDir (t : FileTree) (entry : List String) : Prop :=
  ∃ target q es, t.root.at? entry = some (.link target) ∧
    resolveFrom t.root false maxLinks [] entry = some q ∧ t.root.at? q = some (.dir es)

/-- Whether the path of a location goes on behind that of another one and yet leads out of the
directory of that one, by a name that goes up or through a link. -/
inductive StraysFrom (t : FileTree) (k l : Location) : Prop where
  | intro {p q names : List String} (starts : t.resolve? false k.path = some p)
      (leads : t.resolve? false l.path = some q) (outside : ¬ p <+: q)
      (behind : l.path = join k.path ("/".intercalate names))
      (noSlash : ∀ name ∈ names, '/' ∉ name.toList)
      (way : ".." ∈ names ∨ resolveFrom t.root false 0 p names = none)

theorem placeOf?_resourceBelow (hproper : t.root.Proper) (h : t.Meets l front back p names) :
    t.placeOf? l (resourceBelow l names) = some (p ++ names) := by
  obtain ⟨inner, hat, -⟩ := h.entry
  have hentry := hproper.entryName_of_at? hat
  have hslash : ∀ name ∈ names, '/' ∉ name.toList := fun name hname =>
    (hentry name (List.mem_append_right _ hname)).noSlash
  rw [placeOf?, h.leads]
  exact congrArg (fun names => some (p ++ names)) (pieces_intercalate h.below hslash)

/-- A link that the path of a directory and names behind it lead through to a directory is a link to
a directory. -/
theorem linksToDir_of_isDir (hproper : t.root.Proper) (hk : k.path ≠ "")
    (hleads : t.resolve? false k.path = some p) {target : String}
    (hat : t.root.at? (p ++ names) = some (.link target)) (hnames : names ≠ [])
    (hdir : t.isDir (join k.path ("/".intercalate names))) : t.LinksToDir (p ++ names) := by
  have hentry := hproper.entryName_of_at? hat
  have hslash : ∀ name ∈ names, '/' ∉ name.toList := fun name hname =>
    (hentry name (List.mem_append_right _ hname)).noSlash
  obtain ⟨es, hnode⟩ := isDir_iff.1 hdir
  obtain ⟨-, q, hq, hqat⟩ := node?_eq_some_iff.1 hnode
  obtain ⟨p', es', hp', hp'at, left, hleft, hrest⟩ :=
    exists_resolve?_of_join hk hnames hslash hq
  rw [hleads] at hp'
  cases hp'
  refine ⟨target, q, es, hat, resolveFrom_mono hleft ?_, hqat⟩
  -- the names of a directory lead there from the root
  obtain ⟨onLink, heq⟩ := exists_onLink t.root left
  rw [heq] at hrest ⊢
  rw [follow_of_at? hproper (Node.at?_nil _) hp'at nofun]
  exact hrest

/-- What a scan looks for below a directory, it looks for below one that this directory is in, a
link to a directory excepted. -/
theorem Meets.of_prefix (hproper : t.root.Proper) (h : t.Meets l front back (p ++ mid) names)
    (hk : k.isFilesystem) (hne : k.path ≠ "") (hleads : t.resolve? false k.path = some p) :
    t.Meets k front back p (mid ++ names) ∨ t.LinksToDir (p ++ mid ++ names) := by
  obtain ⟨inner, hat, htaken⟩ := h.entry
  have hbelow : mid ++ names ≠ [] := fun hnil => h.below (List.append_eq_nil_iff.1 hnil).2
  have hwanted : hasAffixes front back ((mid ++ names).getLastD "") := by
    rw [List.getLastD_eq_getLast?, List.getLast?_append_of_ne_nil _ h.below,
      ← List.getLastD_eq_getLast?]
    exact h.wanted
  have hmeets : t.TakenForFile (join k.path ("/".intercalate (mid ++ names))) inner →
      t.Meets k front back p (mid ++ names) := fun htaken =>
    ⟨hk, hne, hleads, hbelow, ⟨inner, by rwa [← List.append_assoc], htaken⟩, hwanted⟩
  cases inner with
  | file content => exact .inl (hmeets trivial)
  | dir es => exact absurd htaken id
  | link target =>
    by_cases hdir : t.isDir (join k.path ("/".intercalate (mid ++ names)))
    · rw [List.append_assoc] at hat ⊢
      exact .inr (linksToDir_of_isDir hproper hne hleads hat hbelow hdir)
    · exact .inl (hmeets hdir)

/-- An enclosed location leads to a directory in that of the enclosing one, or it strays from it. -/
theorem prefix_or_straysFrom (hk : k.isFilesystem) (hne : k.path ≠ "") (h : k.encloses l)
    (hleads : t.resolve? false l.path = some q) :
    ∃ p, t.resolve? false k.path = some p ∧ (p <+: q ∨ t.StraysFrom k l) := by
  obtain ⟨names, hnames, hslash, hpath⟩ := Location.exists_join_of_encloses hk h
  obtain ⟨p, es, hp, -, left, -, hrest⟩ :=
    exists_resolve?_of_join hne hnames hslash (hpath ▸ hleads)
  refine ⟨p, hp, ?_⟩
  by_cases hprefix : p <+: q
  · exact .inl hprefix
  refine .inr (.intro hp hleads hprefix hpath hslash ?_)
  by_contra hway
  rw [not_or, ← ne_eq, Option.ne_none_iff_exists'] at hway
  obtain ⟨hup, q', hq'⟩ := hway
  have heq := resolveFrom_mono (Nat.zero_le left) hq'
  rw [hrest] at heq
  cases heq
  exact hprefix (prefix_of_resolveFrom_zero hup hq')

/-- **Nested locations**: what a configured location reports is also reported by a root, unless the
location is discarded for a root that it strays from or whose scan fails at a path that is too long,
or the thing reported is no file but a link to a directory, which its path is too long or goes
through too many links to show. -/
theorem reports_root_or_strays (hproper : t.root.Proper) {descriptors : List String}
    (hls : Location.parseAll descriptors = .ok ls) (hl : l ∈ ls) {found : List Resource}
    (hfound : (t.scan l front back).result = .ok found) {r : Resource} (hr : r ∈ found) :
    ∃ entry, t.placeOf? l r = some entry ∧
      (isPath r.physicalLocation → t.entry? r.physicalLocation = some entry) ∧
      ((∃ k ∈ roots ls, t.Reports k front back entry) ∨
        (∃ k ∈ roots ls, k.encloses l ∧ (t.StraysFrom k l ∨
          ∃ e, k.Overlong e ∧ (t.scan k front back).result = .error e)) ∨
        t.LinksToDir entry) := by
  obtain ⟨q, names, hmeets, rfl⟩ := exists_meets_of_mem_scan hproper hfound hr
  have hplace := placeOf?_resourceBelow hproper hmeets
  refine ⟨q ++ names, hplace, hmeets.entry? hproper, ?_⟩
  obtain ⟨k, hk, rfl | hencloses⟩ := Location.exists_root hl
  · exact .inl ⟨k, hk, found, hfound, _, hr, hplace⟩
  have hkdisk : k.isFilesystem := by
    have hmedium := (Location.encloses_iff_text.1 hencloses).1
    rw [Location.isFilesystem, hmedium]
    exact hmeets.medium
  have hne : k.path ≠ "" :=
    (Location.made_of_parseAll hls k (Location.mem_roots_iff.1 hk).1).path_ne_empty hkdisk
  obtain ⟨p, hp, ⟨mid, rfl⟩ | hstrays⟩ := prefix_or_straysFrom hkdisk hne hencloses hmeets.leads
  · rcases hmeets.of_prefix hproper hkdisk hne hp with hmeets' | hlink
    · rcases hmeets'.result_scan hproper with herror | ⟨found', hfound', hr'⟩
      · exact .inr (.inl ⟨k, hk, hencloses, .inr herror⟩)
      · refine .inl ⟨k, hk, found', hfound', _, hr', ?_⟩
        rw [placeOf?_resourceBelow hproper hmeets', List.append_assoc]
    · exact .inr (.inr hlink)
  · exact .inr (.inl ⟨k, hk, hencloses, .inl hstrays⟩)

/-! ### Two trees -/

/-- In a directory that holds nothing but a file, a scan finds that file if it looks for it. -/
theorem result_scan_single (l : Location) (front back : String) {name : String}
    {content : List UInt8} (hl : l.isFilesystem) (hne : l.path ≠ "")
    (hleads : t.resolve? false l.path = some p)
    (hat : t.root.at? p = some (.dir [(name, .file content)])) :
    (t.scan l front back).result =
      .ok (if hasAffixes front back name then [.ofFile name (join l.path name)] else []) := by
  have hdir := node?_eq_some_iff.2 ⟨hne, p, hleads, hat⟩
  rw [result_scan_of_node? hl hdir, search_dir, if_pos (isPath_of_node? hdir),
    List.flatMap_singleton, search_file, join_empty]
  split
  · rw [ofFindings_of_listed (by simp)]
    simp [Finding.resource?]
  · rw [ofFindings_of_listed (by simp)]
    simp

/-- A directory with a script and a directory in it, and a link to it. -/
def nestedTree : FileTree where
  root := .dir
    [("a", .dir [("V1__x.sql", .file []), ("b", .dir [("V2__y.sql", .file [])])]),
      ("c", .link "a")]

theorem reports_root_or_strays_nestedTree :
    ∃ entry, nestedTree.placeOf? ⟨.filesystem, "a/b/../b"⟩
        (.ofFile "V2__y.sql" "a/b/../b/V2__y.sql") = some entry ∧
      (isPath "a/b/../b/V2__y.sql" → nestedTree.entry? "a/b/../b/V2__y.sql" = some entry) ∧
      ((∃ k ∈ roots [⟨.filesystem, "a"⟩, ⟨.filesystem, "a/b/../b"⟩],
          nestedTree.Reports k "V" ".sql" entry) ∨
        (∃ k ∈ roots [⟨.filesystem, "a"⟩, ⟨.filesystem, "a/b/../b"⟩],
          k.encloses ⟨.filesystem, "a/b/../b"⟩ ∧
            (nestedTree.StraysFrom k ⟨.filesystem, "a/b/../b"⟩ ∨
              ∃ e, k.Overlong e ∧ (nestedTree.scan k "V" ".sql").result = .error e)) ∨
        nestedTree.LinksToDir entry) := by
  have hproper : nestedTree.root.Proper := by
    refine .dir (by decide) (by decide) (List.forall_mem_cons.2
      ⟨.dir (by decide) (by decide) (List.forall_mem_cons.2
        ⟨.file [], List.forall_mem_singleton.2 ?_⟩), List.forall_mem_singleton.2 (.link "a")⟩)
    exact .dir (by decide) (by decide) (List.forall_mem_singleton.2 (.file []))
  have hls : Location.parseAll ["filesystem:a", "a/b/../b/"] =
      .ok [⟨.filesystem, "a"⟩, ⟨.filesystem, "a/b/../b"⟩] := by decide
  have hleads : nestedTree.resolve? false "a/b/../b" = some ["a", "b"] :=
    resolve?_eq_some_iff.2 ⟨isPath_iff.2 (by decide), by decide⟩
  have hfound := result_scan_single ⟨.filesystem, "a/b/../b"⟩ "V" ".sql" rfl (by decide) hleads
    rfl
  exact reports_root_or_strays hproper hls (by simp) hfound (List.mem_singleton.2 (by decide))

/-- Two directories beside each other, with a script in each. -/
def adjacentTree : FileTree where
  root := .dir
    [("a", .dir [("V2__y.sql", .file [])]), ("b", .dir [("V1__x.sql", .file [])])]

/-- A location that goes up behind the path of another one is discarded for it, and what it reports
is lost. -/
theorem not_reports_root_adjacentTree :
    ¬ ∀ (t : FileTree) (descriptors : List String) (ls : List Location) (front back : String),
      t.root.Proper → Location.parseAll descriptors = .ok ls →
      (∀ l ∈ ls, l.isFilesystem ∧ ¬ Text.startsWith ['/'] l.path.toList) →
      ∀ l ∈ ls, ∀ entry, t.Reports l front back entry →
        ∃ k ∈ roots ls, t.Reports k front back entry := by
  intro hall
  have hproper : adjacentTree.root.Proper := by
    refine .dir (by decide) (by decide) (List.forall_mem_cons.2
      ⟨?_, List.forall_mem_singleton.2 ?_⟩) <;>
    exact .dir (by decide) (by decide) (List.forall_mem_singleton.2 (.file []))
  have hls : Location.parseAll ["filesystem:a", "filesystem:a/../b"] =
      .ok [⟨.filesystem, "a"⟩, ⟨.filesystem, "a/../b"⟩] := by decide
  have hleads : adjacentTree.resolve? false "a/../b" = some ["b"] :=
    resolve?_eq_some_iff.2 ⟨isPath_iff.2 (by decide), by decide⟩
  have hrootLeads : adjacentTree.resolve? false "a" = some ["a"] :=
    resolve?_eq_some_iff.2 ⟨isPath_iff.2 (by decide), by decide⟩
  have hfound := result_scan_single ⟨.filesystem, "a/../b"⟩ "V" ".sql" rfl (by decide) hleads rfl
  have hroot := result_scan_single ⟨.filesystem, "a"⟩ "V" ".sql" rfl (by decide) hrootLeads rfl
  obtain ⟨k, hk, found, hkfound, r, hr, hplace⟩ := hall adjacentTree _ _ "V" ".sql" hproper hls
    (by decide) ⟨.filesystem, "a/../b"⟩ (by simp) ["b", "V1__x.sql"]
    ⟨_, hfound, _, List.mem_singleton.2 rfl, by rw [placeOf?, hleads]; decide⟩
  have hroots : roots [⟨.filesystem, "a"⟩, ⟨.filesystem, "a/../b"⟩] = [⟨.filesystem, "a"⟩] := by
    decide
  rw [hroots, List.mem_singleton] at hk
  rw [hk, hroot] at hkfound
  cases hkfound
  replace hr := List.mem_singleton.1 hr
  rw [hk, hr, placeOf?, hrootLeads] at hplace
  exact absurd hplace (by decide)

end FileTree

end SchemaPlan
