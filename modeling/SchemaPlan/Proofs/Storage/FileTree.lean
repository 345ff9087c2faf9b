import Mathlib.Data.List.Nodup
import SchemaPlan.Proofs.Text.Search
import SchemaPlan.Storage.FileTree

/-!
# Paths below a directory

What is below a directory has the path of the directory with the names on the way added. As the way
to a node of a tree meets no links, these names are followed one by one (`follow_of_at?`), and
whatever links there are in the path of the directory itself, they are followed as before
(`resolveFrom_append`). So a path leads to what is at its names below the directory, unless that is
a link (`node?_join`), as long as it is not longer than a path may be.
-/

namespace SchemaPlan

/-! ### Proper trees -/

/-- A name that an entry of a directory can have. -/
@[mk_iff]
structure IsEntryName (name : String) : Prop where
  nonempty : name ≠ ""
  notSelf : name ≠ "."
  notParent : name ≠ ".."
  noSlash : '/' ∉ name.toList
  noNul : '\x00' ∉ name.toList

instance (name : String) : Decidable (IsEntryName name) :=
  decidable_of_iff _ (isEntryName_iff name).symm

namespace Node

/-- A node in which the entries of each directory have different names. -/
inductive Proper : Node → Prop where
  /-- A file. -/
  | file (content : List UInt8) : Proper (.file content)
  /-- A link. -/
  | link (target : String) : Proper (.link target)
  /-- A directory. -/
  | dir {es : List (String × Node)} (distinct : (es.map Prod.fst).Nodup)
      (names : ∀ e ∈ es, IsEntryName e.1) (inner : ∀ e ∈ es, Proper e.2) : Proper (.dir es)

/-- A file, or a directory in which the entries have different names and there are no links. -/
inductive Plain : Node → Prop where
  /-- A file. -/
  | file (content : List UInt8) : Plain (.file content)
  /-- A directory. -/
  | dir {es : List (String × Node)} (distinct : (es.map Prod.fst).Nodup)
      (names : ∀ e ∈ es, IsEntryName e.1) (inner : ∀ e ∈ es, Plain e.2) : Plain (.dir es)

variable {node inner : Node} {es : List (String × Node)} {name : String} {names : List String}

@[simp] theorem at?_nil (node : Node) : node.at? [] = some node := by
  cases node <;> rfl

@[simp] theorem at?_dir_cons (es : List (String × Node)) (name : String) (names : List String) :
    (dir es).at? (name :: names) = (es.lookup name).bind fun inner => inner.at? names := rfl

theorem at?_append (node : Node) (front back : List String) :
    node.at? (front ++ back) = (node.at? front).bind fun inner => inner.at? back := by
  induction front generalizing node with
  | nil => rw [List.nil_append, at?_nil, Option.bind_some]
  | cons name front ih =>
    cases node with
    | dir es =>
      rw [List.cons_append, at?_dir_cons, at?_dir_cons]
      cases es.lookup name with
      | none => rfl
      | some inner => exact ih inner
    | file content => rfl
    | link target => rfl

/-- Below a directory, names begin with that of an entry. -/
theorem exists_of_at?_cons (h : node.at? (name :: names) = some inner) :
    ∃ es next, node = dir es ∧ es.lookup name = some next ∧ next.at? names = some inner := by
  cases node with
  | dir es =>
    rw [at?_dir_cons, Option.bind_eq_some_iff] at h
    obtain ⟨next, hnext, h⟩ := h
    exact ⟨es, next, rfl, hnext, h⟩
  | file content => cases h
  | link target => cases h

theorem Plain.proper (h : node.Plain) : node.Proper := by
  induction h with
  | file content => exact .file content
  | dir hdistinct hnames _ ih => exact .dir hdistinct hnames ih

theorem Plain.not_link (h : node.Plain) (target : String) : node ≠ .link target := by
  rintro rfl
  cases h

theorem Proper.entryName (h : (Node.dir es).Proper) (hname : es.lookup name = some inner) :
    IsEntryName name := by
  cases h with
  | dir _ hnames _ => exact hnames _ (Assoc.mem_of_lookup hname)

theorem Proper.of_lookup (h : (Node.dir es).Proper) (hname : es.lookup name = some inner) :
    inner.Proper := by
  cases h with
  | dir _ _ hinner => exact hinner _ (Assoc.mem_of_lookup hname)

theorem Plain.of_lookup (h : (Node.dir es).Plain) (hname : es.lookup name = some inner) :
    inner.Plain := by
  cases h with
  | dir _ _ hinner => exact hinner _ (Assoc.mem_of_lookup hname)

theorem Proper.of_at? (h : node.Proper) (hnames : node.at? names = some inner) :
    inner.Proper := by
  induction names generalizing node with
  | nil =>
    rw [at?_nil] at hnames
    cases hnames
    exact h
  | cons name names ih =>
    obtain ⟨es, next, rfl, hname, hnames⟩ := exists_of_at?_cons hnames
    exact ih (h.of_lookup hname) hnames

theorem Plain.of_at? (h : node.Plain) (hnames : node.at? names = some inner) : inner.Plain := by
  induction names generalizing node with
  | nil =>
    rw [at?_nil] at hnames
    cases hnames
    exact h
  | cons name names ih =>
    obtain ⟨es, next, rfl, hname, hnames⟩ := exists_of_at?_cons hnames
    exact ih (h.of_lookup hname) hnames

theorem Proper.entryName_of_at? (h : node.Proper) (hnames : node.at? names = some inner) :
    ∀ name ∈ names, IsEntryName name := by
  induction names generalizing node with
  | nil => exact List.forall_mem_nil _
  | cons name names ih =>
    obtain ⟨es, next, rfl, hname, hnames⟩ := exists_of_at?_cons hnames
    exact List.forall_mem_cons.2 ⟨h.entryName hname, ih (h.of_lookup hname) hnames⟩

end Node

namespace FileTree

/-! ### Following names -/

variable {root node : Node} {onLink : List String → List String → Option (List String)}
  {place q q' : List String} {names zs ws : List String}

/-- What one name does is the same whatever names come after it: it leads nowhere, or on to another
place, which is not above the first one unless the name goes up, or to a link. -/
theorem follow_cons (root : Node) (place : List String) (name : String) :
    (∀ onLink names, follow root false onLink place (name :: names) = none) ∨
      (∃ next, (name = ".." ∨ place <+: next) ∧ ∀ onLink names,
        follow root false onLink place (name :: names) = follow root false onLink next names) ∨
      ∃ start target, ∀ onLink names,
        follow root false onLink place (name :: names) = onLink start (target ++ names) := by
  cases hplace : root.at? place with
  | none => exact .inl fun onLink names => by simp only [follow, hplace]
  | some here =>
    cases here with
    | file content => exact .inl fun onLink names => by simp only [follow, hplace]
    | link target => exact .inl fun onLink names => by simp only [follow, hplace]
    | dir es =>
      by_cases hself : name = "" ∨ name = "."
      · exact .inr (.inl ⟨place, .inr List.prefix_rfl, fun onLink names => by
          simp only [follow, hplace, if_pos hself]⟩)
      by_cases hparent : name = ".."
      · exact .inr (.inl ⟨place.dropLast, .inl hparent, fun onLink names => by
          simp only [follow, hplace, if_neg hself, if_pos hparent]⟩)
      cases hname : es.lookup name with
      | none =>
        refine .inl fun onLink names => ?_
        simp only [follow, hplace, if_neg hself, if_neg hparent, hname]
        rfl
      | some next =>
        cases next with
        | link target =>
          exact .inr (.inr ⟨if (splitPath target).1 then [] else place, (splitPath target).2,
            fun onLink names => by
              simp only [follow, hplace, if_neg hself, if_neg hparent, hname]⟩)
        | file content =>
          exact .inr (.inl ⟨place ++ [name], .inr (List.prefix_append _ _),
            fun onLink names => by
              simp only [follow, hplace, if_neg hself, if_neg hparent, hname]⟩)
        | dir inner =>
          exact .inr (.inl ⟨place ++ [name], .inr (List.prefix_append _ _),
            fun onLink names => by
              simp only [follow, hplace, if_neg hself, if_neg hparent, hname]⟩)

/-- The end of some names may be exchanged for another one that leads on from wherever the first
one does, if links allow for it. -/
theorem follow_append {o : Option (List String)}
    (hend : ∀ place, follow root false onLink place zs = some q →
      follow root false onLink place ws = o)
    (hlink : ∀ place names, onLink place (names ++ zs) = some q → onLink place (names ++ ws) = o)
    (h : follow root false onLink place (names ++ zs) = some q) :
    follow root false onLink place (names ++ ws) = o := by
  induction names generalizing place with
  | nil => exact hend place h
  | cons name names ih =>
    rw [List.cons_append] at h ⊢
    rcases follow_cons root place name with hstep | ⟨next, -, hstep⟩ | ⟨start, target, hstep⟩
    · rw [hstep] at h
      cases h
    · rw [hstep] at h ⊢
      exact ih h
    · rw [hstep, ← List.append_assoc] at h ⊢
      exact hlink start _ h

/-- However many links may be followed, the end of some names may be exchanged for another one that
leads on from wherever the first one does. -/
theorem resolveFrom_append {o : Option (List String)}
    (hend : ∀ onLink place, follow root false onLink place zs = some q →
      follow root false onLink place ws = o) (links : Nat)
    (h : resolveFrom root false links place (names ++ zs) = some q) :
    resolveFrom root false links place (names ++ ws) = o := by
  induction links generalizing place names with
  | zero => exact follow_append (hend _) (fun _ _ h => nomatch h) h
  | succ links ih => exact follow_append (hend _) (fun _ _ h => ih h) h

theorem eq_of_follow_idle {idle : List String} (hidle : idle = [] ∨ idle = [""])
    (h : follow root false onLink place idle = some q) : place = q := by
  rcases hidle with rfl | rfl
  · exact Option.some.inj h
  · simp only [follow] at h
    split at h
    · exact Option.some.inj h
    · cases h

/-- An idle end of some names may be exchanged for names that lead on from where they lead. -/
theorem resolveFrom_of_idle {idle : List String} {o : Option (List String)} {links : Nat}
    (hidle : idle = [] ∨ idle = [""]) (hend : ∀ onLink, follow root false onLink q ws = o)
    (h : resolveFrom root false links place (names ++ idle) = some q) :
    resolveFrom root false links place (names ++ ws) = o := by
  refine resolveFrom_append (fun onLink start hstart => ?_) links h
  rw [eq_of_follow_idle hidle hstart]
  exact hend onLink

/-- The name of an entry that is no link leads to that entry. -/
theorem follow_of_lookup {es : List (String × Node)} {name : String} {inner : Node}
    (hplace : root.at? place = some (.dir es)) (hname : IsEntryName name)
    (hlookup : es.lookup name = some inner) (hlink : ∀ target, inner ≠ .link target) :
    follow root false onLink place (name :: names) =
      follow root false onLink (place ++ [name]) names := by
  have hself : ¬ (name = "" ∨ name = ".") := not_or.2 ⟨hname.nonempty, hname.notSelf⟩
  cases inner with
  | file content => simp only [follow, hplace, if_neg hself, if_neg hname.notParent, hlookup]
  | dir inner => simp only [follow, hplace, if_neg hself, if_neg hname.notParent, hlookup]
  | link target => exact absurd rfl (hlink target)

/-- The names of a node that is no link lead there, entry by entry. -/
theorem follow_of_at? (hproper : node.Proper) (hplace : root.at? place = some node)
    {inner : Node} (h : node.at? names = some inner) (hlink : ∀ target, inner ≠ .link target)
    (rest : List String) :
    follow root false onLink place (names ++ rest) =
      follow root false onLink (place ++ names) rest := by
  induction names generalizing node place with
  | nil => rw [List.nil_append, List.append_nil]
  | cons name names ih =>
    obtain ⟨es, next, rfl, hname, hnames⟩ := Node.exists_of_at?_cons h
    have hat : root.at? (place ++ [name]) = some next := by
      rw [Node.at?_append, hplace, Option.bind_some, Node.at?_dir_cons, hname, Option.bind_some,
        Node.at?_nil]
    -- behind a link there would be no further names
    have hnext : ∀ target, next ≠ .link target := by
      rintro target rfl
      cases names with
      | nil => exact hlink target (Option.some.inj hnames).symm
      | cons second names => cases hnames
    rw [List.cons_append, follow_of_lookup hplace (hproper.entryName hname) hname hnext,
      ih (hproper.of_lookup hname) hat hnames, List.append_assoc, List.singleton_append]

/-! ### Paths of names -/

/-- The names between the slashes of a path. -/
def pieces (path : List Char) : List String := (path.splitOnP (· == '/')).map String.ofList

theorem pieces_ne_nil (path : List Char) : pieces path ≠ [] :=
  fun h => List.splitOnP_ne_nil _ _ (List.map_eq_nil_iff.1 h)

theorem pieces_append_cons (front back : List Char) :
    pieces (front ++ '/' :: back) = pieces front ++ pieces back := by
  rw [pieces, List.splitOnP_append_cons front back (by decide), List.map_append, pieces, pieces]

theorem pieces_intercalate (hnames : names ≠ []) (hslash : ∀ name ∈ names, '/' ∉ name.toList) :
    pieces ("/".intercalate names).toList = names := by
  rw [String.toList_intercalate]
  show ((['/'].intercalate (names.map String.toList)).splitOn '/').map String.ofList = names
  rw [List.splitOn_intercalate '/' (by simpa using hslash) (by simpa using hnames), List.map_map]
  refine (List.map_congr_left fun name _ => ?_).trans (List.map_id names)
  exact String.ofList_toList

theorem slash_not_mem_pieces {s : List Char} : ∀ name ∈ pieces s, '/' ∉ name.toList := by
  intro name hname hslash
  obtain ⟨piece, hpiece, rfl⟩ := List.mem_map.1 hname
  rw [String.toList_ofList] at hslash
  exact absurd (Text.not_of_mem_splitOnP hpiece hslash) (by decide)

theorem intercalate_pieces (s : List Char) : "/".intercalate (pieces s) = String.ofList s := by
  rw [← String.toList_inj, String.toList_intercalate, pieces, List.map_map]
  have hpieces : (s.splitOnP (· == '/')).map (String.toList ∘ String.ofList) = s.splitOn '/' :=
    (List.map_congr_left fun _ _ => String.toList_ofList).trans (List.map_id' _)
  rw [hpieces, String.toList_ofList (l := s)]
  exact List.intercalate_splitOn '/'

/-- A path tells the names that it is made of. -/
theorem intercalate_inj {other : List String} (hnames : names ≠ []) (hother : other ≠ [])
    (hslash : ∀ name ∈ names, '/' ∉ name.toList) (hslash' : ∀ name ∈ other, '/' ∉ name.toList)
    (h : "/".intercalate names = "/".intercalate other) : names = other := by
  rw [← pieces_intercalate hnames hslash, h, pieces_intercalate hother hslash']

theorem pieces_ne_singleton {path : String} (h : path ≠ "") : pieces path.toList ≠ [""] := by
  intro hpieces
  have hsplit : path.toList.splitOn '/' = [[]] :=
    List.map_injective_iff.2 (fun _ _ => String.ofList_injective) hpieces
  refine h (String.toList_injective ?_)
  have hjoin : ['/'].intercalate (path.toList.splitOn '/') = path.toList :=
    List.intercalate_splitOn '/'
  rw [← hjoin, hsplit, List.intercalate_singleton]
  rfl

theorem splitPath_eq {path first : String} {rest : List String} (hpath : path ≠ "")
    (h : pieces path.toList = first :: rest) :
    splitPath path = if first = "" then (true, rest) else (false, first :: rest) := by
  have hne := pieces_ne_singleton hpath
  rw [h] at hne
  unfold pieces at h
  unfold splitPath
  rw [h]
  by_cases hfirst : first = ""
  · subst hfirst
    cases rest with
    | nil => exact absurd rfl hne
    | cons second rest => rfl
  · rw [if_neg hfirst]
    dsimp only
    split
    · next heq => exact absurd (List.cons.inj heq).1 hfirst
    · rfl

theorem endsWith_slash_iff {path : String} :
    Text.endsWith ['/'] path.toList ↔ ∃ front, path.toList = front ++ ['/'] := by
  rw [Text.endsWith_iff]
  exact ⟨fun ⟨front, h⟩ => ⟨front, h.symm⟩, fun ⟨front, h⟩ => ⟨front, h.symm⟩⟩

/-- A path with names added has their pieces in place of an empty one at its end. -/
theorem pieces_join {path : String} (hpath : path ≠ "") (hnames : names ≠ [])
    (hslash : ∀ name ∈ names, '/' ∉ name.toList) :
    ∃ front idle, (idle = [] ∨ idle = [""]) ∧ pieces path.toList = pieces front ++ idle ∧
      pieces (join path ("/".intercalate names)).toList = pieces front ++ names := by
  by_cases hslashed : Text.endsWith ['/'] path.toList
  · obtain ⟨front, hfront⟩ := endsWith_slash_iff.1 hslashed
    refine ⟨front, [""], .inr rfl, by rw [hfront, pieces_append_cons]; rfl, ?_⟩
    rw [join, if_pos (.inr hslashed), String.toList_append, hfront, List.append_assoc,
      List.singleton_append, pieces_append_cons, pieces_intercalate hnames hslash]
  · refine ⟨path.toList, [], .inl rfl, (List.append_nil _).symm, ?_⟩
    rw [join, if_neg (not_or.2 ⟨hpath, hslashed⟩), String.toList_append, String.toList_append,
      List.append_assoc]
    refine (pieces_append_cons path.toList ("/".intercalate names).toList).trans ?_
    rw [pieces_intercalate hnames hslash]

/-- A name is added behind a path and perhaps a slash. -/
theorem exists_join_eq (path : String) :
    ∃ slash, (slash = "" ∨ slash = "/") ∧ ∀ name, join path name = path ++ slash ++ name := by
  by_cases h : path = "" ∨ Text.endsWith ['/'] path.toList
  · exact ⟨"", .inl rfl, fun name => by rw [join, if_pos h, String.append_empty]⟩
  · exact ⟨"/", .inr rfl, fun name => by rw [join, if_neg h]⟩

theorem join_ne_empty {path : String} (hpath : path ≠ "") (name : String) :
    join path name ≠ "" := by
  obtain ⟨slash, -, hjoin⟩ := exists_join_eq path
  simp [hjoin, hpath]

theorem isPrefix_join (path name : String) : path.toList <+: (join path name).toList := by
  obtain ⟨slash, -, hjoin⟩ := exists_join_eq path
  rw [hjoin, String.toList_append, String.toList_append, List.append_assoc]
  exact List.prefix_append _ _

/-- Names added to a path are the last of its names, in place of an empty one at its end. -/
theorem splitPath_join {path : String} (hpath : path ≠ "") (hnames : names ≠ [])
    (hslash : ∀ name ∈ names, '/' ∉ name.toList) :
    ∃ absolute front idle, (idle = [] ∨ idle = [""]) ∧
      splitPath path = (absolute, front ++ idle) ∧
      splitPath (join path ("/".intercalate names)) = (absolute, front ++ names) := by
  obtain ⟨front, idle, hidle, hpieces, hjoin⟩ := pieces_join hpath hnames hslash
  obtain ⟨first, rest, hfront⟩ := List.exists_cons_of_ne_nil (pieces_ne_nil front)
  rw [hfront, List.cons_append] at hpieces hjoin
  rw [splitPath_eq hpath hpieces, splitPath_eq (join_ne_empty hpath _) hjoin]
  by_cases hfirst : first = ""
  · rw [if_pos hfirst, if_pos hfirst]
    exact ⟨true, rest, idle, hidle, rfl, rfl⟩
  · rw [if_neg hfirst, if_neg hfirst]
    exact ⟨false, first :: rest, idle, hidle, rfl, rfl⟩

theorem join_join {name : String} (hname : IsEntryName name) (path rest : String) :
    join (join path name) rest = join path (name ++ "/" ++ rest) := by
  obtain ⟨slash, -, hjoin⟩ := exists_join_eq path
  have hunslashed : ¬ Text.endsWith ['/'] (path ++ slash ++ name).toList := by
    intro hslashed
    obtain ⟨front, hfront⟩ := endsWith_slash_iff.1 hslashed
    have hne : name.toList ≠ [] := by simpa using hname.nonempty
    have hlast := congrArg List.getLast? hfront
    rw [String.toList_append, List.getLast?_append_of_ne_nil _ hne, List.getLast?_concat] at hlast
    exact hname.noSlash (List.mem_of_getLast? hlast)
  have hne : path ++ slash ++ name ≠ "" := by simp [hname.nonempty]
  rw [hjoin, hjoin, join, if_neg (not_or.2 ⟨hne, hunslashed⟩)]
  simp only [String.append_assoc]

/-- Names added one by one are added all together, with slashes between them. -/
theorem foldl_join (path : String) (hnames : names ≠ [])
    (hentry : ∀ name ∈ names, IsEntryName name) :
    names.foldl join path = join path ("/".intercalate names) := by
  induction names generalizing path with
  | nil => exact absurd rfl hnames
  | cons name names ih =>
    obtain ⟨hname, hentry⟩ := List.forall_mem_cons.1 hentry
    cases names with
    | nil => rw [List.foldl_cons, List.foldl_nil, String.intercalate_singleton]
    | cons next names =>
      rw [List.foldl_cons, ih _ (List.cons_ne_nil _ _) hentry, join_join hname,
        String.intercalate_cons_cons]

theorem join_empty (name : String) : join "" name = name := by
  rw [join, if_pos (.inl rfl), String.empty_append]

theorem splitLast_append {path name : String} {front : List Char}
    (h : path.toList = front ++ '/' :: name.toList) (hname : '/' ∉ name.toList) :
    splitLast path = (String.ofList (front ++ ['/']), name) := by
  have htake : (path.toList.reverse.takeWhile (· ≠ '/')).reverse = name.toList := by
    have hreverse : path.toList.reverse = name.toList.reverse ++ '/' :: front.reverse := by
      simp [h]
    have hpos : ∀ c ∈ name.toList.reverse, decide (c ≠ '/') = true := by
      rintro c hc
      refine decide_eq_true ?_
      rintro rfl
      exact hname (List.mem_reverse.1 hc)
    rw [hreverse, List.takeWhile_append_of_pos hpos, List.takeWhile_cons_of_neg (by simp),
      List.append_nil, List.reverse_reverse]
  have hfront : path.toList.take (path.toList.length - name.toList.length) = front ++ ['/'] := by
    have hsplit : path.toList = (front ++ ['/']) ++ name.toList := by rw [h]; simp
    rw [hsplit, List.length_append, Nat.add_sub_cancel, List.take_left]
  rw [splitLast, htake, hfront, String.ofList_toList]

/-- A name that is added to a path is its last one, and what stands before it is the path with a
slash. -/
theorem splitLast_join {path name : String} (hpath : path ≠ "") (hname : '/' ∉ name.toList) :
    splitLast (join path name) = (join path "", name) := by
  by_cases hslashed : Text.endsWith ['/'] path.toList
  · obtain ⟨front, hfront⟩ := endsWith_slash_iff.1 hslashed
    have hjoin : ∀ name, join path name = path ++ name := fun name =>
      if_pos (.inr hslashed)
    have hlist : (join path name).toList = front ++ '/' :: name.toList := by simp [hjoin, hfront]
    rw [splitLast_append hlist hname, ← hfront, hjoin, String.ofList_toList, String.append_empty]
  · have hjoin : ∀ name, join path name = path ++ "/" ++ name := fun name =>
      if_neg (not_or.2 ⟨hpath, hslashed⟩)
    have hlist : (join path name).toList = path.toList ++ '/' :: name.toList := by simp [hjoin]
    rw [splitLast_append hlist hname, hjoin]
    simp

/-! ### What paths lead to -/

theorem isPath_iff {path : String} :
    isPath path ↔ path.utf8ByteSize ≤ maxPathSize ∧ '\x00' ∉ path.toList := by
  simp [isPath, String.contains_char_eq]

theorem nul_not_mem_intercalate (h : ∀ name ∈ names, '\x00' ∉ name.toList) :
    '\x00' ∉ ("/".intercalate names).toList := by
  rw [String.toList_intercalate]
  intro hnul
  rcases Text.mem_of_mem_intercalate hnul with hslash | ⟨_, hpiece, hnul⟩
  · exact absurd hslash (by decide)
  · obtain ⟨name, hname, rfl⟩ := List.mem_map.1 hpiece
    exact h name hname hnul

theorem nul_not_mem_join {path name : String} (hpath : '\x00' ∉ path.toList)
    (hname : '\x00' ∉ name.toList) : '\x00' ∉ (join path name).toList := by
  obtain ⟨slash, rfl | rfl, hjoin⟩ := exists_join_eq path <;> simp [hjoin, hpath, hname]

variable {t : FileTree} {path : String} {es : List (String × Node)} {inner : Node}

theorem resolve?_eq_some_iff {place : List String} :
    t.resolve? false path = some place ↔
      isPath path ∧ resolveFrom t.root false maxLinks
        (if (splitPath path).1 then [] else t.workingDirectory) (splitPath path).2 = some place := by
  unfold resolve?
  cases isPath path <;> simp

theorem node?_eq_some_iff :
    t.node? path = some inner ↔
      path ≠ "" ∧ ∃ place, t.resolve? false path = some place ∧ t.root.at? place = some inner := by
  unfold node?
  by_cases hpath : path = ""
  · simp [hpath]
  · rw [if_neg hpath, Option.bind_eq_some_iff, and_iff_right hpath]

theorem isDir_iff : t.isDir path ↔ ∃ es, t.node? path = some (.dir es) := by
  unfold isDir
  split
  · next es hes => exact iff_of_true rfl ⟨es, hes⟩
  · next hno => exact iff_of_false Bool.false_ne_true fun ⟨es, hes⟩ => hno es hes

theorem isPath_of_node? (h : t.node? path = some inner) : isPath path := by
  obtain ⟨-, place, hplace, -⟩ := node?_eq_some_iff.1 h
  exact (resolve?_eq_some_iff.1 hplace).1

/-- A path that is too long leads nowhere. -/
theorem node?_of_size (h : maxPathSize < path.utf8ByteSize) : t.node? path = none := by
  refine Option.eq_none_iff_forall_ne_some.2 fun inner hinner => ?_
  exact Nat.not_le_of_lt h (isPath_iff.1 (isPath_of_node? hinner)).1

theorem follow_idle_of_dir {place : List String} {idle : List String}
    (hidle : idle = [] ∨ idle = [""]) (hat : t.root.at? place = some (.dir es))
    (onLink : List String → List String → Option (List String)) :
    follow t.root false onLink place idle = some place := by
  rcases hidle with rfl | rfl
  · rw [follow]
  · simp only [follow, hat, true_or, if_true]

/-- The path of a directory leads there with a slash behind it, too. -/
theorem resolve?_join_empty {place : List String} (hplace : t.resolve? false path = some place)
    (hat : t.root.at? place = some (.dir es)) (hne : path ≠ "") (hpath : isPath (join path "")) :
    t.resolve? false (join path "") = some place := by
  obtain ⟨absolute, front, idle, hidle, hsplit, hsplit'⟩ :=
    splitPath_join hne (List.cons_ne_nil "" []) (by simp)
  rw [String.intercalate_singleton] at hsplit'
  obtain ⟨-, hplace⟩ := resolve?_eq_some_iff.1 hplace
  refine resolve?_eq_some_iff.2 ⟨hpath, ?_⟩
  rw [hsplit] at hplace
  rw [hsplit']
  exact resolveFrom_of_idle hidle (follow_idle_of_dir (.inr rfl) hat) hplace

/-- Below a directory, a path leads to the node at its names, unless that is a link. -/
theorem resolve?_join {place : List String} (hplace : t.resolve? false path = some place)
    (hat : t.root.at? place = some (.dir es)) (hproper : (Node.dir es).Proper) (hne : path ≠ "")
    (hnames : names ≠ []) (h : (Node.dir es).at? names = some inner)
    (hlink : ∀ target, inner ≠ .link target)
    (hsize : (join path ("/".intercalate names)).utf8ByteSize ≤ maxPathSize) :
    t.resolve? false (join path ("/".intercalate names)) = some (place ++ names) := by
  have hentry := hproper.entryName_of_at? h
  have hslash : ∀ name ∈ names, '/' ∉ name.toList := fun name hname => (hentry name hname).noSlash
  obtain ⟨absolute, front, idle, hidle, hsplit, hsplit'⟩ := splitPath_join hne hnames hslash
  obtain ⟨hpath, hplace⟩ := resolve?_eq_some_iff.1 hplace
  rw [hsplit] at hplace
  have hend : ∀ onLink, follow t.root false onLink place names = some (place ++ names) := by
    intro onLink
    rw [← List.append_nil names, follow_of_at? hproper hat h hlink [], List.append_nil, follow]
  have hjoin : isPath (join path ("/".intercalate names)) :=
    isPath_iff.2 ⟨hsize, nul_not_mem_join (isPath_iff.1 hpath).2
      (nul_not_mem_intercalate fun name hname => (hentry name hname).noNul)⟩
  refine resolve?_eq_some_iff.2 ⟨hjoin, ?_⟩
  rw [hsplit']
  exact resolveFrom_of_idle hidle hend hplace

theorem node?_join (hdir : t.node? path = some (.dir es)) (hproper : (Node.dir es).Proper)
    (hnames : names ≠ []) (h : (Node.dir es).at? names = some inner)
    (hlink : ∀ target, inner ≠ .link target)
    (hsize : (join path ("/".intercalate names)).utf8ByteSize ≤ maxPathSize) :
    t.node? (join path ("/".intercalate names)) = some inner := by
  obtain ⟨hne, place, hplace, hat⟩ := node?_eq_some_iff.1 hdir
  refine node?_eq_some_iff.2 ⟨join_ne_empty hne _, place ++ names,
    resolve?_join hplace hat hproper hne hnames h hlink hsize, ?_⟩
  rw [Node.at?_append, hat, Option.bind_some, h]

end FileTree

end SchemaPlan
