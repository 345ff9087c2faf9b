import SchemaPlan.Assoc
import SchemaPlan.Environment
import SchemaPlan.Proofs.Text.Replacing

/-!
# What expanding references does

A text is taken apart, in one way only, into references and the characters between them, so that no
reference begins at one of these characters (`Factors.existsUnique`). The names of the references
are those that the search finds (`references_fill`).

They are replaced one after the other, each of them everywhere in the text as it is by then. This
leaves what replacing them all at once does, as long as a reference that is about to be replaced
stands nowhere else, in a value or across the end of one (`Strays`). Where it does, it is replaced
there, too (`expandOne_fill_iff`). So the text is in step with the replacement of all references at
once exactly if none of them strays (`expand_in_step`).
-/

namespace SchemaPlan.Environment

variable {env : Environment} {name name' s : List Char} {done : List (List Char)}

/-! ### One reference -/

/-- What can be the name of a variable: letters, digits and underscores, but no digit at the front.
-/
structure IsIdentifier (name : List Char) : Prop where
  first : ∃ c rest, name = c :: rest ∧ (c.isAlpha ∨ c = '_')
  all : ∀ c ∈ name, c.isAlphanum ∨ c = '_'

theorem isNameRest_iff {c : Char} : isNameRest c ↔ c.isAlphanum ∨ c = '_' := by
  simp [isNameRest]

theorem isNameStart_iff {c : Char} : isNameStart c ↔ c.isAlpha ∨ c = '_' := by
  simp [isNameStart]

theorem isNameRest_of_isNameStart {c : Char} (h : isNameStart c) : isNameRest c := by
  rw [isNameStart_iff] at h
  rw [isNameRest_iff, Char.isAlphanum, Bool.or_eq_true]
  exact h.imp_left .inl

theorem isIdentifier_cons_iff {c : Char} {rest : List Char} :
    IsIdentifier (c :: rest) ↔ isNameStart c ∧ ∀ d ∈ rest, isNameRest d := by
  simp only [isNameStart_iff, isNameRest_iff]
  constructor
  · rintro ⟨⟨_, _, heq, hc⟩, hall⟩
    cases heq
    exact ⟨hc, (List.forall_mem_cons.1 hall).2⟩
  · rintro ⟨hc, hrest⟩
    refine ⟨⟨c, rest, rfl, hc⟩, List.forall_mem_cons.2 ⟨?_, hrest⟩⟩
    exact isNameRest_iff.1 (isNameRest_of_isNameStart (isNameStart_iff.2 hc))

theorem IsIdentifier.not_mem {c : Char} (h : IsIdentifier name) (hc : ¬ isNameRest c) :
    c ∉ name := fun hmem => hc (isNameRest_iff.2 (h.all c hmem))

/-- A reference is read off the front of a text exactly if it stands there. -/
theorem nameAt?_eq_some_iff :
    nameAt? s = some name ↔ IsIdentifier name ∧ reference name <+: s := by
  constructor
  · intro h
    unfold nameAt? at h
    split at h
    · next c cs =>
      split at h
      · next hc =>
        split at h
        · next behind hbehind =>
          cases h
          have hsplit := List.takeWhile_append_dropWhile (p := isNameRest) (l := cs)
          rw [hbehind] at hsplit
          refine ⟨isIdentifier_cons_iff.2 ⟨hc, List.all_eq_true.1 List.all_takeWhile⟩, behind, ?_⟩
          simpa [reference] using hsplit
        · cases h
      · cases h
    · cases h
  · rintro ⟨hname, behind, rfl⟩
    obtain ⟨c, rest, rfl, -⟩ := hname.first
    obtain ⟨hc, hrest⟩ := isIdentifier_cons_iff.1 hname
    have htext : reference (c :: rest) ++ behind = '$' :: '{' :: c :: (rest ++ '}' :: behind) := by
      simp [reference]
    have hdrop : (rest ++ '}' :: behind).dropWhile isNameRest = '}' :: behind := by
      rw [List.dropWhile_append_of_pos hrest, List.dropWhile_cons_of_neg (by decide)]
    have htake : (rest ++ '}' :: behind).takeWhile isNameRest = rest := by
      rw [List.takeWhile_append_of_pos hrest, List.takeWhile_cons_of_neg (by decide),
        List.append_nil]
    rw [htext]
    simp only [nameAt?, hc, if_true, hdrop, htake]

theorem nameAt?_eq_none_iff :
    nameAt? s = none ↔ ∀ name, IsIdentifier name → ¬ reference name <+: s := by
  rw [Option.eq_none_iff_forall_ne_some]
  refine forall_congr' fun name => ?_
  rw [ne_eq, nameAt?_eq_some_iff, not_and]

instance (name : List Char) : Decidable (IsIdentifier name) :=
  decidable_of_iff (nameAt? (reference name) = some name)
    (nameAt?_eq_some_iff.trans (and_iff_left List.prefix_rfl))

/-- A text begins with one reference at most. -/
theorem eq_of_prefix (hname : IsIdentifier name) (hname' : IsIdentifier name')
    (h : reference name <+: s) (h' : reference name' <+: s) : name = name' := by
  have hfound := nameAt?_eq_some_iff.2 ⟨hname, h⟩
  rw [nameAt?_eq_some_iff.2 ⟨hname', h'⟩] at hfound
  exact (Option.some.inj hfound).symm

theorem reference_ne_nil (name : List Char) : reference name ≠ [] := List.cons_ne_nil _ _

/-- A reference holds one dollar sign, at its front. -/
theorem firstOnce_reference (hname : IsIdentifier name) : Text.FirstOnce (reference name) := by
  have hdollar : '$' ∉ name := hname.not_mem (by decide)
  exact ⟨'$', '{' :: (name ++ ['}']), rfl, by simp [hdollar]⟩

/-! ### A whole text -/

/-- A reference, or a character between two of them. -/
inductive Piece where
  /-- A character. -/
  | plain (c : Char)
  /-- A reference to a variable. -/
  | reference (name : List Char)
deriving DecidableEq

/-- The text of a piece, with something for each reference. -/
def Piece.fill (value : List Char → List Char) : Piece → List Char
  | plain c => [c]
  | reference name => value name

/-- The name in a reference. -/
def Piece.name? : Piece → Option (List Char)
  | plain _ => none
  | reference name => some name

/-- The text of some pieces, with something for each reference. -/
def fill (value : List Char → List Char) (pieces : List Piece) : List Char :=
  pieces.flatMap (Piece.fill value)

/-- The names in the references, from left to right. -/
def names (pieces : List Piece) : List (List Char) := pieces.filterMap Piece.name?

/-- Whether the references have identifiers for names, and none begins at a character between them.
-/
def Leftmost : List Piece → Prop
  | [] => True
  | .plain c :: rest =>
    (∀ name, IsIdentifier name → ¬ reference name <+: c :: fill reference rest) ∧ Leftmost rest
  | .reference name :: rest => IsIdentifier name ∧ Leftmost rest

instance decidableLeftmost : (pieces : List Piece) → Decidable (Leftmost pieces)
  | [] => isTrue trivial
  | .plain c :: rest =>
    have := decidableLeftmost rest
    decidable_of_iff (nameAt? (c :: fill reference rest) = none ∧ Leftmost rest)
      (and_congr_left' nameAt?_eq_none_iff)
  | .reference name :: rest =>
    have := decidableLeftmost rest
    inferInstanceAs (Decidable (IsIdentifier name ∧ Leftmost rest))

/-- Whether a text is taken apart into some pieces, so that each reference is the leftmost one in
what is left of the text behind the one before it. -/
structure Factors (pieces : List Piece) (s : List Char) : Prop where
  text_eq : fill reference pieces = s
  leftmost : Leftmost pieces

variable {value : List Char → List Char} {pieces pieces' part : List Piece} {p : Piece} {c : Char}

@[simp] theorem fill_nil (value : List Char → List Char) : fill value [] = [] := rfl

theorem fill_cons (value : List Char → List Char) (p : Piece) (pieces : List Piece) :
    fill value (p :: pieces) = p.fill value ++ fill value pieces := List.flatMap_cons

theorem fill_append (value : List Char → List Char) (pieces pieces' : List Piece) :
    fill value (pieces ++ pieces') = fill value pieces ++ fill value pieces' := List.flatMap_append

theorem mem_names_iff : name ∈ names pieces ↔ .reference name ∈ pieces := by
  rw [names, List.mem_filterMap]
  constructor
  · rintro ⟨p, hp, hname⟩
    cases p with
    | plain c => cases hname
    | reference other =>
      cases hname
      exact hp
  · exact fun hp => ⟨_, hp, rfl⟩

theorem Leftmost.isIdentifier (h : Leftmost pieces) (hname : name ∈ names pieces) :
    IsIdentifier name := by
  rw [mem_names_iff] at hname
  induction pieces with
  | nil => cases hname
  | cons p pieces ih =>
    cases p with
    | plain c => exact ih h.2 ((List.mem_cons.1 hname).resolve_left nofun)
    | reference other =>
      rcases List.mem_cons.1 hname with heq | hname
      · cases heq
        exact h.1
      · exact ih h.2 hname

/-- **Unique factorisation**: a text is taken apart in one way only. -/
theorem Leftmost.eq (h : Leftmost pieces) (h' : Leftmost pieces')
    (htext : fill reference pieces = fill reference pieces') : pieces = pieces' := by
  have hnil : ∀ p (pieces : List Piece), fill reference (p :: pieces) ≠ [] := by
    rintro (c | name) pieces <;> exact List.cons_ne_nil _ _
  induction pieces generalizing pieces' with
  | nil =>
    cases pieces' with
    | nil => rfl
    | cons p' pieces' => exact absurd htext.symm (hnil p' pieces')
  | cons p pieces ih =>
    cases pieces' with
    | nil => exact absurd htext (hnil p pieces)
    | cons p' pieces' =>
      cases p with
      | plain c =>
        cases p' with
        | plain c' =>
          obtain ⟨rfl, hrest⟩ := List.cons.inj htext
          rw [ih h.2 h'.2 hrest]
        | reference name' =>
          have hprefix : reference name' <+: fill reference (.plain c :: pieces) :=
            htext ▸ List.prefix_append (reference name') _
          exact absurd hprefix (h.1 name' h'.1)
      | reference name =>
        cases p' with
        | plain c' =>
          have hprefix : reference name <+: fill reference (.plain c' :: pieces') :=
            htext ▸ List.prefix_append (reference name) _
          exact absurd hprefix (h'.1 name h.1)
        | reference name' =>
          have hprefix : reference name <+: fill reference (.reference name' :: pieces') :=
            htext ▸ List.prefix_append (reference name) _
          obtain rfl := eq_of_prefix h.1 h'.1 hprefix (List.prefix_append (reference name') _)
          rw [fill_cons, fill_cons] at htext
          rw [ih h.2 h'.2 (List.append_cancel_left htext)]

/-- A text can be taken apart. -/
theorem exists_factors (s : List Char) : ∃ pieces, Factors pieces s := by
  induction hlength : s.length using Nat.strongRecOn generalizing s with
  | ind k ih =>
    cases s with
    | nil => exact ⟨[], rfl, trivial⟩
    | cons c s =>
      cases hname : nameAt? (c :: s) with
      | none =>
        obtain ⟨pieces, rfl, hleft⟩ := ih s.length (hlength ▸ Nat.lt_succ_self _) s rfl
        exact ⟨.plain c :: pieces, rfl, nameAt?_eq_none_iff.1 hname, hleft⟩
      | some name =>
        obtain ⟨hidentifier, behind, hbehind⟩ := nameAt?_eq_some_iff.1 hname
        have hlt : behind.length < k := by
          have hpos := List.length_pos_iff.2 (reference_ne_nil name)
          rw [← hlength, ← hbehind, List.length_append]
          omega
        obtain ⟨pieces, rfl, hleft⟩ := ih _ hlt behind rfl
        exact ⟨.reference name :: pieces, hbehind, hidentifier, hleft⟩

theorem Factors.existsUnique (s : List Char) : ∃! pieces, Factors pieces s := by
  obtain ⟨pieces, h⟩ := exists_factors s
  exact ⟨pieces, h, fun pieces' h' => h'.leftmost.eq h.leftmost (h'.text_eq.trans h.text_eq.symm)⟩

/-- Passing over characters is dropping them. -/
theorem referencesFrom_eq_drop (skip : Nat) (s : List Char) :
    referencesFrom skip s = referencesFrom 0 (s.drop skip) := by
  induction skip generalizing s with
  | zero => rfl
  | succ n ih =>
    cases s with
    | nil => rfl
    | cons c s => exact ih s

/-- The search finds the references of the pieces. -/
theorem references_fill (h : Leftmost pieces) :
    references (fill reference pieces) = names pieces := by
  induction pieces with
  | nil => rfl
  | cons p pieces ih =>
    cases p with
    | plain c =>
      have hnone : nameAt? (c :: fill reference pieces) = none := nameAt?_eq_none_iff.2 h.1
      show referencesFrom 0 (c :: fill reference pieces) = names pieces
      rw [referencesFrom, hnone]
      exact ih h.2
    | reference name =>
      let behind := fill reference pieces
      have htext : reference name ++ behind = '$' :: '{' :: (name ++ '}' :: behind) := by
        simp [reference]
      have hsome : nameAt? ('$' :: '{' :: (name ++ '}' :: behind)) = some name :=
        nameAt?_eq_some_iff.2 ⟨h.1, htext ▸ List.prefix_append _ _⟩
      have hdrop : ('{' :: (name ++ '}' :: behind)).drop (name.length + 2) = behind := by
        simp [List.drop_append]
      show referencesFrom 0 (reference name ++ behind) = name :: names pieces
      rw [htext, referencesFrom, hsome]
      show name :: referencesFrom (name.length + 2) _ = _
      rw [referencesFrom_eq_drop, hdrop]
      exact congrArg _ (ih h.2)

/-! ### One step -/

/-- What stands in the place of a reference when those to some variables have been replaced. -/
def rendered (env : Environment) (done : List (List Char)) (name : List Char) : List Char :=
  match env (String.ofList name) with
  | some value => if name ∈ done then value.toList else reference name
  | none => reference name

/-- The text with all references replaced at once. -/
def substitute (env : Environment) (pieces : List Piece) : List Char :=
  fill (fun name => match env (String.ofList name) with
    | some value => value.toList
    | none => reference name) pieces

/-- Whether a piece is a reference to a variable and has not been replaced. -/
def isPending (done : List (List Char)) (name : List Char) (p : Piece) : Bool :=
  p = .reference name ∧ name ∉ done

/-- The pieces between the references to a variable that have not been replaced. -/
def between (done : List (List Char)) (name : List Char) (pieces : List Piece) :
    List (List Piece) :=
  pieces.splitOnP (isPending done name)

/-- Whether a reference that is to be replaced by something else stands somewhere else in the text
as it is by then: in a value, or made up by the end of one and what is next to it. -/
def Strays (env : Environment) (done : List (List Char)) (name : List Char)
    (pieces : List Piece) : Prop :=
  ∃ value, env (String.ofList name) = some value ∧ value.toList ≠ reference name ∧
    ∃ part ∈ between done name pieces, reference name <:+: fill (rendered env done) part

theorem rendered_of_not_mem (h : name ∉ done) : rendered env done name = reference name := by
  unfold rendered
  cases env (String.ofList name) with
  | none => rfl
  | some value => exact if_neg h

theorem rendered_of_mem {new : String} (h : name ∈ done)
    (hnew : env (String.ofList name) = some new) : rendered env done name = new.toList := by
  rw [rendered, hnew]
  exact if_pos h

theorem rendered_of_none (h : env (String.ofList name) = none) :
    rendered env done name = reference name := by
  rw [rendered, h]

/-- A reference that has been replaced leaves the other ones alone. -/
theorem rendered_concat (h : name' ≠ name ∨ name ∈ done) :
    rendered env (done ++ [name]) name' = rendered env done name' := by
  have hmem : name' ∈ done ++ [name] ↔ name' ∈ done := by
    rw [List.mem_append, List.mem_singleton]
    refine or_iff_left_of_imp fun heq => ?_
    exact h.elim (absurd heq) (heq ▸ ·)
  unfold rendered
  simp only [hmem]

theorem fill_congr {value' : List Char → List Char}
    (h : ∀ name ∈ names pieces, value name = value' name) :
    fill value pieces = fill value' pieces := by
  refine List.flatMap_congr fun p hp => ?_
  cases p with
  | plain c => rfl
  | reference name => exact h name (mem_names_iff.2 hp)

theorem isPending_iff : isPending done name p ↔ p = .reference name ∧ name ∉ done :=
  decide_eq_true_iff

/-- A text is its parts between the references to a variable, with what stands for these. -/
theorem fill_eq_intercalate {new : List Char} (h : name ∉ done → value name = new)
    (pieces : List Piece) :
    fill value pieces = new.intercalate ((between done name pieces).map (fill value)) := by
  unfold between
  induction pieces using Text.splitOnP_induction (p := isPending done name) with
  | last part hpart =>
    rw [List.splitOnP_eq_singleton hpart, List.map_singleton, List.intercalate_singleton]
  | more part p rest hpart hp ih =>
    obtain ⟨rfl, hdone⟩ := isPending_iff.1 hp
    obtain ⟨next, parts, hparts⟩ :=
      List.exists_cons_of_ne_nil (List.splitOnP_ne_nil (isPending done name) rest)
    rw [List.splitOnP_append_cons_of_forall_mem hpart _ hp, fill_append, fill_cons, ih, hparts]
    simp only [List.map_cons, List.intercalate_cons_cons, ← h hdone, List.append_assoc]
    rfl

/-- Replacing one reference leaves of the text what it is to leave exactly if the reference stands
nowhere else. -/
theorem expandOne_fill_iff (hname : IsIdentifier name) :
    expandOne env (fill (rendered env done) pieces) name =
        fill (rendered env (done ++ [name])) pieces ↔ ¬ Strays env done name pieces := by
  cases hnew : env (String.ofList name) with
  | none =>
    refine iff_of_true ?_ fun ⟨value, hvalue, _⟩ => ?_
    · rw [expandOne, hnew]
      refine fill_congr fun other _ => ?_
      by_cases hother : other = name
      · rw [hother, rendered_of_none hnew, rendered_of_none hnew]
      · exact (rendered_concat (.inl hother)).symm
    · rw [hnew] at hvalue
      cases hvalue
  | some new =>
    have hfirst := firstOnce_reference hname
    have hparts : ∀ part ∈ between done name pieces,
        fill (rendered env (done ++ [name])) part = fill (rendered env done) part := by
      intro part hpart
      refine fill_congr fun other hother => rendered_concat ?_
      have hno := Text.not_of_mem_splitOnP hpart (mem_names_iff.1 hother)
      rw [isPending, decide_eq_false_iff_not, not_and_or, not_not] at hno
      exact hno.imp_left fun hne heq => hne (heq ▸ rfl)
    -- both texts are made of the same parts, joined by the references or by the values
    have hbefore : fill (rendered env done) pieces = (reference name).intercalate
        ((between done name pieces).map (fill (rendered env done))) :=
      fill_eq_intercalate rendered_of_not_mem pieces
    have hafter : fill (rendered env (done ++ [name])) pieces = new.toList.intercalate
        ((between done name pieces).map (fill (rendered env done))) := by
      rw [← List.map_congr_left hparts]
      exact fill_eq_intercalate (fun _ => rendered_of_mem (by simp) hnew) pieces
    have hexpand : expandOne env (fill (rendered env done) pieces) name =
        Text.replaceAll (reference name) new.toList (fill (rendered env done) pieces) := by
      rw [expandOne, hnew]
    rw [hexpand, hbefore, hafter, Text.replaceAll_intercalate_eq_iff hfirst, List.forall_mem_map]
    simp only [Text.replaceAll_eq_self_iff hfirst]
    constructor
    · rintro hnone ⟨value, hvalue, hne, part, hpart, hinfix⟩
      rw [hnew] at hvalue
      cases hvalue
      exact (hnone part hpart).elim (absurd hinfix) hne
    · intro hnone part hpart
      by_contra hno
      rw [not_or, not_not] at hno
      exact hnone ⟨new, hnew, hno.2, part, hpart, hno.1⟩

/-! ### All steps -/

/-- Whether no reference strays when it is about to be replaced. -/
def Undisturbed (env : Environment) (pieces : List Piece) : Prop :=
  ∀ before name after, names pieces = before ++ name :: after → ¬ Strays env before name pieces

/-- The text goes along with what it is to be, reference by reference, exactly if none strays. -/
theorem foldl_expandOne_iff (h : Leftmost pieces) :
    (∀ before after, names pieces = before ++ after →
        before.foldl (expandOne env) (fill reference pieces) =
          fill (rendered env before) pieces) ↔ Undisturbed env pieces := by
  constructor
  · intro hall before name after hnames
    have hname : name ∈ names pieces := by simp [hnames]
    have hnext := hall (before ++ [name]) after (by simp [hnames])
    rw [List.foldl_append, hall before (name :: after) hnames] at hnext
    exact (expandOne_fill_iff (h.isIdentifier hname)).1 hnext
  · intro hnone before
    induction before using List.reverseRecOn with
    | nil => exact fun _ _ => fill_congr fun name _ => (rendered_of_not_mem List.not_mem_nil).symm
    | append_singleton before name ih =>
      intro after hnames
      rw [List.append_assoc, List.singleton_append] at hnames
      have hname : name ∈ names pieces := by simp [hnames]
      rw [List.foldl_append, ih _ hnames]
      exact (expandOne_fill_iff (h.isIdentifier hname)).2 (hnone before name after hnames)

theorem fill_rendered_names (env : Environment) (pieces : List Piece) :
    fill (rendered env (names pieces)) pieces = substitute env pieces := by
  refine fill_congr fun name hname => ?_
  unfold rendered
  simp only [if_pos hname]

theorem expand_of_undisturbed (h : Leftmost pieces) (hnone : Undisturbed env pieces) :
    expand env (fill reference pieces) = substitute env pieces := by
  rw [expand, references_fill h,
    (foldl_expandOne_iff h).2 hnone (names pieces) [] (List.append_nil _).symm,
    fill_rendered_names]

/-! ### Where none strays -/

theorem infix_of_infix_append {t : List Char} (ht : '$' ∉ t) (h : reference name <:+: t ++ s) :
    reference name <:+: s := by
  induction t with
  | nil => exact h
  | cons c t ih =>
    rw [List.mem_cons, not_or] at ht
    rw [List.cons_append, List.infix_cons_iff] at h
    rcases h with hprefix | hinfix
    · exact absurd (List.cons_prefix_cons.1 hprefix).1 ht.1
    · exact ih ht.2 hinfix

/-- Where dollar signs are in references only, a reference that stands in the text is one of its
pieces, and has been left as it is. -/
theorem mem_of_infix_fill (hname : IsIdentifier name)
    (hpart : ∀ other ∈ names part, IsIdentifier other) (hplain : .plain '$' ∉ part)
    (hvalue : ∀ other ∈ names part, value other = reference other ∨ '$' ∉ value other)
    (h : reference name <:+: fill value part) :
    name ∈ names part ∧ value name = reference name := by
  induction part with
  | nil => exact absurd (List.infix_nil.1 h) (reference_ne_nil name)
  | cons p part ih =>
    rw [List.mem_cons, not_or] at hplain
    rw [fill_cons] at h
    cases p with
    | plain c =>
      refine ih hpart hplain.2 hvalue (infix_of_infix_append ?_ h)
      rw [Piece.fill, List.mem_singleton]
      rintro rfl
      exact hplain.1 rfl
    | reference other =>
      obtain ⟨hother, hpart⟩ := List.forall_mem_cons.1 hpart
      obtain ⟨hfirst, hvalue⟩ := List.forall_mem_cons.1 hvalue
      have hrest : reference name <:+: fill value part →
          name ∈ names (.reference other :: part) ∧ value name = reference name := fun h =>
        (ih hpart hplain.2 hvalue h).imp_left (List.mem_cons_of_mem other)
      rcases hfirst with hsame | hdollar
      · rw [Piece.fill, hsame] at h
        have hfront : reference other ++ fill value part =
            '$' :: ('{' :: (other ++ ['}']) ++ fill value part) := by simp [reference]
        have hbehind : '$' ∉ '{' :: (other ++ ['}']) := by
          have hdollar : '$' ∉ other := hother.not_mem (by decide)
          simp [hdollar]
        rw [hfront, List.infix_cons_iff, ← hfront] at h
        rcases h with hprefix | hinfix
        · obtain rfl := eq_of_prefix hname hother hprefix (List.prefix_append _ _)
          exact ⟨List.mem_cons_self, hsame⟩
        · exact hrest (infix_of_infix_append hbehind hinfix)
      · exact hrest (infix_of_infix_append hdollar h)

/-- Where dollar signs are neither between the references nor in values, no reference strays. -/
theorem undisturbed_of_plain (h : Leftmost pieces) (hplain : .plain '$' ∉ pieces)
    (hvalues : ∀ name ∈ names pieces, ∀ value, env (String.ofList name) = some value →
      '$' ∉ value.toList) : Undisturbed env pieces := by
  rintro before name after hnames ⟨new, hnew, hne, part, hpart, hinfix⟩
  have hmem : ∀ p ∈ part, p ∈ pieces := fun p hp => Text.mem_of_mem_splitOnP hpart hp
  have hmemNames : ∀ other ∈ names part, other ∈ names pieces := fun other hother =>
    mem_names_iff.2 (hmem _ (mem_names_iff.1 hother))
  have hrendered : ∀ other ∈ names part,
      rendered env before other = reference other ∨ '$' ∉ rendered env before other := by
    intro other hother
    cases hvalue : env (String.ofList other) with
    | none => exact .inl (rendered_of_none hvalue)
    | some value =>
      by_cases hdone : other ∈ before
      · rw [rendered_of_mem hdone hvalue]
        exact .inr (hvalues other (hmemNames other hother) value hvalue)
      · exact .inl (rendered_of_not_mem hdone)
  have hname : IsIdentifier name := h.isIdentifier (by simp [hnames])
  obtain ⟨hmemPart, hsame⟩ := mem_of_infix_fill hname
    (fun other hother => h.isIdentifier (hmemNames other hother)) (fun hp => hplain (hmem _ hp))
    hrendered hinfix
  -- a reference in one of the parts is not to be replaced, for it has been
  have hpending := Text.not_of_mem_splitOnP hpart (mem_names_iff.1 hmemPart)
  rw [isPending, decide_eq_false_iff_not, not_and, not_not] at hpending
  rw [rendered_of_mem (hpending rfl) hnew] at hsame
  exact hne hsame

/-- **Expansion**: a text is taken apart into references and the characters between them in exactly
one way. Each time the references to a variable are replaced, what is left is the text with these
and those before them replaced by the values, and nothing else changed, exactly if no reference
strays when it is about to be replaced. Then the values of all variables that are set stand in the
places of the references in the end. None strays where dollar signs are in references only, neither
between them nor in the values of their variables. -/
theorem expand_in_step (env : Environment) (s : List Char) :
    (∃! pieces, Factors pieces s) ∧
      ∀ pieces, Factors pieces s →
        ((∀ before after, names pieces = before ++ after →
            before.foldl (expandOne env) s = fill (rendered env before) pieces) ↔
          Undisturbed env pieces) ∧
        (Undisturbed env pieces → expand env s = substitute env pieces) ∧
        (.plain '$' ∉ pieces →
          (∀ name ∈ names pieces, ∀ value, env (String.ofList name) = some value →
            '$' ∉ value.toList) → Undisturbed env pieces) := by
  refine ⟨Factors.existsUnique s, ?_⟩
  rintro pieces ⟨rfl, hleft⟩
  exact ⟨foldl_expandOne_iff hleft, expand_of_undisturbed hleft, undisturbed_of_plain hleft⟩

/-- The pieces of a path that ends with a variable that is not set. -/
def pathPieces : List Piece :=
  [.reference "ROOT".toList, .plain '/', .reference "_1".toList, .plain '/',
    .reference "UNSET".toList]

theorem expand_in_step_path :
    Factors pathPieces "${ROOT}/${_1}/${UNSET}".toList ∧
      expand (ofList [("ROOT", "/srv"), ("_1", "db")]) "${ROOT}/${_1}/${UNSET}".toList =
        "/srv/db/${UNSET}".toList := by
  have hfactors : Factors pathPieces "${ROOT}/${_1}/${UNSET}".toList := ⟨rfl, by decide⟩
  obtain ⟨-, hall, hplain⟩ :=
    (expand_in_step (ofList [("ROOT", "/srv"), ("_1", "db")]) _).2 pathPieces hfactors
  refine ⟨hfactors, hall (hplain (by decide) fun name _ value hvalue => ?_)⟩
  have hmem := Assoc.mem_of_lookup hvalue
  simp only [List.mem_cons, Prod.mk.injEq, List.not_mem_nil, or_false] at hmem
  rcases hmem with ⟨-, rfl⟩ | ⟨-, rfl⟩ <;> decide

/-- The pieces of two references with a blank between them. -/
def pairPieces : List Piece := [.reference "A".toList, .plain ' ', .reference "B".toList]

/-- A value that looks like a reference is expanded by a later reference, which makes the order of
the references matter. -/
theorem not_expand_at_once_nestedValue :
    ¬ ∀ (env : Environment) (s : List Char) (pieces : List Piece), Factors pieces s →
      expand env s = substitute env pieces := by
  intro hall
  have hfactors : Factors pairPieces "${A} ${B}".toList := ⟨rfl, by decide⟩
  have hexpand := hall (ofList [("A", "${B}"), ("B", "b")]) _ _ hfactors
  exact absurd hexpand (by decide)

end SchemaPlan.Environment
