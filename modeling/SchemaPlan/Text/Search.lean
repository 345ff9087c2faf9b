/-!
# Searching and cutting text

Taking a known beginning or end off a text, the first occurrence of a text in another, replacing
every occurrence. All work on characters; each has one lemma that says what it finds in terms of
concatenation.
-/

namespace SchemaPlan.Text

/-! ### Beginnings and ends -/

/-- What follows `p` in a text that begins with it. -/
def dropPrefix? : List Char → List Char → Option (List Char)
  | [], s => some s
  | _ :: _, [] => none
  | p :: ps, c :: cs => if p = c then dropPrefix? ps cs else none

/-- What stands before `q` in a text that ends with it. -/
def dropSuffix? (q s : List Char) : Option (List Char) :=
  (dropPrefix? q.reverse s.reverse).map List.reverse

theorem dropPrefix?_eq_some_iff {p s r : List Char} : dropPrefix? p s = some r ↔ s = p ++ r := by
  induction p generalizing s with
  | nil => simp [dropPrefix?, eq_comm]
  | cons a p ih =>
    cases s with
    | nil => simp [dropPrefix?]
    | cons c s =>
      by_cases h : a = c
      · simp [dropPrefix?, h, ih]
      · simp [dropPrefix?, h, Ne.symm h]

@[simp] theorem dropPrefix?_append (p r : List Char) : dropPrefix? p (p ++ r) = some r :=
  dropPrefix?_eq_some_iff.2 rfl

theorem dropSuffix?_eq_some_iff {q s r : List Char} : dropSuffix? q s = some r ↔ s = r ++ q := by
  simp only [dropSuffix?, Option.map_eq_some_iff, dropPrefix?_eq_some_iff]
  constructor
  · rintro ⟨t, ht, rfl⟩
    have := congrArg List.reverse ht
    simpa using this
  · rintro rfl
    exact ⟨r.reverse, by simp, by simp⟩

@[simp] theorem dropSuffix?_append (r q : List Char) : dropSuffix? q (r ++ q) = some r :=
  dropSuffix?_eq_some_iff.2 rfl

/-- Whether a text begins with `p`. -/
def startsWith (p s : List Char) : Bool := (dropPrefix? p s).isSome

/-- Whether a text ends with `q`. -/
def endsWith (q s : List Char) : Bool := (dropSuffix? q s).isSome

/-! ### The first occurrence -/

/-- The text before and after the first occurrence of `needle`. -/
def cut? (needle : List Char) : List Char → Option (List Char × List Char)
  | [] => if needle = [] then some ([], []) else none
  | c :: cs =>
    match dropPrefix? needle (c :: cs) with
    | some after => some ([], after)
    | none => (cut? needle cs).map fun (before, after) => (c :: before, after)

/-- What is found is an occurrence. -/
theorem eq_append_of_cut? {needle s before after : List Char}
    (h : cut? needle s = some (before, after)) : s = before ++ needle ++ after := by
  induction s generalizing before with
  | nil =>
    simp only [cut?] at h
    split at h
    · next hn => simp_all
    · cases h
  | cons c s ih =>
    simp only [cut?] at h
    split at h
    · next rest hr =>
      cases h
      simpa using dropPrefix?_eq_some_iff.1 hr
    · next =>
      obtain ⟨⟨b, a⟩, hb, he⟩ := Option.map_eq_some_iff.1 h
      cases he
      simp [ih hb]

/-! ### Replacing -/

/-- Replace every occurrence of a nonempty `needle` by `new`, from left to right and without looking
at inserted text again. The number counts the characters of the last occurrence still to pass. -/
def replaceFrom (needle new : List Char) : Nat → List Char → List Char
  | _, [] => []
  | skip + 1, _ :: cs => replaceFrom needle new skip cs
  | 0, c :: cs =>
    if startsWith needle (c :: cs) then new ++ replaceFrom needle new (needle.length - 1) cs
    else c :: replaceFrom needle new 0 cs

/-- The text with every occurrence of a nonempty `needle` replaced by `new`. -/
def replaceAll (needle new s : List Char) : List Char := replaceFrom needle new 0 s

/-- Passing over characters is dropping them. -/
theorem replaceFrom_eq_drop (needle new : List Char) (skip : Nat) (s : List Char) :
    replaceFrom needle new skip s = replaceFrom needle new 0 (s.drop skip) := by
  induction skip generalizing s with
  | zero => rfl
  | succ n ih =>
    cases s with
    | nil => simp [replaceFrom]
    | cons c cs => simp [replaceFrom, ih]

/-! ### Single characters -/

/-- A text with one character exchanged for another. -/
def exchange (old new : Char) (s : List Char) : List Char :=
  s.map fun c => if c = old then new else c

end SchemaPlan.Text
