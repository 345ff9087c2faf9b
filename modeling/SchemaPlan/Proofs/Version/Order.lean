import SchemaPlan.Version

/-!
# The order of versions

Comparing versions is a total preorder. Numerals compare by length and then as text, which is a
total order on all texts; two sequences of numerals compare as if both went on with `0` for ever, so
that taking the first numeral off both, with `0` for a missing one, is the one step of every
argument (`compareComponents_eq`, `tails_induction`). A migration without a version comes after every version.
-/

namespace SchemaPlan

open Std

/-! ### Comparisons up to equality -/

/-- A comparison orders the classes of equal elements: equality is an equivalence that the
comparison does not see through, and up to equality the order is total. -/
structure OrdersClasses {α : Type} (cmp : α → α → Ordering) (same : α → α → Bool) : Prop where
  equivalence : Equivalence fun a b => same a b = true
  congr {a a' b b' : α} : same a a' → same b b' → cmp a b = cmp a' b'
  swap (a b : α) : cmp a b = (cmp b a).swap
  total (a b : α) : (cmp a b).isLE ∨ (cmp b a).isLE
  antisymm {a b : α} : (cmp a b).isLE → (cmp b a).isLE → same a b
  trans {a b c : α} : (cmp a b).isLE → (cmp b c).isLE → (cmp a c).isLE

/-- A transitive comparison orders the classes of those that it finds equal. -/
theorem OrdersClasses.of_transCmp {α : Type} {cmp : α → α → Ordering} {same : α → α → Bool}
    [TransCmp cmp] (hsame : ∀ a b, same a b ↔ cmp a b = .eq) : OrdersClasses cmp same where
  equivalence :=
    { refl := fun a => (hsame a a).2 ReflCmp.compare_self
      symm := fun h => (hsame _ _).2 (OrientedCmp.eq_symm ((hsame _ _).1 h))
      trans := fun h h' => (hsame _ _).2 (TransCmp.eq_trans ((hsame _ _).1 h) ((hsame _ _).1 h')) }
  congr ha hb :=
    (TransCmp.congr_left ((hsame _ _).1 ha)).trans (TransCmp.congr_right ((hsame _ _).1 hb))
  swap _ _ := OrientedCmp.eq_swap
  total a b := by
    have hswap : cmp b a = (cmp a b).swap := OrientedCmp.eq_swap
    rw [hswap]
    cases cmp a b with
    | lt => exact .inl rfl
    | eq => exact .inl rfl
    | gt => exact .inr rfl
  antisymm h h' := (hsame _ _).2 (OrientedCmp.isLE_antisymm h h')
  trans := TransCmp.isLE_trans

namespace Version

/-! ### Numerals -/

theorem compareNumerals_eq_compareLex :
    compareNumerals = compareLex (compareOn String.length) compare := rfl

instance : TransCmp compareNumerals := by
  rw [compareNumerals_eq_compareLex]
  infer_instance

/-- Numerals are equal as numbers only if they are the same text. -/
theorem compareNumerals_eq_eq_iff {a b : String} : compareNumerals a b = .eq ↔ a = b := by
  constructor
  · intro h
    have hab : compare a b = .eq := (Ordering.then_eq_eq.mp h).2
    exact LawfulEqOrd.eq_of_compare hab
  · rintro rfl
    exact ReflCmp.compare_self

/-! ### Sequences of numerals -/

/-- The first numerals decide, and if they are equal the others do; a missing one counts as `0`. -/
theorem compareComponents_eq (as bs : List String) :
    compareComponents as bs =
      (compareNumerals (as.headD "0") (bs.headD "0")).then (compareComponents as.tail bs.tail) := by
  cases as with
  | nil =>
    cases bs with
    | nil => exact (Ordering.then_eq_eq.mpr ⟨ReflCmp.compare_self, rfl⟩).symm
    | cons b bs =>
      unfold compareComponents
      cases bs <;> rfl
  | cons a as =>
    cases bs with
    | nil =>
      unfold compareComponents
      cases as <;> rfl
    | cons b bs => rfl

/-- Induction on two sequences that takes the first element off both, also off an empty one. -/
@[elab_as_elim]
theorem tails_induction {α : Type} {motive : List α → List α → Prop} (nil : motive [] [])
    (tails : ∀ as bs, motive as.tail bs.tail → motive as bs) (as bs : List α) :
    motive as bs := by
  induction h : max as.length bs.length generalizing as bs with
  | zero =>
    have ha : as = [] := List.eq_nil_of_length_eq_zero (by omega)
    have hb : bs = [] := List.eq_nil_of_length_eq_zero (by omega)
    subst ha hb
    exact nil
  | succ n ih => exact tails as bs (ih as.tail bs.tail (by simp only [List.length_tail]; omega))

theorem length_tail_le {as : List String} {n : Nat} (h : as.length ≤ n + 1) :
    as.tail.length ≤ n := by
  rw [List.length_tail]
  omega

theorem compareComponents_swap (as bs : List String) :
    compareComponents as bs = (compareComponents bs as).swap := by
  induction as, bs using tails_induction with
  | nil => rfl
  | tails as bs ih =>
    rw [compareComponents_eq as bs, compareComponents_eq bs as, Ordering.swap_then,
      ← OrientedCmp.eq_swap, ← ih]

/-- The induction is on a bound of all three lengths: taking the first numeral off a sequence that
has none leaves it as it is. -/
theorem isLE_compareComponents_trans (n : Nat) {as bs cs : List String} (ha : as.length ≤ n)
    (hb : bs.length ≤ n) (hc : cs.length ≤ n) (hab : (compareComponents as bs).isLE)
    (hbc : (compareComponents bs cs).isLE) : (compareComponents as cs).isLE := by
  induction n generalizing as bs cs with
  | zero =>
    rw [List.eq_nil_of_length_eq_zero (Nat.le_zero.mp ha),
      List.eq_nil_of_length_eq_zero (Nat.le_zero.mp hc)]
    rfl
  | succ n ih =>
    rw [compareComponents_eq, Ordering.isLE_then_iff_or] at hab hbc ⊢
    rcases hab with hab | ⟨hab, hab'⟩
    · rcases hbc with hbc | ⟨hbc, -⟩
      · exact .inl (TransCmp.lt_trans hab hbc)
      · exact .inl (TransCmp.lt_of_lt_of_eq hab hbc)
    · rcases hbc with hbc | ⟨hbc, hbc'⟩
      · exact .inl (TransCmp.lt_of_eq_of_lt hab hbc)
      · exact .inr ⟨TransCmp.eq_trans hab hbc,
          ih (length_tail_le ha) (length_tail_le hb) (length_tail_le hc) hab' hbc'⟩

instance : TransCmp compareComponents where
  eq_swap := compareComponents_swap _ _
  isLE_trans {as bs cs} := isLE_compareComponents_trans (as.length + bs.length + cs.length)
    (by omega) (by omega) (by omega)

/-! ### Versions -/

theorem cmp_swap (a b : Version) : a.cmp b = (b.cmp a).swap := compareComponents_swap _ _

instance : TransCmp cmp where
  eq_swap := cmp_swap _ _
  isLE_trans hab hbc := @TransCmp.isLE_trans _ compareComponents _ _ _ _ hab hbc

theorem compareOptional_swap (a b : Option Version) :
    compareOptional a b = (compareOptional b a).swap :=
  match a, b with
  | some v, some w => cmp_swap v w
  | some _, none => rfl
  | none, some _ => rfl
  | none, none => rfl

instance : TransCmp compareOptional where
  eq_swap := compareOptional_swap _ _
  isLE_trans {a b c} hab hbc := by
    match a, b, c with
    | some _, some _, some _ => exact @TransCmp.isLE_trans _ cmp _ _ _ _ hab hbc
    | some _, _, none => rfl
    | none, _, none => rfl
    | _, none, some _ => exact absurd hbc Bool.false_ne_true
    | none, some _, some _ => exact absurd hab Bool.false_ne_true

theorem same_iff {a b : Version} : a.same b ↔ a.cmp b = .eq := by
  simp [same]

/-- Optional versions are numerically equal if both are missing, or both are there and equal. -/
theorem sameOptional_iff {a b : Option Version} :
    sameOptional a b ↔ compareOptional a b = .eq := by
  simp [sameOptional]

end Version

end SchemaPlan
