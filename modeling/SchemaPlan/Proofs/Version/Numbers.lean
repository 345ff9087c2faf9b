import Mathlib.Data.List.GetD
import Mathlib.Order.PiLex
import SchemaPlan.Proofs.Version.Grammar

/-!
# Versions as sequences of numbers

The order of versions is the lexicographic order of the sequences of numbers that their texts
denote, with zeros after the last component (`numbers`). One step compares the first numbers of two
sequences, and if they are equal the order is that of the sequences behind them
(`lt_iff_head_or_tail`), which is how versions are compared component by component
(`compares_padded`).
-/

namespace SchemaPlan.Version

/-! ### Sequences of numbers -/

/-- Some numbers with zeros after them, as a sequence in lexicographic order. -/
def padded (ns : List ℕ) : Lex (ℕ → ℕ) := toLex fun i => ns.getD i 0

/-- The numbers that a text denotes by its runs of digits, with zeros after them. -/
def numbers (text : String) : Lex (ℕ → ℕ) :=
  padded ((parts text.toList).map fun run => Nat.ofDigitChars 10 run 0)

theorem padded_zero (ns : List ℕ) : padded ns 0 = ns.headD 0 := by
  cases ns <;> rfl

theorem padded_succ (ns : List ℕ) (i : ℕ) : padded ns (i + 1) = padded ns.tail i := by
  cases ns <;> rfl

theorem padded_lt_iff {ms ns : List ℕ} :
    padded ms < padded ns ↔
      ms.headD 0 < ns.headD 0 ∨ ms.headD 0 = ns.headD 0 ∧ padded ms.tail < padded ns.tail := by
  rw [← padded_zero, ← padded_zero]
  constructor
  · rintro ⟨i, heq, hlt⟩
    cases i with
    | zero => exact .inl hlt
    | succ i =>
      refine .inr ⟨heq 0 (Nat.succ_pos i), i, fun j hj => ?_, ?_⟩
      · have := heq (j + 1) (Nat.succ_lt_succ hj)
        rwa [padded_succ, padded_succ] at this
      · simpa only [padded_succ] using hlt
  · rintro (hlt | ⟨hhead, i, heq, hlt⟩)
    · exact ⟨0, fun j hj => absurd hj (Nat.not_lt_zero j), hlt⟩
    · refine ⟨i + 1, fun j hj => ?_, ?_⟩
      · cases j with
        | zero => exact hhead
        | succ j =>
          show padded ms (j + 1) = padded ns (j + 1)
          rw [padded_succ, padded_succ]
          exact heq j (Nat.lt_of_succ_lt_succ hj)
      · show padded ms (i + 1) < padded ns (i + 1)
        rw [padded_succ, padded_succ]
        exact hlt

theorem padded_eq_iff {ms ns : List ℕ} :
    padded ms = padded ns ↔ ms.headD 0 = ns.headD 0 ∧ padded ms.tail = padded ns.tail := by
  rw [← padded_zero, ← padded_zero]
  constructor
  · intro h
    refine ⟨congrFun h 0, funext fun i => ?_⟩
    rw [← padded_succ, ← padded_succ, h]
  · rintro ⟨hhead, htail⟩
    funext i
    cases i with
    | zero => exact hhead
    | succ i => rw [padded_succ, padded_succ, htail]

/-! ### The order -/

/-- The first numbers decide, and if they are equal the others do. -/
theorem compares_then {o o' : Ordering} {ms ns : List ℕ}
    (hhead : o.Compares (ms.headD 0) (ns.headD 0))
    (htail : o'.Compares (padded ms.tail) (padded ns.tail)) :
    (o.then o').Compares (padded ms) (padded ns) := by
  cases o with
  | lt => exact padded_lt_iff.2 (.inl hhead)
  | gt => exact padded_lt_iff.2 (.inl hhead)
  | eq =>
    cases o' with
    | lt => exact padded_lt_iff.2 (.inr ⟨hhead, htail⟩)
    | eq => exact padded_eq_iff.2 ⟨hhead, htail⟩
    | gt => exact padded_lt_iff.2 (.inr ⟨Eq.symm hhead, htail⟩)

theorem headD_map_toString (ns : List ℕ) : (ns.map toString).headD "0" = toString (ns.headD 0) := by
  cases ns <;> rfl

/-- Numerals compare as the sequences of their numbers do. -/
theorem compares_padded (ms ns : List ℕ) :
    (compareComponents (ms.map toString) (ns.map toString)).Compares (padded ms) (padded ns) := by
  induction ms, ns using tails_induction with
  | nil => rfl
  | tails ms ns ih =>
    rw [compareComponents_eq, headD_map_toString, headD_map_toString, ← List.map_tail,
      ← List.map_tail]
    exact compares_then (compares_toString _ _) ih

theorem cmp_compares_numbers {a b : String} {v w : Version} (hv : parse a = .ok v)
    (hw : parse b = .ok w) : (v.cmp w).Compares (numbers a) (numbers b) := by
  obtain ⟨as, has, rfl⟩ := parse_eq_ok_iff.1 hv
  obtain ⟨bs, hbs, rfl⟩ := parse_eq_ok_iff.1 hw
  have hcomponents : ∀ text runs, (ofRuns text runs).components =
      (runs.map fun run => Nat.ofDigitChars 10 run 0).map toString := fun text runs =>
    List.map_map.symm
  rw [cmp, hcomponents, hcomponents, numbers, numbers, (runs_iff.1 has).1, (runs_iff.1 hbs).1]
  exact compares_padded _ _

/-- **The order of versions is numeric**: versions compare as the sequences of numbers that their
texts denote. So they are put into a total order up to numeric equality, and a missing version is
the one that is greater than all others. -/
theorem numeric_order :
    (∀ {a b : String} {v w : Version}, parse a = .ok v → parse b = .ok w →
        (v.cmp w).Compares (numbers a) (numbers b)) ∧
      OrdersClasses cmp same ∧ OrdersClasses compareOptional sameOptional ∧
      (∀ v w : Version, compareOptional (some v) (some w) = v.cmp w) ∧
      ∀ v? : Option Version,
        (compareOptional v? none).isLE ∧ (sameOptional v? none ↔ v? = none) := by
  refine ⟨cmp_compares_numbers, .of_transCmp fun _ _ => same_iff,
    .of_transCmp fun _ _ => sameOptional_iff, fun _ _ => rfl, fun v? => ?_⟩
  cases v? with
  | none => exact ⟨rfl, iff_of_true rfl rfl⟩
  | some v => exact ⟨rfl, iff_of_false (by rintro ⟨⟩) (by rintro ⟨⟩)⟩

theorem numeric_order_bigNumbers :
    ∃ v w, parse "007_99999999999999999999999.0" = .ok v ∧
      parse "7.100000000000000000000000" = .ok w ∧ v.cmp w = .lt ∧
      numbers "007_99999999999999999999999.0" < numbers "7.100000000000000000000000" := by
  have hv : parse "007_99999999999999999999999.0" =
      .ok ⟨["7", "99999999999999999999999", "0"], "007.99999999999999999999999.0"⟩ := by decide
  have hw : parse "7.100000000000000000000000" =
      .ok ⟨["7", "100000000000000000000000"], "7.100000000000000000000000"⟩ := by decide
  have hlt : Version.cmp
      ⟨["7", "99999999999999999999999", "0"], "007.99999999999999999999999.0"⟩
      ⟨["7", "100000000000000000000000"], "7.100000000000000000000000"⟩ = .lt := by decide
  have hcompares := numeric_order.1 hv hw
  rw [hlt] at hcompares
  exact ⟨_, _, hv, hw, hlt, hcompares⟩

end SchemaPlan.Version
