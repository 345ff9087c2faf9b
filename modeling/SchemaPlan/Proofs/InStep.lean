import SchemaPlan.Proofs.Traversal

/-!
# Computations in step

Two computations are in step if both succeed with related values or both fail with related errors,
unless one of them gets stuck, that is, fails with an error that may befall it alone. Computations
whose parts are in step are so as a whole (`InStep.bind`, `InStep.mapM`).
-/

namespace SchemaPlan

/-- Whether two computations are in step: `R` relates their values, `S` their errors, and `stuck`
and `stuck'` tell the errors that may befall one of them alone. -/
inductive InStep {ε ε' α α' : Type} (R : α → α' → Prop) (S : ε → ε' → Prop) (stuck : ε → Prop)
    (stuck' : ε' → Prop) : Except ε α → Except ε' α' → Prop where
  /-- Both succeed. -/
  | ok {a : α} {a' : α'} : R a a' → InStep R S stuck stuck' (.ok a) (.ok a')
  /-- Both fail. -/
  | error {e : ε} {e' : ε'} : S e e' → InStep R S stuck stuck' (.error e) (.error e')
  /-- The first one gets stuck. -/
  | left {e : ε} {x' : Except ε' α'} : stuck e → InStep R S stuck stuck' (.error e) x'
  /-- The second one gets stuck. -/
  | right {x : Except ε α} {e' : ε'} : stuck' e' → InStep R S stuck stuck' x (.error e')

namespace InStep

variable {ε ε' α α' β β' γ : Type} {R : α → α' → Prop} {Q : β → β' → Prop} {S : ε → ε' → Prop}
  {stuck : ε → Prop} {stuck' : ε' → Prop} {x : Except ε α} {x' : Except ε' α'}

theorem refl {R : α → α → Prop} {S : ε → ε → Prop} {stuck stuck' : ε → Prop} (hR : ∀ a, R a a)
    (hS : ∀ e, S e e) (x : Except ε α) : InStep R S stuck stuck' x x := by
  cases x with
  | error e => exact .error (hS e)
  | ok a => exact .ok (hR a)

/-- Computations in step stay so if they go on in step. -/
theorem bind (h : InStep R S stuck stuck' x x') {f : α → Except ε β} {f' : α' → Except ε' β'}
    (hf : ∀ a a', R a a' → InStep Q S stuck stuck' (f a) (f' a')) :
    InStep Q S stuck stuck' (x >>= f) (x' >>= f') := by
  cases h with
  | ok ha => exact hf _ _ ha
  | error he => exact .error he
  | left he => exact .left he
  | right he => exact .right he

theorem map (h : InStep R S stuck stuck' x x') {f : α → β} {f' : α' → β'}
    (hf : ∀ a a', R a a' → Q (f a) (f' a')) :
    InStep Q S stuck stuck' (x.map f) (x'.map f') := by
  cases h with
  | ok ha => exact .ok (hf _ _ ha)
  | error he => exact .error he
  | left he => exact .left he
  | right he => exact .right he

/-- Computations stay in step if their errors are changed alike. -/
theorem mapError {δ δ' : Type} {T : δ → δ' → Prop} {late : δ → Prop} {late' : δ' → Prop}
    {g : ε → δ} {g' : ε' → δ'} (h : InStep R S stuck stuck' x x')
    (hS : ∀ e e', S e e' → T (g e) (g' e')) (hstuck : ∀ e, stuck e → late (g e))
    (hstuck' : ∀ e, stuck' e → late' (g' e)) :
    InStep R T late late' (x.mapError g) (x'.mapError g') := by
  cases h with
  | ok ha => exact .ok ha
  | error he => exact .error (hS _ _ he)
  | left he => exact .left (hstuck _ he)
  | right he => exact .right (hstuck' _ he)

/-- Two traversals are in step if they are at each element. -/
theorem mapM {xs : List γ} {f : γ → Except ε β} {f' : γ → Except ε' β'}
    (h : ∀ x ∈ xs, InStep Q S stuck stuck' (f x) (f' x)) :
    InStep (List.Forall₂ Q) S stuck stuck' (xs.mapM f) (xs.mapM f') := by
  induction xs with
  | nil => exact .ok .nil
  | cons x xs ih =>
    obtain ⟨hx, hxs⟩ := List.forall_mem_cons.1 h
    rw [List.mapM_cons, List.mapM_cons]
    refine hx.bind fun b b' hb => (ih hxs).bind fun bs bs' hbs => ?_
    exact .ok (.cons hb hbs)

end InStep

end SchemaPlan
