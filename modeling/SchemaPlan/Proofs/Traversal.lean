import Mathlib.Data.List.Forall2
import SchemaPlan.Trace

/-!
# Going through a list

A step that may fail is taken for each element of a list, up to the first failure. The traversal
succeeds exactly if every step does (`mapM_eq_ok_iff`), so its success does not depend on the order
of the list (`exists_mapM_eq_ok_iff`), and what it gives does so only in its own order. Otherwise it
fails as the first failing step does, and that step is the last to leave a trace
(`run_mapM_append_cons`). Where each step gives a list, `gather` puts these lists together, so that
only their order matters and not how they were divided up.
-/

namespace SchemaPlan

namespace Traversal

variable {ε α β : Type}

/-- A computation in two parts succeeds exactly if both do. -/
theorem bind_eq_ok_iff {x : Except ε α} {f : α → Except ε β} {b : β} :
    x >>= f = .ok b ↔ ∃ a, x = .ok a ∧ f a = .ok b := by
  cases x with
  | error e =>
    constructor
    · rintro ⟨⟩
    · rintro ⟨a, ⟨⟩, -⟩
  | ok a =>
    constructor
    · exact fun h => ⟨a, rfl, h⟩
    · rintro ⟨_, ⟨⟩, h⟩
      exact h

theorem map_eq_ok_iff {x : Except ε α} {f : α → β} {b : β} :
    x.map f = .ok b ↔ ∃ a, x = .ok a ∧ f a = b := by
  cases x <;> simp [Except.map]

theorem mapError_eq_ok_iff {δ : Type} {x : Except ε α} {f : ε → δ} {a : α} :
    x.mapError f = .ok a ↔ x = .ok a := by
  cases x <;> simp [Except.mapError]

theorem mapError_eq_error_iff {δ : Type} {x : Except ε α} {f : ε → δ} {e : δ} :
    x.mapError f = .error e ↔ ∃ cause, x = .error cause ∧ f cause = e := by
  cases x <;> simp [Except.mapError]

theorem map_eq_error_iff {x : Except ε α} {f : α → β} {e : ε} :
    x.map f = .error e ↔ x = .error e := by
  cases x <;> simp [Except.map]

theorem bind_eq_error_iff {x : Except ε α} {f : α → Except ε β} {e : ε} :
    x >>= f = .error e ↔ x = .error e ∨ ∃ a, x = .ok a ∧ f a = .error e := by
  cases x with
  | error e' => simp [bind, Except.bind]
  | ok a => simp [bind, Except.bind]

/-- A traversal succeeds exactly if each step does. -/
theorem mapM_eq_ok_iff {f : α → Except ε β} {xs : List α} {ys : List β} :
    xs.mapM f = .ok ys ↔ List.Forall₂ (fun x y => f x = .ok y) xs ys := by
  induction xs generalizing ys with
  | nil =>
    rw [List.mapM_nil, List.forall₂_nil_left_iff]
    exact ⟨fun h => by cases h; rfl, fun h => h ▸ rfl⟩
  | cons x xs ih =>
    rw [List.mapM_cons, List.forall₂_cons_left_iff]
    simp only [bind_eq_ok_iff, ih]
    constructor
    · rintro ⟨y, hy, ys', hys, ⟨⟩⟩
      exact ⟨y, ys', hy, hys, rfl⟩
    · rintro ⟨y, ys', hy, hys, rfl⟩
      exact ⟨y, hy, ys', hys, rfl⟩

theorem exists_mem_of_forall₂ {R : α → β → Prop} {xs : List α} {ys : List β}
    (h : List.Forall₂ R xs ys) {y : β} (hy : y ∈ ys) : ∃ x ∈ xs, R x y := by
  induction h with
  | nil => cases hy
  | cons hxy _ ih =>
    rcases List.mem_cons.1 hy with rfl | hy
    · exact ⟨_, List.mem_cons_self, hxy⟩
    · obtain ⟨x, hx, hxy⟩ := ih hy
      exact ⟨x, List.mem_cons_of_mem _ hx, hxy⟩

/-- Lists that agree element by element in some feature have the same list of features. -/
theorem map_eq_map_of_forall₂ {γ : Type} {R : α → β → Prop} {f : α → γ} {g : β → γ} {xs : List α}
    {ys : List β} (h : List.Forall₂ R xs ys) (hfg : ∀ x y, R x y → f x = g y) :
    xs.map f = ys.map g := by
  induction h with
  | nil => rfl
  | cons hxy _ ih => rw [List.map_cons, List.map_cons, hfg _ _ hxy, ih]

/-- Related lists stay related when related elements are put in at one place. -/
theorem forall₂_insert {R : α → β → Prop} {before after : List α} {x : α} {ys : List β} {y : β}
    (h : List.Forall₂ R (before ++ after) ys) (hxy : R x y) :
    ∃ front back, ys = front ++ back ∧
      List.Forall₂ R (before ++ x :: after) (front ++ y :: back) := by
  induction before generalizing ys with
  | nil => exact ⟨[], ys, rfl, .cons hxy h⟩
  | cons b before ih =>
    obtain ⟨c, cs, hbc, hrest, rfl⟩ := List.forall₂_cons_left_iff.1 h
    obtain ⟨front, back, rfl, hforall⟩ := ih hrest
    exact ⟨c :: front, back, rfl, .cons hbc hforall⟩

theorem mapM_congr {f g : α → Except ε β} {xs : List α} (h : ∀ x ∈ xs, f x = g x) :
    xs.mapM f = xs.mapM g := by
  induction xs with
  | nil => rfl
  | cons x xs ih =>
    obtain ⟨hx, hxs⟩ := List.forall_mem_cons.1 h
    rw [List.mapM_cons, List.mapM_cons, hx, ih hxs]

/-- A traversal succeeds if all steps do, in whatever order they are taken. -/
theorem exists_mapM_eq_ok_iff {f : α → Except ε β} {xs : List α} :
    (∃ ys, xs.mapM f = .ok ys) ↔ ∀ x ∈ xs, ∃ y, f x = .ok y := by
  simp only [mapM_eq_ok_iff]
  induction xs with
  | nil => exact ⟨fun _ _ h => absurd h List.not_mem_nil, fun _ => ⟨[], .nil⟩⟩
  | cons x xs ih =>
    rw [List.forall_mem_cons, ← ih]
    constructor
    · rintro ⟨_, _ | ⟨hx, hxs⟩⟩
      exact ⟨⟨_, hx⟩, _, hxs⟩
    · rintro ⟨⟨y, hx⟩, ys, hxs⟩
      exact ⟨y :: ys, .cons hx hxs⟩

/-- A traversal gives what its steps give. -/
theorem mem_of_mapM_eq_ok {f : α → Except ε β} {xs : List α} {ys : List β}
    (h : xs.mapM f = .ok ys) {y : β} : y ∈ ys ↔ ∃ x ∈ xs, f x = .ok y := by
  rw [mapM_eq_ok_iff] at h
  induction h with
  | nil => simp
  | cons hx _ ih => rw [List.mem_cons, List.exists_mem_cons_iff, ih, hx, Except.ok.injEq, eq_comm]

/-- Steps of which each result is changed in one way give changed results. -/
theorem mapM_map {γ : Type} (f : α → Except ε β) (g : β → γ) (xs : List α) :
    (xs.mapM fun x => (f x).map g) = (xs.mapM f).map (List.map g) := by
  induction xs with
  | nil => rfl
  | cons x xs ih =>
    rw [List.mapM_cons, List.mapM_cons, ih]
    cases f x with
    | error e => rfl
    | ok y => cases xs.mapM f <;> rfl

/-- Errors may be marked at each step and read off at the end. -/
theorem mapError_mapM {δ ζ : Type} {mark : α → ε → δ} {read : δ → ζ} {g : ε → ζ}
    (h : ∀ x e, read (mark x e) = g e) (f : α → Except ε β) (xs : List α) :
    (xs.mapM fun x => (f x).mapError (mark x)).mapError read = (xs.mapM f).mapError g := by
  induction xs with
  | nil => rfl
  | cons x xs ih =>
    rw [List.mapM_cons, List.mapM_cons]
    cases f x with
    | error e => exact congrArg Except.error (h x e)
    | ok y =>
      calc _ = ((xs.mapM fun x => (f x).mapError (mark x)).mapError read).map (y :: ·) := by
            cases xs.mapM fun x => (f x).mapError (mark x) <;> rfl
        _ = ((xs.mapM f).mapError g).map (y :: ·) := congrArg _ ih
        _ = _ := by cases xs.mapM f <;> rfl

/-- Elements that a step gives nothing for may be left out beforehand. -/
theorem map_filterMap_mapM (f : α → Except ε β) (skip : α → Bool) (xs : List α) :
    (xs.mapM fun x => if skip x then .ok none else (f x).map some).map (List.filterMap id) =
      (xs.filter (!skip ·)).mapM f := by
  induction xs with
  | nil => rfl
  | cons x xs ih =>
    rw [List.mapM_cons, List.filter_cons]
    cases skip x with
    | true =>
      rw [if_pos rfl, if_neg (by decide), ← ih]
      cases xs.mapM fun x => if skip x then .ok none else (f x).map some <;> rfl
    | false =>
      rw [if_neg (by decide), if_pos (by decide), List.mapM_cons, ← ih]
      cases f x with
      | error e => rfl
      | ok y => cases xs.mapM fun x => if skip x then .ok none else (f x).map some <;> rfl

/-! ### Steps that give lists -/

/-- All that the steps give, if none of them fails. -/
def gather (f : α → Except ε (List β)) (xs : List α) : Except ε (List β) :=
  (xs.mapM f).map List.flatten

@[simp] theorem gather_nil (f : α → Except ε (List β)) : gather f [] = .ok [] := rfl

theorem gather_congr {f g : α → Except ε (List β)} {xs : List α} (h : ∀ x ∈ xs, f x = g x) :
    gather f xs = gather g xs :=
  congrArg (Except.map List.flatten) (mapM_congr h)

theorem gather_cons (f : α → Except ε (List β)) (x : α) (xs : List α) :
    gather f (x :: xs) = f x >>= fun a => (gather f xs).map (a ++ ·) := by
  unfold gather
  rw [List.mapM_cons]
  cases f x with
  | error e => rfl
  | ok a => cases xs.mapM f <;> rfl

theorem gather_singleton (f : α → Except ε (List β)) (x : α) : gather f [x] = f x := by
  rw [gather_cons, gather_nil]
  cases f x with
  | error e => rfl
  | ok a => exact congrArg Except.ok (List.append_nil a)

theorem gather_cons_eq_ok_iff {f : α → Except ε (List β)} {x : α} {xs : List α} {ys : List β} :
    gather f (x :: xs) = .ok ys ↔ ∃ a b, f x = .ok a ∧ gather f xs = .ok b ∧ a ++ b = ys := by
  simp only [gather_cons, bind_eq_ok_iff, map_eq_ok_iff, exists_and_left]

theorem gather_append (f : α → Except ε (List β)) (xs ys : List α) :
    gather f (xs ++ ys) = gather f xs >>= fun a => (gather f ys).map (a ++ ·) := by
  induction xs with
  | nil =>
    rw [List.nil_append]
    cases gather f ys <;> rfl
  | cons x xs ih =>
    rw [List.cons_append, gather_cons, gather_cons, ih]
    cases f x with
    | error e => rfl
    | ok a =>
      cases gather f xs with
      | error e => rfl
      | ok b =>
        cases gather f ys with
        | error e => rfl
        | ok c => exact congrArg Except.ok (List.append_assoc a b c).symm

/-- Steps may be taken in groups. -/
theorem gather_flatMap {γ : Type} (f : β → Except ε (List γ)) (g : α → List β) (xs : List α) :
    gather f (xs.flatMap g) = gather (fun x => gather f (g x)) xs := by
  induction xs with
  | nil => rfl
  | cons x xs ih => rw [List.flatMap_cons, gather_append, gather_cons, ih]

theorem gather_append_cons_eq_ok_iff {f : α → Except ε (List β)} {before after : List α} {x : α}
    {ys : List β} :
    gather f (before ++ x :: after) = .ok ys ↔
      ∃ a b c, gather f before = .ok a ∧ f x = .ok b ∧ gather f after = .ok c ∧
        a ++ (b ++ c) = ys := by
  simp only [gather_append, bind_eq_ok_iff, map_eq_ok_iff, gather_cons_eq_ok_iff]
  constructor
  · rintro ⟨a, ha, _, ⟨b, c, hb, hc, rfl⟩, rfl⟩
    exact ⟨a, b, c, ha, hb, hc, rfl⟩
  · rintro ⟨a, b, c, ha, hb, hc, rfl⟩
    exact ⟨a, ha, _, ⟨b, c, hb, hc, rfl⟩, rfl⟩

/-- What the steps give may be changed at each step or at the end. -/
theorem gather_map {γ : Type} (f : α → Except ε (List β)) (g : β → γ) (xs : List α) :
    (gather f xs).map (List.map g) = gather (fun x => (f x).map (List.map g)) xs := by
  rw [gather, gather, mapM_map]
  cases xs.mapM f with
  | error e => rfl
  | ok ys => exact congrArg Except.ok List.map_flatten

/-- Each traversal succeeds, or there is a first failing step. -/
theorem forall_ok_or_first_error (f : α → Except ε β) (xs : List α) :
    (∃ ys, List.Forall₂ (fun x y => f x = .ok y) xs ys) ∨
      ∃ before x after e, xs = before ++ x :: after ∧ (∀ b ∈ before, ∃ y, f b = .ok y) ∧
        f x = .error e := by
  induction xs with
  | nil => exact .inl ⟨[], .nil⟩
  | cons x xs ih =>
    cases hx : f x with
    | error e => exact .inr ⟨[], x, xs, e, rfl, by simp, hx⟩
    | ok y =>
      rcases ih with ⟨ys, hys⟩ | ⟨before, z, after, e, rfl, hbefore, hz⟩
      · exact .inl ⟨y :: ys, .cons hx hys⟩
      · exact .inr ⟨x :: before, z, after, e, rfl, List.forall_mem_cons.2 ⟨⟨y, hx⟩, hbefore⟩, hz⟩

/-- A traversal fails as the first failing step does. -/
theorem mapM_of_first_error {f : α → Except ε β} {before : List α} {x : α} {e : ε}
    (hbefore : ∀ b ∈ before, ∃ y, f b = .ok y) (hx : f x = .error e) (after : List α) :
    (before ++ x :: after).mapM f = .error e := by
  obtain ⟨ys, hys⟩ := exists_mapM_eq_ok_iff.2 hbefore
  rw [List.mapM_append, hys, List.mapM_cons, hx]
  rfl

theorem mapM_eq_error_iff {f : α → Except ε β} {xs : List α} {e : ε} :
    xs.mapM f = .error e ↔
      ∃ before x after, xs = before ++ x :: after ∧ (∀ b ∈ before, ∃ y, f b = .ok y) ∧
        f x = .error e := by
  constructor
  · intro h
    rcases forall_ok_or_first_error f xs with
      ⟨ys, hys⟩ | ⟨before, x, after, e', rfl, hbefore, hx⟩
    · rw [mapM_eq_ok_iff.2 hys] at h
      cases h
    · rw [mapM_of_first_error hbefore hx] at h
      cases h
      exact ⟨before, x, after, rfl, hbefore, hx⟩
  · rintro ⟨before, x, after, rfl, hbefore, hx⟩
    exact mapM_of_first_error hbefore hx after

/-- Where a traversal fails, one of its steps does. -/
theorem exists_of_mapM_eq_error {f : α → Except ε β} {xs : List α} {e : ε}
    (h : xs.mapM f = .error e) : ∃ x ∈ xs, f x = .error e := by
  obtain ⟨before, x, after, rfl, -, hx⟩ := mapM_eq_error_iff.1 h
  exact ⟨x, List.mem_append_right _ List.mem_cons_self, hx⟩

theorem gather_eq_error_iff {f : α → Except ε (List β)} {xs : List α} {e : ε} :
    gather f xs = .error e ↔ xs.mapM f = .error e :=
  map_eq_error_iff

/-! ### Verdicts -/

/-- What a computation comes to apart from its value. -/
def verdict (x : Except ε α) : Except ε Unit := x.map fun _ => ()

theorem verdict_eq_error_iff {x : Except ε α} {e : ε} : verdict x = .error e ↔ x = .error e :=
  map_eq_error_iff

@[simp] theorem verdict_map (x : Except ε α) (f : α → β) : verdict (x.map f) = verdict x := by
  cases x <;> rfl

@[simp] theorem verdict_mapError {δ : Type} (x : Except ε α) (f : ε → δ) :
    verdict (x.mapError f) = (verdict x).mapError f := by
  cases x <;> rfl

@[simp] theorem verdict_bind_pure (x : Except ε α) (f : α → β) :
    verdict (x >>= fun a => pure (f a)) = verdict x := by
  cases x <;> rfl

theorem verdict_bind {x : Except ε α} {f : α → Except ε β} {y : Except ε Unit}
    (h : ∀ a, verdict (f a) = y) : verdict (x >>= f) = verdict x >>= fun _ => y := by
  cases x with
  | error e => rfl
  | ok a => exact h a

/-- A traversal comes to what its steps come to. -/
theorem verdict_mapM (f : α → Except ε β) (xs : List α) :
    verdict (xs.mapM f) = forM xs fun x => verdict (f x) := by
  induction xs with
  | nil => rfl
  | cons x xs ih =>
    rw [List.mapM_cons, List.forM_cons, ← ih]
    cases f x with
    | error e => rfl
    | ok y => cases xs.mapM f <;> rfl

theorem verdict_gather (f : α → Except ε (List β)) (xs : List α) :
    verdict (gather f xs) = forM xs fun x => verdict (f x) := by
  rw [gather, verdict_map, verdict_mapM]

theorem forM_flatMap (f : β → Except ε Unit) (g : α → List β) (xs : List α) :
    forM (xs.flatMap g) f = forM xs fun x => forM (g x) f := by
  induction xs with
  | nil => rfl
  | cons x xs ih => rw [List.flatMap_cons, List.forM_append, List.forM_cons, ih]

theorem forM_congr {f g : α → Except ε Unit} {xs : List α} (h : ∀ x ∈ xs, f x = g x) :
    forM xs f = forM xs g := by
  induction xs with
  | nil => rfl
  | cons x xs ih =>
    obtain ⟨hx, hxs⟩ := List.forall_mem_cons.1 h
    rw [List.forM_cons, List.forM_cons, hx, ih hxs]

theorem mapError_forM {δ : Type} (f : α → Except ε Unit) (g : ε → δ) (xs : List α) :
    (forM xs f).mapError g = forM xs fun x => (f x).mapError g := by
  induction xs with
  | nil => rfl
  | cons x xs ih =>
    rw [List.forM_cons, List.forM_cons, ← ih]
    cases f x <;> rfl

/-- Steps fail as the first failing one does. -/
theorem forM_eq_error_iff {f : α → Except ε Unit} {xs : List α} {e : ε} :
    forM xs f = .error e ↔
      ∃ before x after, xs = before ++ x :: after ∧ (∀ b ∈ before, f b = .ok ()) ∧
        f x = .error e := by
  have hverdict : ∀ x, verdict (f x) = f x := fun x => by cases f x <;> rfl
  have hmapM := verdict_mapM f xs
  simp only [hverdict] at hmapM
  have hok : ∀ x, (∃ y, f x = .ok y) ↔ f x = .ok () := fun x => ⟨fun ⟨_, h⟩ => h, fun h => ⟨(), h⟩⟩
  rw [← hmapM, verdict_eq_error_iff, mapM_eq_error_iff]
  simp only [hok]

end Traversal

namespace ResolveM

variable {α β : Type}

/-- The steps of a computation. -/
def steps (x : ResolveM α) : List Step := x.run.steps

theorem result_bind_eq_ok_iff {x : ResolveM α} {f : α → ResolveM β} {b : β} :
    (x >>= f).result = .ok b ↔ ∃ a, x.result = .ok a ∧ (f a).result = .ok b := by
  rw [result_bind]
  exact Traversal.bind_eq_ok_iff

theorem steps_bind_of_ok {x : ResolveM α} {f : α → ResolveM β} {a : α} (h : x.result = .ok a) :
    (x >>= f).steps = x.steps ++ (f a).steps := by
  obtain ⟨value, steps⟩ := x
  cases h
  rfl

theorem steps_bind_of_error {x : ResolveM α} {f : α → ResolveM β} {e : PlanError}
    (h : x.result = .error e) : (x >>= f).steps = x.steps := by
  obtain ⟨value, steps⟩ := x
  cases h
  exact List.append_nil steps

/-- A traversal that succeeds leaves the traces of all steps. -/
theorem steps_mapM_of_ok {f : α → ResolveM β} {xs : List α} {ys : List β}
    (h : List.Forall₂ (fun x y => (f x).result = .ok y) xs ys) :
    (xs.mapM f).steps = xs.flatMap fun x => (f x).steps := by
  induction h with
  | nil => rfl
  | @cons x y xs ys hx hxs ih =>
    have hresult : (xs.mapM f).result = .ok ys := by
      rw [result_mapM]
      exact Traversal.mapM_eq_ok_iff.2 hxs
    rw [List.mapM_cons, steps_bind_of_ok hx, steps_bind_of_ok hresult, ih, List.flatMap_cons]
    exact congrArg ((f x).steps ++ ·) (List.append_nil _)

/-- A traversal that fails leaves the traces of the steps up to the first that fails. -/
theorem run_mapM_append_cons {f : α → ResolveM β} {before : List α} {x : α} {e : PlanError}
    (hbefore : ∀ b ∈ before, ∃ y, (f b).result = .ok y) (hx : (f x).result = .error e)
    (after : List α) :
    ((before ++ x :: after).mapM f).result = .error e ∧
      ((before ++ x :: after).mapM f).steps =
        before.flatMap (fun b => (f b).steps) ++ (f x).steps := by
  induction before with
  | nil =>
    rw [List.nil_append, List.mapM_cons, steps_bind_of_error hx, result_bind, hx]
    exact ⟨rfl, rfl⟩
  | cons b before ih =>
    obtain ⟨⟨y, hy⟩, hbefore⟩ := List.forall_mem_cons.1 hbefore
    obtain ⟨hresult, hsteps⟩ := ih hbefore
    rw [List.cons_append, List.mapM_cons, result_bind, hy, steps_bind_of_ok hy,
      steps_bind_of_error hresult, hsteps, List.flatMap_cons, List.append_assoc]
    refine ⟨?_, rfl⟩
    show (((before ++ x :: after).mapM f) >>= _).result = _
    rw [result_bind, hresult]
    rfl

end ResolveM

end SchemaPlan
