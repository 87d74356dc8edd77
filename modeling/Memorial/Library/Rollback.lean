import Mathlib.Data.List.Basic

/-!
# All-or-nothing sequences of undoable steps

A container operation that spreads one logical write over several vectors has to leave the
vectors alone when one of the writes throws.  The usual shape is a recursion that performs a
step, attempts the rest, and takes the step back when the rest threw.  This file treats that
shape once, for any state:

* `Undoable` — a state change together with the change that takes it back;
* `attemptAll` — the recursion, with the position of the throwing step as a parameter;
* `attemptAll_eq` — **PROVED**: an interrupted attempt is the identity, and an uninterrupted
  one applies every step.
-/

namespace Memorial.Library

/-- A state change and the change that takes it back. -/
structure Undoable (σ : Type*) where
  apply : σ → σ
  undo : σ → σ
  undo_apply : ∀ s, undo (apply s) = s

variable {σ : Type*}

/-- Attempt the steps in order, numbering them from `position`.  The step numbered `fault`
throws before it changes anything; every step applied before it is then undone, the innermost
one first.  The flag says whether the attempt threw. -/
def attemptAll (fault : Option ℕ) : ℕ → List (Undoable σ) → σ → σ × Bool
  | _, [], s => (s, false)
  | position, step :: rest, s =>
    if fault = some position then (s, true)
    else
      match attemptAll fault (position + 1) rest (step.apply s) with
      | (s', false) => (s', false)
      | (s', true) => (step.undo s', true)

/-- Apply every step. -/
def applyAll (steps : List (Undoable σ)) (s : σ) : σ :=
  steps.foldl (fun s step => step.apply s) s

/-- Whether the fault strikes one of the `count` steps numbered from `first`. -/
def interrupts (fault : Option ℕ) (first count : ℕ) : Bool :=
  match fault with
  | none => false
  | some position => decide (first ≤ position ∧ position < first + count)

theorem interrupts_zero (fault : Option ℕ) (first : ℕ) : interrupts fault first 0 = false := by
  cases fault with
  | none => rfl
  | some position =>
    simp only [interrupts, decide_eq_false_iff_not]
    omega

/-- The fault strikes `count + 1` steps exactly when it strikes the first one or a later one. -/
theorem interrupts_succ (fault : Option ℕ) (first count : ℕ) :
    interrupts fault first (count + 1) =
      (decide (fault = some first) || interrupts fault (first + 1) count) := by
  cases fault with
  | none => rfl
  | some position =>
    simp only [interrupts, Option.some.injEq, ← Bool.decide_or, decide_eq_decide]
    omega

/-- **An attempt is all or nothing.**  By induction on the steps: the undo of the step at the
head meets, by the induction hypothesis, exactly the state that step produced. -/
theorem attemptAll_eq (fault : Option ℕ) (position : ℕ) (steps : List (Undoable σ)) (s : σ) :
    attemptAll fault position steps s =
      if interrupts fault position steps.length then (s, true) else (applyAll steps s, false) := by
  induction steps generalizing position s with
  | nil => simp [attemptAll, applyAll, interrupts_zero]
  | cons step rest ih =>
    rw [attemptAll, List.length_cons, interrupts_succ]
    by_cases hhead : fault = some position
    · simp [hhead]
    · rw [if_neg hhead, ih (position + 1) (step.apply s)]
      cases hrest : interrupts fault (position + 1) rest.length with
      | false => simp [hhead, applyAll]
      | true => simp [hhead, step.undo_apply]

/-! ### Steps on a part of the state -/

/-- A part of a state that can be read and replaced. -/
structure Part (τ σ : Type*) where
  get : τ → σ
  set : σ → τ → τ
  get_set : ∀ s t, get (set s t) = s
  set_get : ∀ t, set (get t) t = t
  set_set : ∀ s s' t, set s (set s' t) = set s t

variable {τ : Type*}

/-- A step on the part, as a step on the whole. -/
def Undoable.onPart (part : Part τ σ) (step : Undoable σ) : Undoable τ where
  apply t := part.set (step.apply (part.get t)) t
  undo t := part.set (step.undo (part.get t)) t
  undo_apply t := by rw [part.get_set, step.undo_apply, part.set_set, part.set_get]

theorem applyAll_onPart (part : Part τ σ) (steps : List (Undoable σ)) (t : τ) :
    applyAll (steps.map (Undoable.onPart part)) t =
      part.set (applyAll steps (part.get t)) t := by
  induction steps generalizing t with
  | nil => simp [applyAll, part.set_get]
  | cons step rest ih =>
    have hhead : (step.onPart part).apply t = part.set (step.apply (part.get t)) t := rfl
    simp only [applyAll, List.map_cons, List.foldl_cons] at ih ⊢
    rw [ih, hhead, part.get_set, part.set_set]

end Memorial.Library
