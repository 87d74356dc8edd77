import Mathlib.Data.List.Basic

/-!
# Runs of a deterministic transition system

A system is a total step function; a run is a list of calls.  A call that the system refuses
is a step that changes nothing, so every list of calls is a run.

* `run` — the state a run ends in;
* `run_invariant` — what every step preserves holds after every run;
* `outputs` — what the calls of a run return, in order, where they return something;
* `run_outputs_invariant` — a relation between the state and what was returned so far, lifted from
  steps to runs;
* `Meets` — every step of the run meets a condition on the state it starts from;
* `meets_iff_split` — **PROVED**: which is a condition on every call and the run before it;
* `run_of_meets` — what steps that meet a condition preserve holds after a run of such steps;
* `run_iff_meets` — **PROVED**: when a step keeps a property exactly if it meets a condition,
  a run keeps the property exactly if all of its steps meet the condition.
-/

namespace Memorial.Library

variable {σ α β : Type*}

/-- The state reached from `s` by the calls in order. -/
def run (step : σ → α → σ) (s : σ) (calls : List α) : σ := calls.foldl step s

@[simp]
theorem run_nil (step : σ → α → σ) (s : σ) : run step s [] = s := rfl

@[simp]
theorem run_cons (step : σ → α → σ) (s : σ) (call : α) (calls : List α) :
    run step s (call :: calls) = run step (step s call) calls := rfl

/-- What every step preserves, every run preserves. -/
theorem run_invariant (step : σ → α → σ) (inv : σ → Prop)
    (hstep : ∀ s call, inv s → inv (step s call)) (calls : List α) {s : σ} (hs : inv s) :
    inv (run step s calls) := by
  induction calls generalizing s with
  | nil => exact hs
  | cons call rest ih => exact ih (hstep s call hs)

/-! ### What a run returns -/

/-- What the calls of a run return, in order; a call that is refused returns nothing. -/
def outputs (step : σ → α → σ) (output : σ → α → Option β) : σ → List α → List β
  | _, [] => []
  | s, call :: rest => (output s call).toList ++ outputs step output (step s call) rest

/-- What every step preserves of the state and of what was returned so far, every run does. -/
theorem run_outputs_invariant (step : σ → α → σ) (output : σ → α → Option β)
    (inv : σ → List β → Prop)
    (hstep : ∀ s returned call, inv s returned →
      inv (step s call) (returned ++ (output s call).toList))
    (calls : List α) {s : σ} {returned : List β} (hs : inv s returned) :
    inv (run step s calls) (returned ++ outputs step output s calls) := by
  induction calls generalizing s returned with
  | nil =>
    rw [outputs, List.append_nil]
    exact hs
  | cons call rest ih =>
    rw [outputs, ← List.append_assoc]
    exact ih (hstep s returned call hs)

/-! ### Exact conditions -/

/-- Every step of the run meets the condition in the state it starts from. -/
def Meets (step : σ → α → σ) (cond : σ → α → Prop) : σ → List α → Prop
  | _, [] => True
  | s, call :: rest => cond s call ∧ Meets step cond (step s call) rest

/-- What the calls of a run meet in every state, they meet in the run. -/
theorem meets_of_forall {step : σ → α → σ} {cond : σ → α → Prop} {calls : List α}
    (h : ∀ call ∈ calls, ∀ s, cond s call) (s : σ) : Meets step cond s calls := by
  induction calls generalizing s with
  | nil => trivial
  | cons call rest ih =>
    rw [List.forall_mem_cons] at h
    exact ⟨h.1 s, ih h.2 (step s call)⟩

theorem Meets.imp {step : σ → α → σ} {cond cond' : σ → α → Prop}
    (h : ∀ s call, cond s call → cond' s call) {calls : List α} {s : σ}
    (hmeets : Meets step cond s calls) : Meets step cond' s calls := by
  induction calls generalizing s with
  | nil => trivial
  | cons call rest ih => exact ⟨h s call hmeets.1, ih hmeets.2⟩

theorem meets_iff_split (step : σ → α → σ) (cond : σ → α → Prop) (s : σ) (calls : List α) :
    Meets step cond s calls ↔
      ∀ before call after, calls = before ++ call :: after → cond (run step s before) call := by
  induction calls generalizing s with
  | nil => simp [Meets]
  | cons first rest ih =>
    rw [Meets, ih]
    constructor
    · rintro ⟨hfirst, hrest⟩ before call after hsplit
      cases before with
      | nil =>
        obtain ⟨rfl, -⟩ := List.cons_eq_cons.mp hsplit
        exact hfirst
      | cons b before =>
        obtain ⟨rfl, htail⟩ := List.cons_eq_cons.mp hsplit
        exact hrest before call after htail
    · intro hall
      refine ⟨hall [] first rest rfl, ?_⟩
      intro before call after hsplit
      exact hall (first :: before) call after (by rw [hsplit, List.cons_append])

/-- What steps that meet the condition preserve, runs of such steps do. -/
theorem run_of_meets (step : σ → α → σ) (cond : σ → α → Prop) (inv : σ → Prop)
    (hstep : ∀ s call, inv s → cond s call → inv (step s call)) (calls : List α) {s : σ}
    (hs : inv s) (hmeets : Meets step cond s calls) : inv (run step s calls) := by
  induction calls generalizing s with
  | nil => exact hs
  | cons call rest ih => exact ih (hstep s call hs hmeets.1) hmeets.2

/-- **Exact conditions lift from steps to runs.**  `wf` is what the steps preserve anyway;
under it, a step keeps `good` exactly when it meets `cond`. -/
theorem run_iff_meets (step : σ → α → σ) (wf good : σ → Prop) (cond : σ → α → Prop)
    (hwf : ∀ s call, wf s → wf (step s call))
    (hgood : ∀ s call, wf s → (good (step s call) ↔ good s ∧ cond s call))
    (calls : List α) {s : σ} (hs : wf s) :
    good (run step s calls) ↔ good s ∧ Meets step cond s calls := by
  induction calls generalizing s with
  | nil => simp [Meets]
  | cons call rest ih =>
    rw [run_cons, ih (hwf s call hs), hgood s call hs, Meets, and_assoc]

end Memorial.Library
