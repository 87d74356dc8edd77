import Memorial.Library.Runs
import Mathlib.Data.List.Forall2

/-!
# Forward simulation

One deterministic system is followed by another: each call of the first is answered by at most
one call of the second, and a relation between the two states is kept.  The calls of the second
run are what the first run puts out.

* `run_append` — a run is the run of its first part and then of the rest;
* `run_simulates` — **PROVED**: a relation that one call keeps is kept by a whole run;
* `outputs_meet` — **PROVED**: what each call may rely on in the second system, every call of the
  second run may rely on;
* `exists_of_forall₂`, `none_of_forall₂`, `forall₂_imp_of_mem`, `forall₂_concat`,
  `forall₂_modify` — lists of related states;
* `related_update` — families of related states.
-/

namespace Memorial.Library

variable {σ τ α β : Type*}

theorem run_append (step : σ → α → σ) (s : σ) (calls more : List α) :
    run step s (calls ++ more) = run step (run step s calls) more :=
  List.foldl_append

section Simulation

variable (step : σ → α → σ) (step' : τ → β → τ) (output : σ → α → Option β) (rel : σ → τ → Prop)

/-- A call is followed by what it puts out. -/
def Follows : Prop :=
  ∀ s t call, rel s t → rel (step s call) (run step' t (output s call).toList)

variable {step step' output rel}

/-- **What one call keeps, a run keeps.**  By induction on the calls of the first system. -/
theorem run_simulates (h : Follows step step' output rel) (calls : List α) {s : σ} {t : τ}
    (hrel : rel s t) : rel (run step s calls) (run step' t (outputs step output s calls)) := by
  induction calls generalizing s t with
  | nil => exact hrel
  | cons call rest ih =>
    rw [outputs, run_append, run_cons]
    exact ih (h s t call hrel)

/-- A condition that holds of every call where it is put out holds all along the second run. -/
theorem outputs_meet (h : Follows step step' output rel) {cond : τ → β → Prop}
    (hcond : ∀ s t call call', rel s t → output s call = some call' → cond t call')
    (calls : List α) {s : σ} {t : τ} (hrel : rel s t) :
    Meets step' cond t (outputs step output s calls) := by
  induction calls generalizing s t with
  | nil => trivial
  | cons call rest ih =>
    have hrest := ih (h s t call hrel)
    rw [outputs]
    cases houtput : output s call with
    | none =>
      rw [houtput] at hrest
      exact hrest
    | some call' =>
      rw [houtput] at hrest
      exact ⟨hcond s t call call' hrel houtput, hrest⟩

end Simulation

/-! ### Lists of related states -/

section Related

variable {R : α → β → Prop}

/-- Related lists have related entries at the same positions. -/
theorem exists_of_forall₂ {l : List α} {l' : List β} (h : List.Forall₂ R l l') {i : ℕ} {a : α}
    (ha : l[i]? = some a) : ∃ b, l'[i]? = some b ∧ R a b := by
  induction h generalizing i with
  | nil => cases ha
  | cons hhead _ ih =>
    cases i with
    | zero =>
      cases ha
      exact ⟨_, rfl, hhead⟩
    | succ i => exact ih ha

theorem none_of_forall₂ {l : List α} {l' : List β} (h : List.Forall₂ R l l') {i : ℕ}
    (hnone : l[i]? = none) : l'[i]? = none := by
  rw [List.getElem?_eq_none_iff] at hnone ⊢
  rw [← h.length_eq]
  exact hnone

/-- What follows from the relation for the entries of the two lists. -/
theorem forall₂_imp_of_mem {Q : α → β → Prop} {l : List α} {l' : List β} (h : List.Forall₂ R l l')
    (himp : ∀ a ∈ l, ∀ b ∈ l', R a b → Q a b) : List.Forall₂ Q l l' := by
  induction h with
  | nil => exact .nil
  | cons hhead _ ih =>
    refine .cons (himp _ List.mem_cons_self _ List.mem_cons_self hhead) (ih ?_)
    intro a ha b hb
    exact himp a (List.mem_cons_of_mem _ ha) b (List.mem_cons_of_mem _ hb)

theorem forall₂_concat {l : List α} {l' : List β} (h : List.Forall₂ R l l') {a : α} {b : β}
    (hab : R a b) : List.Forall₂ R (l ++ [a]) (l' ++ [b]) :=
  List.rel_append h (.cons hab .nil)

/-- Changing the entries at one position keeps related lists related. -/
theorem forall₂_modify {l : List α} {l' : List β} (h : List.Forall₂ R l l') (i : ℕ)
    {f : α → α} {g : β → β}
    (hfg : ∀ a b, l[i]? = some a → l'[i]? = some b → R a b → R (f a) (g b)) :
    List.Forall₂ R (l.modify i f) (l'.modify i g) := by
  induction h generalizing i with
  | nil => cases i <;> exact .nil
  | cons hhead htail ih =>
    cases i with
    | zero => exact .cons (hfg _ _ rfl rfl hhead) htail
    | succ i => exact .cons hhead (ih i hfg)

end Related

/-! ### Families of related states -/

/-- Related values put in one place keep related families related. -/
theorem related_update {ι : Type*} [DecidableEq ι] {F G : ι → Type*} {R : ∀ i, F i → G i → Prop}
    {f : ∀ i, F i} {g : ∀ i, G i} (h : ∀ i, R i (f i) (g i)) {i : ι} {a : F i} {b : G i}
    (hab : R i a b) (j : ι) : R j (Function.update f i a j) (Function.update g i b j) := by
  by_cases hj : j = i
  · subst hj
    rw [Function.update_self, Function.update_self]
    exact hab
  · rw [Function.update_of_ne hj, Function.update_of_ne hj]
    exact h j

end Memorial.Library
