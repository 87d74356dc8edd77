import Mathlib.Data.List.Basic

/-!
# Loops that stop at the first error

Three loop shapes over `Except ε`: keep the elements a test accepts, map every element, and
concatenate the lists the elements produce.  Each stops at the first error.  The rules say what
a loop computes when no element of its input errs, and what a loop that succeeds has done; they are
the only facts the proofs about such loops need.
-/

namespace Memorial.Library

variable {ε α β : Type}

@[simp]
theorem ok_bind (a : α) (f : α → Except ε β) : (Except.ok a >>= f) = f a := rfl

@[simp]
theorem error_bind (e : ε) (f : α → Except ε β) : (Except.error e >>= f) = .error e := rfl

/-- Keep the elements the test accepts, in order. -/
def filterLoop (test : α → Except ε Bool) : List α → Except ε (List α)
  | [] => .ok []
  | a :: rest => do
    let keep ← test a
    let kept ← filterLoop test rest
    return if keep then a :: kept else kept

/-- Map every element, in order. -/
def mapLoop (f : α → Except ε β) : List α → Except ε (List β)
  | [] => .ok []
  | a :: rest => do
    let b ← f a
    let mapped ← mapLoop f rest
    return b :: mapped

/-- Concatenate the lists the elements produce, in order. -/
def flatMapLoop (f : α → Except ε (List β)) : List α → Except ε (List β)
  | [] => .ok []
  | a :: rest => do
    let produced ← f a
    let remaining ← flatMapLoop f rest
    return produced ++ remaining

theorem filterLoop_eq_ok {test : α → Except ε Bool} {p : α → Bool} {l : List α}
    (h : ∀ a ∈ l, test a = .ok (p a)) : filterLoop test l = .ok (l.filter p) := by
  induction l with
  | nil => rfl
  | cons a rest ih =>
    rw [filterLoop, h a (by simp), ih (fun b hb => h b (by simp [hb]))]
    cases hp : p a <;> simp [hp, pure, Except.pure]

/-- The rule for a list that was mapped before it is filtered. -/
theorem filterLoop_map_eq_ok {test : β → Except ε Bool} {f : α → β} {p : α → Bool} {l : List α}
    (h : ∀ a ∈ l, test (f a) = .ok (p a)) :
    filterLoop test (l.map f) = .ok ((l.filter p).map f) := by
  induction l with
  | nil => rfl
  | cons a rest ih =>
    rw [List.map_cons, filterLoop, h a (by simp), ih (fun b hb => h b (by simp [hb]))]
    cases hp : p a <;> simp [hp, pure, Except.pure]

theorem mapLoop_eq_ok {f : α → Except ε β} {g : α → β} {l : List α}
    (h : ∀ a ∈ l, f a = .ok (g a)) : mapLoop f l = .ok (l.map g) := by
  induction l with
  | nil => rfl
  | cons a rest ih =>
    rw [mapLoop, h a (by simp), ih (fun b hb => h b (by simp [hb]))]
    rfl

theorem mapLoop_map {γ : Type} (f : β → Except ε γ) (e : α → β) (l : List α) :
    mapLoop f (l.map e) = mapLoop (fun a => f (e a)) l := by
  induction l with
  | nil => rfl
  | cons a rest ih => rw [List.map_cons, mapLoop, mapLoop, ih]

/-- The rule for a map whose results are known as options. -/
theorem mapLoop_eq_filterMap {f : α → Except ε β} {g : α → Option β} {l : List α}
    (h : ∀ a ∈ l, ∃ b, g a = some b ∧ f a = .ok b) : mapLoop f l = .ok (l.filterMap g) := by
  induction l with
  | nil => rfl
  | cons a rest ih =>
    obtain ⟨b, hg, hf⟩ := h a (by simp)
    rw [mapLoop, hf, ih (fun c hc => h c (by simp [hc])), List.filterMap_cons_some hg]
    rfl

/-- What a map that succeeds has done to each element. -/
theorem forall₂_of_mapLoop {f : α → Except ε β} {l : List α} {results : List β}
    (h : mapLoop f l = .ok results) : List.Forall₂ (fun a b => f a = .ok b) l results := by
  induction l generalizing results with
  | nil =>
    obtain rfl := Except.ok.inj h
    exact .nil
  | cons a rest ih =>
    rw [mapLoop] at h
    cases hf : f a with
    | error error =>
      rw [hf, error_bind] at h
      cases h
    | ok b =>
      rw [hf, ok_bind] at h
      cases hrest : mapLoop f rest with
      | error error =>
        rw [hrest, error_bind] at h
        cases h
      | ok results' =>
        rw [hrest, ok_bind] at h
        obtain rfl := Except.ok.inj h
        exact .cons hf (ih hrest)

theorem flatMapLoop_eq_ok {f : α → Except ε (List β)} {g : α → List β} {l : List α}
    (h : ∀ a ∈ l, f a = .ok (g a)) : flatMapLoop f l = .ok (l.flatMap g) := by
  induction l with
  | nil => rfl
  | cons a rest ih =>
    rw [flatMapLoop, h a (by simp), ih (fun b hb => h b (by simp [hb]))]
    rfl

end Memorial.Library
