import Mathlib.Data.List.Basic
import Mathlib.Logic.Function.Basic

/-!
# Lists that differ in one position

A left fold whose step is injective, in its state and in the symbol it reads, ends in different
states on two lists that differ in one position: the common prefix leads to one state, the
differing symbols to two states, and the common suffix keeps them apart.

* `DifferInOnePosition` — lists of one length with exactly one differing position;
* `DifferInOnePosition.exists_split`, `DifferInOnePosition.of_split` — **PROVED**: the same as a
  common prefix, two symbols and a common suffix;
* `InjectiveStep`, `InjectiveStep.foldl_ne` — **PROVED**: the fold keeps such lists apart.
-/

namespace Memorial.Library

variable {α σ : Type*}

/-- Lists of one length with exactly one differing position. -/
def DifferInOnePosition (xs ys : List α) : Prop :=
  xs.length = ys.length ∧ ∃! index : ℕ, xs[index]? ≠ ys[index]?

namespace DifferInOnePosition

/-- The common prefix and suffix of the two lists. -/
theorem exists_split {xs ys : List α} (h : DifferInOnePosition xs ys) :
    ∃ before a b after, a ≠ b ∧ xs = before ++ a :: after ∧ ys = before ++ b :: after := by
  obtain ⟨hlength, index, hne, honly⟩ := h
  have hindex : index < xs.length := by
    by_contra hout
    apply hne
    rw [List.getElem?_eq_none (by omega), List.getElem?_eq_none (by omega)]
  have hindex' : index < ys.length := hlength ▸ hindex
  have hsame : ∀ other, other ≠ index → xs[other]? = ys[other]? := by
    intro other hother
    by_contra hdiffer
    exact hother (honly other hdiffer)
  have hbefore : xs.take index = ys.take index := by
    apply List.ext_getElem?
    intro other
    rw [List.getElem?_take, List.getElem?_take]
    split
    · exact hsame other (by omega)
    · rfl
  have hafter : xs.drop (index + 1) = ys.drop (index + 1) := by
    apply List.ext_getElem?
    intro other
    rw [List.getElem?_drop, List.getElem?_drop]
    exact hsame _ (by omega)
  refine ⟨xs.take index, xs[index], ys[index], xs.drop (index + 1), ?_, ?_, ?_⟩
  · intro heq
    apply hne
    rw [List.getElem?_eq_getElem hindex, List.getElem?_eq_getElem hindex', heq]
  · rw [List.getElem_cons_drop, List.take_append_drop]
  · rw [hbefore, hafter, List.getElem_cons_drop, List.take_append_drop]

theorem of_split (before : List α) {a b : α} (h : a ≠ b) (after : List α) :
    DifferInOnePosition (before ++ a :: after) (before ++ b :: after) := by
  refine ⟨by simp, before.length, by simpa using h, ?_⟩
  intro index hdiffer
  by_contra hne
  apply hdiffer
  rcases Nat.lt_or_gt_of_ne hne with hlt | hgt
  · rw [List.getElem?_append_left hlt, List.getElem?_append_left hlt]
  · rw [List.getElem?_append_right (by omega), List.getElem?_append_right (by omega)]
    obtain ⟨rest, hrest⟩ : ∃ rest, index - before.length = rest + 1 :=
      ⟨index - before.length - 1, by omega⟩
    rw [hrest, List.getElem?_cons_succ, List.getElem?_cons_succ]

/-- The difference stays the only one between a common beginning and a common end. -/
theorem append_append {xs ys : List α} (h : DifferInOnePosition xs ys)
    (before after : List α) :
    DifferInOnePosition (before ++ xs ++ after) (before ++ ys ++ after) := by
  obtain ⟨left, a, b, right, hne, rfl, rfl⟩ := h.exists_split
  have hsplit := of_split (before ++ left) hne (right ++ after)
  simpa only [List.append_assoc, List.cons_append] using hsplit

end DifferInOnePosition

/-- A step that forgets neither its state nor the symbol it reads. -/
structure InjectiveStep (step : σ → α → σ) : Prop where
  state : ∀ a, Function.Injective (fun s => step s a)
  symbol : ∀ s, Function.Injective (step s)

namespace InjectiveStep

variable {step : σ → α → σ}

theorem foldl_injective (h : InjectiveStep step) (after : List α) :
    Function.Injective (fun s => after.foldl step s) := by
  induction after with
  | nil => exact Function.injective_id
  | cons a after ih =>
    intro s t hst
    exact h.state a (ih hst)

/-- **One differing symbol is never forgotten.** -/
theorem foldl_ne (h : InjectiveStep step) {xs ys : List α} (hdiffer : DifferInOnePosition xs ys)
    (s : σ) : xs.foldl step s ≠ ys.foldl step s := by
  obtain ⟨before, a, b, after, hne, rfl, rfl⟩ := hdiffer.exists_split
  rw [List.foldl_append, List.foldl_append, List.foldl_cons, List.foldl_cons]
  intro heq
  exact hne (h.symbol _ (h.foldl_injective after heq))

end InjectiveStep

end Memorial.Library
