import Mathlib.Data.List.Sort
import Mathlib.Data.List.TakeWhile

/-!
# Stable sorting and sorted prefixes

The algorithmic facts behind ordered selection, over any element type:

* `stableSort` — the stable sort for a strict comparator, as a structural recursion that
  evaluates;
* `StrictWeakOrdering` — what a comparator has to be for sorting to be defined;
* `UnstableSort` — any algorithm that sorts, with the order of equal elements left open;
* `UnstableSort.sort_eq_of_mem_iff` — **PROVED**: sorting a duplicate-free list by an injective
  key gives *the* ascending list of its members, whatever order the input came in;
* `mem_takeWhile_key_le` — **PROVED**: in a list ascending by a key, the longest prefix below a
  bound holds exactly the members below the bound (what a binary search relies on);
* `stableSort_eq_mergeSort` — **PROVED**: for a strict weak ordering every stable sort is the
  same function.
-/

namespace Memorial.Library

variable {α β : Type*}

/-- Stable sort by a strict comparator: `b` may not stay before a later `a` with
`less a b`. -/
def stableSort (less : α → α → Bool) (l : List α) : List α :=
  l.insertionSort (fun a b => less b a = false)

theorem stableSort_cons (less : α → α → Bool) (a : α) (l : List α) :
    stableSort less (a :: l) =
      (stableSort less l).orderedInsert (fun a b => less b a = false) a := rfl

theorem stableSort_perm (less : α → α → Bool) (l : List α) : (stableSort less l).Perm l :=
  List.perm_insertionSort _ l

@[simp]
theorem mem_stableSort {less : α → α → Bool} {l : List α} {a : α} :
    a ∈ stableSort less l ↔ a ∈ l :=
  (stableSort_perm less l).mem_iff

/-! ### Strict weak orderings -/

/-- A comparator is a strict weak ordering when "not greater" is total and transitive. -/
structure StrictWeakOrdering (less : α → α → Bool) : Prop where
  total : ∀ a b, less b a = false ∨ less a b = false
  trans : ∀ a b c, less b a = false → less c b = false → less c a = false

/-! ### Sorting by a key -/

section Key

variable [LinearOrder β] {key : α → β} {less : α → α → Bool}

theorem less_eq_false_iff (hless : ∀ a b, less a b = decide (key a < key b)) (a b : α) :
    less b a = false ↔ key a ≤ key b := by
  rw [hless, decide_eq_false_iff_not, not_lt]

theorem StrictWeakOrdering.of_key (hless : ∀ a b, less a b = decide (key a < key b)) :
    StrictWeakOrdering less where
  total a b := by
    rw [less_eq_false_iff hless, less_eq_false_iff hless]
    exact le_total _ _
  trans a b c hab hbc := by
    rw [less_eq_false_iff hless] at *
    exact hab.trans hbc

/-- In a list ascending by a key, the prefix that stops at the first key above the bound holds
exactly the members whose key is not above it. -/
theorem mem_takeWhile_key_le {l : List α} (hl : l.Pairwise (fun a b => key a ≤ key b))
    (bound : β) (a : α) :
    a ∈ l.takeWhile (fun e => !decide (bound < key e)) ↔ a ∈ l ∧ key a ≤ bound := by
  induction l with
  | nil => simp
  | cons head tail ih =>
    obtain ⟨hhead, htail⟩ := List.pairwise_cons.mp hl
    by_cases hb : bound < key head
    · -- the first key is already above the bound, and so is every later one
      have hnone : ¬(a ∈ head :: tail ∧ key a ≤ bound) := by
        intro hmember
        obtain ⟨hmem, hle⟩ := hmember
        rcases List.mem_cons.mp hmem with rfl | htl
        · exact absurd hle (not_le.mpr hb)
        · exact absurd ((hb.trans_le (hhead a htl)).trans_le hle) (lt_irrefl _)
      rw [List.takeWhile_cons, if_neg (by simp [hb])]
      exact iff_of_false List.not_mem_nil hnone
    · have hle : key head ≤ bound := not_lt.mp hb
      simp only [List.takeWhile_cons, hb, decide_false, Bool.not_false, if_true,
        List.mem_cons, ih htail]
      constructor
      · rintro (rfl | ⟨htl, hka⟩)
        · exact ⟨Or.inl rfl, hle⟩
        · exact ⟨Or.inr htl, hka⟩
      · rintro ⟨rfl | htl, hka⟩
        · exact Or.inl rfl
        · exact Or.inr ⟨htl, hka⟩

end Key

/-! ### Uniqueness of the stable sort -/

/-- **Every stable sort is the same function.**  By induction on the list: merge sort puts the
head right after the elements that are strictly smaller, and so does ordered insertion. -/
theorem stableSort_eq_mergeSort {less : α → α → Bool} (h : StrictWeakOrdering less)
    (l : List α) : stableSort less l = l.mergeSort (fun a b => !less b a) := by
  have htrans : ∀ a b c : α, (!less b a) = true → (!less c b) = true → (!less c a) = true := by
    simpa using h.trans
  have htotal : ∀ a b : α, ((!less b a) || (!less a b)) = true := by
    simpa using h.total
  induction l with
  | nil => rw [stableSort, List.insertionSort_nil, List.mergeSort_nil]
  | cons a l ih =>
    obtain ⟨l₁, l₂, hcons, hl, hsmall⟩ := List.mergeSort_cons htrans htotal a l
    have hsorted := List.pairwise_mergeSort htrans htotal (a :: l)
    rw [stableSort_cons, ih, hl, hcons, List.orderedInsert_eq_take_drop]
    rw [hcons] at hsorted
    have hlarge : ∀ b ∈ l₂, less b a = false := by
      intro b hb
      have hpair := (List.pairwise_cons.mp (List.pairwise_append.mp hsorted).2.1).1 b hb
      simpa using hpair
    have hsmall' : ∀ b ∈ l₁, less b a = true := by simpa using hsmall
    have htake : (l₁ ++ l₂).takeWhile (fun b => ¬less b a = false) = l₁ := by
      rw [List.takeWhile_append_of_pos (by simpa using hsmall')]
      cases l₂ with
      | nil => simp
      | cons b rest => simp [hlarge b (by simp)]
    have hdrop : (l₁ ++ l₂).dropWhile (fun b => ¬less b a = false) = l₂ := by
      rw [List.dropWhile_append_of_pos (by simpa using hsmall')]
      cases l₂ with
      | nil => simp
      | cons b rest => simp [hlarge b (by simp)]
    rw [htake, hdrop]

/-! ### Sorts that leave the order of equal elements open -/

/-- An algorithm that sorts by a strict comparator and promises nothing about the order of equal
elements. -/
structure UnstableSort where
  sort : {α : Type} → (α → α → Bool) → List α → List α
  sort_perm : ∀ {α : Type} (less : α → α → Bool) (l : List α), (sort less l).Perm l
  sort_pairwise : ∀ {α : Type} (less : α → α → Bool) (l : List α), StrictWeakOrdering less →
    (sort less l).Pairwise (fun a b => less b a = false)

namespace UnstableSort

variable {α β : Type} [LinearOrder β] {key : α → β} {less : α → α → Bool}

@[simp]
theorem mem_sort (s : UnstableSort) {l : List α} {a : α} : a ∈ s.sort less l ↔ a ∈ l :=
  (s.sort_perm less l).mem_iff

theorem pairwise_sort (s : UnstableSort) (hless : ∀ a b, less a b = decide (key a < key b))
    (l : List α) : (s.sort less l).Pairwise (fun a b => key a ≤ key b) :=
  (s.sort_pairwise less l (StrictWeakOrdering.of_key hless)).imp
    (fun {a b} h => (less_eq_false_iff hless a b).mp h)

/-- **The ascending list is determined by its members**, whichever algorithm sorts. -/
theorem sort_eq_of_mem_iff (s : UnstableSort) (hless : ∀ a b, less a b = decide (key a < key b))
    (hkey : Function.Injective key) {path ids : List α} (hpath : path.Nodup)
    (hids : ids.Pairwise (fun a b => key a < key b)) (hmem : ∀ a, a ∈ path ↔ a ∈ ids) :
    s.sort less path = ids := by
  have hnodup : ids.Nodup := hids.imp (fun h heq => absurd h (by rw [heq]; exact lt_irrefl _))
  have hperm : (s.sort less path).Perm ids :=
    (s.sort_perm less path).trans ((List.perm_ext_iff_of_nodup hpath hnodup).mpr hmem)
  refine List.Perm.eq_of_pairwise ?_ (s.pairwise_sort hless path) (hids.imp le_of_lt) hperm
  intro a b _ _ hab hba
  exact hkey (le_antisymm hab hba)

end UnstableSort

/-- The stable sort is one such algorithm. -/
def stableSortAlgorithm : UnstableSort where
  sort := stableSort
  sort_perm := stableSort_perm
  sort_pairwise less l h := by
    have : Std.Total (fun a b => less b a = false) := ⟨h.total⟩
    have : IsTrans _ (fun a b => less b a = false) := ⟨h.trans⟩
    exact List.pairwise_insertionSort _ l

end Memorial.Library
