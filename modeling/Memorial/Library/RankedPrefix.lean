import Memorial.Library.Sorting
import Mathlib.Data.List.FinRange

/-!
# The first elements of a stable sort

What the first elements of a stably sorted list are, in terms of positions of the input: which
positions, in which order, and that nothing better was left out.  The comparator only has to be a
strict weak ordering on the elements of the list.

* `StrictWeakOrderingOn` — a strict weak ordering on the elements of a list;
* `StrictWeakOrderingOn.stableSort_eq_mergeSort` — **PROVED**: there every stable sort is the same;
* `RankedPrefix` — the positions of the best elements, ties in input order;
* `insertionSort_congr` — **PROVED**: two relations that agree on each element and those after it
  sort alike;
* `exists_rankedPrefix` — **PROVED**: the first elements of a stable sort are a ranked prefix.
-/

namespace Memorial.Library

variable {α : Type*}

/-- A comparator is a strict weak ordering on the elements of a list. -/
structure StrictWeakOrderingOn (less : α → α → Bool) (l : List α) : Prop where
  total : ∀ a ∈ l, ∀ b ∈ l, less b a = false ∨ less a b = false
  trans : ∀ a ∈ l, ∀ b ∈ l, ∀ c ∈ l, less b a = false → less c b = false → less c a = false

theorem StrictWeakOrdering.on {less : α → α → Bool} (h : StrictWeakOrdering less) (l : List α) :
    StrictWeakOrderingOn less l where
  total a _ b _ := h.total a b
  trans a _ b _ c _ := h.trans a b c

theorem StrictWeakOrdering.flip {less : α → α → Bool} (h : StrictWeakOrdering less) :
    StrictWeakOrdering (fun a b => less b a) where
  total a b := h.total b a
  trans a b c hab hbc := h.trans c b a hbc hab

/-- Comparators that agree on the list are strict weak orderings on it together. -/
theorem StrictWeakOrderingOn.congr {less other : α → α → Bool} {l : List α}
    (h : StrictWeakOrderingOn less l) (hsame : ∀ a ∈ l, ∀ b ∈ l, other a b = less a b) :
    StrictWeakOrderingOn other l where
  total := by
    intro a ha b hb
    rw [hsame b hb a ha, hsame a ha b hb]
    exact h.total a ha b hb
  trans := by
    intro a ha b hb c hc
    rw [hsame b hb a ha, hsame c hc b hb, hsame c hc a ha]
    exact h.trans a ha b hb c hc

/-- **Every stable sort of the list is the same function of it.**  By sorting its members. -/
theorem StrictWeakOrderingOn.stableSort_eq_mergeSort {less : α → α → Bool} {l : List α}
    (h : StrictWeakOrderingOn less l) : stableSort less l = l.mergeSort (fun a b => !less b a) := by
  have hmembers : StrictWeakOrdering (fun a b : {a // a ∈ l} => less a b) :=
    ⟨fun a b => h.total a a.2 b b.2, fun a b c => h.trans a a.2 b b.2 c c.2⟩
  have hstable : (stableSort (fun a b : {a // a ∈ l} => less a b) l.attach).map Subtype.val =
      stableSort less l := by
    rw [stableSort, List.map_insertionSort _ (fun a b => less b a = false) _ _
      (fun a _ b _ => Iff.rfl), List.attach_map_subtype_val, stableSort]
  have hmerge : (l.attach.mergeSort (fun a b => !less b a)).map Subtype.val =
      l.mergeSort (fun a b => !less b a) := by
    rw [List.map_mergeSort (f := Subtype.val) (s := fun a b => !less b a) (fun _ _ _ _ => rfl),
      List.attach_map_subtype_val]
  rw [← hstable, ← hmerge, Library.stableSort_eq_mergeSort hmembers]

/-- The positions of the first `count` elements in the order of the comparator, ties in the order of
the list. -/
structure RankedPrefix (less : α → α → Bool) (l : List α) (count : ℕ)
    (positions : List (Fin l.length)) : Prop where
  length : positions.length = min count l.length
  nodup : positions.Nodup
  sorted : positions.Pairwise (fun p q => less (l.get q) (l.get p) = false ∧
    (less (l.get p) (l.get q) = false → p < q))
  best : ∀ p ∈ positions, ∀ q, q ∉ positions → less (l.get q) (l.get p) = false

/-! ### Relations that sort alike -/

section Congr

variable {r s : α → α → Prop} [DecidableRel r] [DecidableRel s]

theorem orderedInsert_congr {a : α} {l : List α} (h : ∀ b ∈ l, r a b ↔ s a b) :
    l.orderedInsert r a = l.orderedInsert s a := by
  induction l with
  | nil => rfl
  | cons b rest ih =>
    rw [List.forall_mem_cons] at h
    rw [List.orderedInsert, List.orderedInsert, ih h.2]
    exact if_congr h.1 rfl rfl

/-- By induction on the list: the head is compared with elements after it only. -/
theorem insertionSort_congr {l : List α} (h : l.Pairwise (fun a b => r a b ↔ s a b)) :
    l.insertionSort r = l.insertionSort s := by
  induction l with
  | nil => rfl
  | cons a rest ih =>
    obtain ⟨hhead, htail⟩ := List.pairwise_cons.mp h
    rw [List.insertionSort_cons, List.insertionSort_cons, ih htail]
    apply orderedInsert_congr
    intro b hb
    exact hhead b ((List.mem_insertionSort s).mp hb)

end Congr

/-! ### The order of positions -/

section Positions

variable (less : α → α → Bool) (l : List α)

/-- The element at the one position is not after the element at the other, and comes first in the
list if they tie. -/
def Precedes (p q : Fin l.length) : Prop :=
  less (l.get q) (l.get p) = false ∧ (less (l.get p) (l.get q) = false → p ≤ q)

instance : DecidableRel (Precedes less l) := fun _ _ => inferInstanceAs (Decidable (_ ∧ _))

variable {less l} (h : StrictWeakOrderingOn less l)

include h

theorem StrictWeakOrderingOn.precedes_total (p q : Fin l.length) :
    Precedes less l p q ∨ Precedes less l q p := by
  have hp := l.get_mem p
  have hq := l.get_mem q
  rcases Bool.eq_false_or_eq_true (less (l.get p) (l.get q)) with hpq | hpq
  · have hnot : ¬less (l.get p) (l.get q) = false := by rw [hpq]; decide
    exact Or.inl ⟨(h.total _ hp _ hq).resolve_right hnot, fun htie => absurd htie hnot⟩
  · rcases Bool.eq_false_or_eq_true (less (l.get q) (l.get p)) with hqp | hqp
    · have hnot : ¬less (l.get q) (l.get p) = false := by rw [hqp]; decide
      exact Or.inr ⟨hpq, fun htie => absurd htie hnot⟩
    · exact (le_total p q).imp (fun hle => ⟨hqp, fun _ => hle⟩) (fun hle => ⟨hpq, fun _ => hle⟩)

theorem StrictWeakOrderingOn.precedes_trans {p q r : Fin l.length}
    (hpq : Precedes less l p q) (hqr : Precedes less l q r) : Precedes less l p r := by
  have hp := l.get_mem p
  have hq := l.get_mem q
  have hr := l.get_mem r
  refine ⟨h.trans _ hp _ hq _ hr hpq.1 hqr.1, fun htie => ?_⟩
  -- a tie of the ends is a tie of both steps
  have hleft : less (l.get p) (l.get q) = false := h.trans _ hq _ hr _ hp hqr.1 htie
  have hright : less (l.get q) (l.get r) = false := h.trans _ hr _ hp _ hq htie hpq.1
  exact (hpq.2 hleft).trans (hqr.2 hright)

/-- **The first elements of a stable sort are a ranked prefix.**  The positions are sorted by a
total order; since they come in ascending order, ties never have to be looked at. -/
theorem StrictWeakOrderingOn.exists_rankedPrefix (count : ℕ) :
    ∃ positions, RankedPrefix less l count positions ∧
      (stableSort less l).take count = positions.map l.get := by
  have : Std.Total (Precedes less l) := ⟨h.precedes_total⟩
  have : IsTrans _ (Precedes less l) := ⟨fun _ _ _ => h.precedes_trans⟩
  let sorted := (List.finRange l.length).insertionSort (Precedes less l)
  have hperm : sorted.Perm (List.finRange l.length) := List.perm_insertionSort _ _
  have hnodup : sorted.Nodup := hperm.nodup_iff.mpr (List.nodup_finRange _)
  have hpairwise : sorted.Pairwise (Precedes less l) := List.pairwise_insertionSort _ _
  have hstable : stableSort less l = sorted.map l.get := by
    have hagree : (List.finRange l.length).Pairwise
        (fun p q => Precedes less l p q ↔ less (l.get q) (l.get p) = false) := by
      refine (List.pairwise_lt_finRange _).imp fun {p q} hlt => ?_
      exact and_iff_left fun _ => hlt.le
    rw [show sorted = _ from insertionSort_congr hagree, stableSort]
    rw [List.map_insertionSort _ (fun a b => less b a = false) _ _ (fun p _ q _ => Iff.rfl),
      List.map_get_finRange]
  refine ⟨sorted.take count, ⟨?_, hnodup.sublist (List.take_sublist _ _), ?_, ?_⟩, ?_⟩
  · rw [List.length_take, hperm.length_eq, List.length_finRange]
  · have hdistinct := hnodup.sublist (List.take_sublist count sorted)
    have hordered := hpairwise.sublist (List.take_sublist count sorted)
    refine (hordered.and hdistinct).imp fun {p q} hpq => ?_
    exact ⟨hpq.1.1, fun htie => lt_of_le_of_ne (hpq.1.2 htie) hpq.2⟩
  · intro p hp q hq
    have hmem : q ∈ sorted.take count ++ sorted.drop count := by
      rw [List.take_append_drop]
      exact hperm.mem_iff.mpr (List.mem_finRange q)
    have hsplit := hpairwise
    rw [← List.take_append_drop count sorted, List.pairwise_append] at hsplit
    exact (hsplit.2.2 p hp q ((List.mem_append.mp hmem).resolve_left hq)).1
  · rw [hstable, List.map_take]

end Positions

end Memorial.Library
