import Mathlib.Data.List.Infix
import Mathlib.Data.List.Perm.Subperm

/-!
# Counting list elements

How long a list can be, from what its elements are.

* `length_le_of_pairwise_lt` — **PROVED**: a list that ascends below a bound;
* `length_flatMap_filter_le` — **PROVED**: elements that are filed under different keys are counted
  once.
-/

namespace Memorial.Library

variable {α β : Type}

/-- A list that ascends below a bound is no longer than the bound. -/
theorem length_le_of_pairwise_lt {list : List α} {rank : α → ℕ} {bound : ℕ}
    (hascending : list.Pairwise (fun a b => rank a < rank b))
    (hbound : ∀ a ∈ list, rank a < bound) :
    list.length ≤ bound := by
  have hnodup : (list.map rank).Nodup := by
    rw [List.Nodup, List.pairwise_map]
    exact hascending.imp (fun hlt => hlt.ne)
  have hsubset : list.map rank ⊆ List.range bound := by
    intro n hn
    obtain ⟨a, ha, rfl⟩ := List.mem_map.mp hn
    exact List.mem_range.mpr (hbound a ha)
  have hlength := (List.subperm_of_subset hnodup hsubset).length_le
  rwa [List.length_map, List.length_range] at hlength

/-- Elements filed under different keys are counted once. -/
theorem length_flatMap_filter_le [DecidableEq β] (key : α → β)
    {filed : β → α → Bool} (hfiled : ∀ k a, filed k a = true → key a = k) {keys : List β}
    (hkeys : keys.Nodup) (list : List α) :
    (keys.flatMap (fun k => list.filter (filed k))).length ≤ list.length := by
  induction keys generalizing list with
  | nil => exact Nat.zero_le _
  | cons first rest ih =>
    obtain ⟨hfirst, hrest⟩ := List.nodup_cons.mp hkeys
    -- what is filed under the other keys is not filed under the first one
    have hothers : rest.flatMap (fun k => list.filter (filed k)) =
        rest.flatMap (fun k => (list.filter (fun a => !decide (key a = first))).filter
          (filed k)) := by
      apply List.flatMap_congr
      intro k hk
      rw [List.filter_filter]
      apply List.filter_congr
      intro a _
      cases hfound : filed k a with
      | false => rfl
      | true =>
        have hne : key a ≠ first := by
          intro heq
          rw [← heq, hfiled k a hfound] at hfirst
          exact hfirst hk
        rw [decide_eq_false hne]
        rfl
    have hown : (list.filter (filed first)).length ≤
        (list.filter (fun a => decide (key a = first))).length := by
      apply List.Sublist.length_le
      apply List.monotone_filter_right
      intro a hfound
      exact decide_eq_true (hfiled first a hfound)
    have hcount := List.length_eq_length_filter_add (l := list) (fun a => decide (key a = first))
    have hih := ih hrest (list.filter (fun a => !decide (key a = first)))
    rw [List.flatMap_cons, List.length_append, hothers]
    omega

end Memorial.Library
