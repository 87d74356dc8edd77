import Mathlib.Data.List.Pairwise
import Mathlib.Data.List.Sort

/-!
# Lists in lexicographic order

An enumeration that extends every element of a list in turn keeps the list sorted: elements are
compared by keys, all of one length, and an extension has a key that starts with the key of what it
extends.

* `append_lt_append` — keys of one length that differ decide, whatever follows them;
* `pairwise_flatMap_extend` — **PROVED**: extending the elements of a sorted list gives a sorted
  list;
* `sublist_of_subset` — **PROVED**: of two strictly sorted lists, one with fewer elements is a
  sublist.
-/

namespace Memorial.Library

variable {α β : Type*}

/-- Keys of one length that differ decide. -/
theorem append_lt_append {a b : List ℕ} (hlength : a.length = b.length) (hlt : a < b)
    (c d : List ℕ) : a ++ c < b ++ d := by
  induction a generalizing b with
  | nil =>
    have hb : b = [] := List.length_eq_zero_iff.mp hlength.symm
    rw [hb] at hlt
    exact absurd hlt (List.lt_irrefl [])
  | cons x rest ih =>
    cases b with
    | nil => cases hlength
    | cons y rest' =>
      rw [List.cons_append, List.cons_append, List.cons_lt_cons_iff]
      rcases List.cons_lt_cons_iff.mp hlt with hxy | ⟨rfl, hrest⟩
      · exact Or.inl hxy
      · exact Or.inr ⟨rfl, ih (Nat.succ.inj hlength) hrest⟩

/-- **Extending the elements of a sorted list gives a sorted list**, if the extensions of each are
sorted. -/
theorem pairwise_flatMap_extend {key : α → List ℕ} {key' : β → List ℕ} {f : α → List β}
    {l : List α} {length : ℕ} (hlength : ∀ a ∈ l, (key a).length = length)
    (hsorted : l.Pairwise (fun a b => key a < key b))
    (hextends : ∀ a ∈ l, ∀ x ∈ f a, key a <+: key' x)
    (hextensions : ∀ a ∈ l, (f a).Pairwise (fun x y => key' x < key' y)) :
    (l.flatMap f).Pairwise (fun x y => key' x < key' y) := by
  rw [List.pairwise_flatMap]
  refine ⟨hextensions, List.Pairwise.imp_of_mem ?_ hsorted⟩
  intro a b ha hb hlt x hx y hy
  obtain ⟨c, hc⟩ := hextends a ha x hx
  obtain ⟨d, hd⟩ := hextends b hb y hy
  rw [← hc, ← hd]
  exact append_lt_append ((hlength a ha).trans (hlength b hb).symm) hlt c d

/-- **A strictly sorted list of some of the elements of another is a sublist of it.** -/
theorem sublist_of_subset {r : α → α → Prop} (hirrefl : ∀ a, ¬r a a)
    (htrans : ∀ a b c, r a b → r b c → r a c) {l l' : List α} (hl : l.Pairwise r)
    (hl' : l'.Pairwise r) (hsubset : l ⊆ l') : l.Sublist l' := by
  have hantisymm : Std.Antisymm r :=
    ⟨fun a b hab hba => absurd (htrans a b a hab hba) (hirrefl a)⟩
  have hnodup : l.Nodup := by
    refine hl.imp ?_
    intro a b hab heq
    rw [heq] at hab
    exact hirrefl b hab
  exact List.sublist_of_subperm_of_pairwise (List.subperm_of_subset hnodup hsubset) hl hl'

end Memorial.Library
