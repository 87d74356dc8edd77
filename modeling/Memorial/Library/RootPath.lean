import Mathlib.Data.List.Infix
import Mathlib.Data.List.Chain

/-!
# Paths from a root

In a relation where every point has one parent at most and the root has none, there is one path at
most from the root to a point.

* `IsRooted`, `RootPath` — such a relation, and the paths in it;
* `RootPath.of_isChain` — a list along the relation is a path;
* `RootPath.unique`, `RootPath.mono` — **PROVED**: a point has one path, which a larger relation
  keeps;
* `RootPath.mem_iff` — **PROVED**: a point is on a path exactly if its own path is a prefix;
* `RootPath.exists_meet` — **PROVED**: what two paths have in common is a path.
-/

namespace Memorial.Library

variable {α : Type*} {parent parent' : α → α → Prop} {root : α}

/-- One parent at most, and none for the root. -/
structure IsRooted (parent : α → α → Prop) (root : α) : Prop where
  unique : ∀ {a b child}, parent a child → parent b child → a = b
  root : ∀ a, ¬parent a root

/-- The path from the root to a point, parent by parent. -/
inductive RootPath (parent : α → α → Prop) (root : α) : α → List α → Prop
  | root : RootPath parent root root [root]
  | child {a b : α} {path : List α} (h : RootPath parent root a path) (hparent : parent a b) :
      RootPath parent root b (path ++ [b])

namespace RootPath

variable {a b : α} {path path' : List α}

theorem self_mem (h : RootPath parent root a path) : a ∈ path := by
  cases h with
  | root => exact List.mem_singleton_self root
  | child h hparent => exact List.mem_concat_self

theorem root_mem (h : RootPath parent root a path) : root ∈ path := by
  induction h with
  | root => exact List.mem_singleton_self root
  | child h hparent ih => exact List.mem_append_left _ ih

/-- **A point has one path.**  By induction on one of two. -/
theorem unique (hrooted : IsRooted parent root) (h : RootPath parent root a path)
    (h' : RootPath parent root a path') : path = path' := by
  induction h generalizing path' with
  | root =>
    cases h' with
    | root => rfl
    | child _ hparent => exact absurd hparent (hrooted.root _)
  | child h hparent ih =>
    cases h' with
    | root => exact absurd hparent (hrooted.root _)
    | child h' hparent' =>
      obtain rfl := hrooted.unique hparent hparent'
      rw [ih h']

/-- A list from the root to a point, along the relation, is a path. -/
theorem of_isChain (hhead : path.head? = some root) (hlast : path.getLast? = some a)
    (hchain : path.IsChain parent) : RootPath parent root a path := by
  induction path using List.reverseRecOn generalizing a with
  | nil => cases hhead
  | append_singleton path b ih =>
    rw [List.getLast?_concat] at hlast
    obtain rfl := Option.some.inj hlast
    obtain ⟨hearlier, -, hparents⟩ := List.isChain_append.mp hchain
    cases hpath : path.getLast? with
    | none =>
      rw [List.getLast?_eq_none_iff.mp hpath] at hhead ⊢
      obtain rfl := Option.some.inj hhead
      exact .root
    | some c =>
      have hne : path ≠ [] := by
        rintro rfl
        cases hpath
      rw [List.head?_append_of_ne_nil _ hne] at hhead
      exact .child (ih hhead hpath hearlier) (hparents c hpath b rfl)

/-- A larger relation keeps the path. -/
theorem mono (hle : ∀ {a b}, parent a b → parent' a b) (h : RootPath parent root a path) :
    RootPath parent' root a path := by
  induction h with
  | root => exact .root
  | child h hparent ih => exact .child ih (hle hparent)

/-- A point on a path has a path of its own, which starts the other. -/
theorem exists_start (h : RootPath parent root b path) (ha : a ∈ path) :
    ∃ path', RootPath parent root a path' ∧ path' <+: path := by
  induction h with
  | root =>
    obtain rfl := List.mem_singleton.mp ha
    exact ⟨_, .root, List.prefix_rfl⟩
  | @child c d path h hparent ih =>
    rcases List.mem_append.mp ha with hearlier | hlast
    · obtain ⟨path', hpath', hstart⟩ := ih hearlier
      exact ⟨path', hpath', hstart.trans (List.prefix_append path [d])⟩
    · obtain rfl := List.mem_singleton.mp hlast
      exact ⟨_, .child h hparent, List.prefix_rfl⟩

/-- **A point is on a path exactly if its own path is a prefix.** -/
theorem mem_iff (hrooted : IsRooted parent root) (ha : RootPath parent root a path)
    (hb : RootPath parent root b path') : a ∈ path' ↔ path <+: path' := by
  constructor
  · intro hmem
    obtain ⟨path'', hpath'', hstart⟩ := hb.exists_start hmem
    rw [ha.unique hrooted hpath'']
    exact hstart
  · intro hstart
    exact hstart.subset ha.self_mem

/-- **What two paths have in common is a path**: that to the last point of the one that is on the
other.  By induction on the one. -/
theorem exists_meet (hrooted : IsRooted parent root) (ha : RootPath parent root a path)
    (hb : RootPath parent root b path') :
    ∃ meet common, RootPath parent root meet common ∧ meet ∈ path ∧
      ∀ c, c ∈ common ↔ c ∈ path ∧ c ∈ path' := by
  induction ha with
  | root =>
    refine ⟨root, [root], .root, List.mem_singleton_self root, ?_⟩
    intro c
    rw [List.mem_singleton, iff_self_and]
    rintro rfl
    exact hb.root_mem
  | @child d e path h hparent ih =>
    by_cases he : e ∈ path'
    · have hown := RootPath.child h hparent
      refine ⟨e, path ++ [e], hown, List.mem_concat_self, ?_⟩
      intro c
      rw [iff_self_and]
      intro hc
      exact ((hown.mem_iff hrooted hb).mp he).subset hc
    · obtain ⟨meet, common, hcommon, hmeet, hboth⟩ := ih
      refine ⟨meet, common, hcommon, List.mem_append_left _ hmeet, ?_⟩
      intro c
      rw [hboth, List.mem_append, List.mem_singleton]
      constructor
      · rintro ⟨hc, hc'⟩
        exact ⟨Or.inl hc, hc'⟩
      · rintro ⟨hc | rfl, hc'⟩
        · exact ⟨hc, hc'⟩
        · exact absurd hc' he

end RootPath

end Memorial.Library
