import Mathlib.Data.Finset.Card
import Mathlib.Data.List.AList

/-!
# Maps from keys to growing vectors

An index of the form "key to the list of values filed under it", kept as an association list.
A missing key and a key with an empty vector read the same through `find`, and differ only in
the number of entries — which is what a lookup that creates entries on access leaves behind.

* `find`, `touch`, `pushBack`, `popBack` — reading, the entry-creating access, and the two ends
  of a vector update;
* `group` — the index built by filing a list of pairs in order;
* `find_group` — **PROVED**: the index returns, under each key, the filed values in order;
* `keySet` — the keys that have an entry, and what each update does to them;
* `longest`, `longest_le_iff` — the length of the longest vector, which empty entries do not change.
-/

namespace Memorial.Library

/-- A map from keys to vectors. -/
abbrev VectorMap (κ ν : Type*) := AList (fun _ : κ => List ν)

namespace VectorMap

variable {κ ν : Type*} [DecidableEq κ]

/-- The vector filed under a key; a missing key has the empty vector. -/
def find (m : VectorMap κ ν) (k : κ) : List ν := (m.lookup k).getD []

/-- The entry-creating access: a missing key gets an empty vector. -/
def touch (m : VectorMap κ ν) (k : κ) : VectorMap κ ν :=
  match m.lookup k with
  | some _ => m
  | none => m.insert k []

/-- Append a value to the vector of a key. -/
def pushBack (m : VectorMap κ ν) (k : κ) (v : ν) : VectorMap κ ν :=
  m.insert k (m.find k ++ [v])

/-- Drop the last value of the vector of a key. -/
def popBack (m : VectorMap κ ν) (k : κ) : VectorMap κ ν :=
  m.insert k (m.find k).dropLast

@[simp]
theorem find_empty (k : κ) : find (∅ : VectorMap κ ν) k = [] := rfl

theorem find_insert (m : VectorMap κ ν) (k j : κ) (l : List ν) :
    find (m.insert k l) j = if j = k then l else m.find j := by
  unfold find
  split
  · rename_i hj
    rw [hj, AList.lookup_insert]
    rfl
  · rename_i hj
    rw [AList.lookup_insert_ne hj]

@[simp]
theorem find_touch (m : VectorMap κ ν) (k j : κ) : (m.touch k).find j = m.find j := by
  unfold touch
  split
  · rfl
  · rename_i hnone
    rw [find_insert]
    split
    · rename_i hj
      rw [hj, find, hnone]
      rfl
    · rfl

theorem find_pushBack (m : VectorMap κ ν) (k j : κ) (v : ν) :
    (m.pushBack k v).find j = if j = k then m.find k ++ [v] else m.find j :=
  find_insert m k j _

/-- Popping right after pushing restores what every key reads. -/
theorem find_popBack_pushBack (m : VectorMap κ ν) (k j : κ) (v : ν) :
    ((m.pushBack k v).popBack k).find j = m.find j := by
  rw [popBack, find_insert, find_pushBack, find_pushBack, if_pos rfl, List.dropLast_concat]
  split
  · rename_i hj
    rw [hj]
  · rfl

/-- The index that files the pairs in order. -/
def group (pairs : List (κ × ν)) : VectorMap κ ν :=
  pairs.foldl (fun m p => m.pushBack p.1 p.2) ∅

theorem find_foldl_pushBack (pairs : List (κ × ν)) (m : VectorMap κ ν) (k : κ) :
    (pairs.foldl (fun m p => m.pushBack p.1 p.2) m).find k =
      m.find k ++ (pairs.filter (fun p => p.1 = k)).map Prod.snd := by
  induction pairs generalizing m with
  | nil => simp
  | cons p rest ih =>
    rw [List.foldl_cons, ih, find_pushBack, List.filter_cons]
    by_cases hk : p.1 = k
    · simp [hk]
    · simp [hk, Ne.symm hk]

/-- **The index is exact**: under each key it returns the filed values in order. -/
theorem find_group (pairs : List (κ × ν)) (k : κ) :
    (group pairs).find k = (pairs.filter (fun p => p.1 = k)).map Prod.snd := by
  rw [group, find_foldl_pushBack, find_empty, List.nil_append]

/-- A missing key reads as the empty vector. -/
theorem find_of_lookup_eq_none {m : VectorMap κ ν} {k : κ} (h : m.lookup k = none) :
    m.find k = [] := by
  rw [find, h]
  rfl

theorem find_of_lookup_eq_some {m : VectorMap κ ν} {k : κ} {l : List ν}
    (h : m.lookup k = some l) : m.find k = l := by
  rw [find, h]
  rfl

/-! ### Entries -/

/-- The keys that have an entry, be it an empty vector. -/
def keySet (m : VectorMap κ ν) : Finset κ := m.keys.toFinset

@[simp]
theorem mem_keySet {m : VectorMap κ ν} {k : κ} : k ∈ m.keySet ↔ k ∈ m := by
  rw [keySet, List.mem_toFinset, AList.mem_keys]

theorem length_entries (m : VectorMap κ ν) : m.entries.length = m.keySet.card := by
  rw [keySet, List.toFinset_card_of_nodup m.keys_nodup, AList.keys, List.keys, List.length_map]

theorem keySet_insert (m : VectorMap κ ν) (k : κ) (l : List ν) :
    keySet (m.insert k l) = insert k m.keySet := by
  ext j
  rw [Finset.mem_insert, mem_keySet, mem_keySet, AList.mem_insert]

theorem keySet_touch (m : VectorMap κ ν) (k : κ) : (m.touch k).keySet = insert k m.keySet := by
  rw [touch]
  split
  · rename_i l hfound
    have hk : k ∈ m := AList.lookup_isSome.mp (by rw [hfound]; rfl)
    exact (Finset.insert_eq_of_mem (mem_keySet.mpr hk)).symm
  · exact keySet_insert m k []

/-- The length of the longest vector. -/
def longest (m : VectorMap κ ν) : ℕ :=
  m.entries.foldl (fun maximum entry => max maximum entry.2.length) 0

theorem foldl_max_le_iff {α : Type*} (f : α → ℕ) (l : List α) (start bound : ℕ) :
    l.foldl (fun maximum a => max maximum (f a)) start ≤ bound ↔
      start ≤ bound ∧ ∀ a ∈ l, f a ≤ bound := by
  induction l generalizing start with
  | nil => simp
  | cons a rest ih =>
    rw [List.foldl_cons, ih, List.forall_mem_cons, max_le_iff, and_assoc]

theorem longest_le_iff (m : VectorMap κ ν) (bound : ℕ) :
    m.longest ≤ bound ↔ ∀ k, (m.find k).length ≤ bound := by
  rw [longest, foldl_max_le_iff, and_iff_right (Nat.zero_le bound)]
  constructor
  · intro hentries k
    cases hlookup : m.lookup k with
    | none =>
      rw [find_of_lookup_eq_none hlookup]
      exact Nat.zero_le bound
    | some l =>
      rw [find_of_lookup_eq_some hlookup]
      exact hentries ⟨k, l⟩ (AList.mem_lookup_iff.mp hlookup)
  · intro hfind entry hentry
    have hlookup : m.lookup entry.1 = some entry.2 := AList.mem_lookup_iff.mpr hentry
    rw [← find_of_lookup_eq_some hlookup]
    exact hfind entry.1

end VectorMap

end Memorial.Library
