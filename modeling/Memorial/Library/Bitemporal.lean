import Memorial.Library.LastMatch

/-!
# Beliefs in two times

What holds at a point of one time is itself learnt at a point of another.  A revision says of some
points of the first time what holds there, and is known from some point of the second time on; where
revisions disagree, the one that was made last is believed.

* `Revision`, `revise`, `believe` — one revision, and all of them in the order they were made;
* `believe_apply` — **PROVED**: the belief at two points is the last revision that concerns them.
-/

namespace Memorial.Library

variable {V K α : Type*}

/-- What holds at some points of the first time, as it is known from `recorded` on. -/
structure Revision (V K α : Type*) where
  holds : V → Bool
  recorded : K
  value : α

variable [LE K] [DecidableLE K]

/-- The revision says something about `v`, and is known at `k`. -/
def Revision.concerns (revision : Revision V K α) (v : V) (k : K) : Bool :=
  revision.holds v && decide (revision.recorded ≤ k)

/-- One more revision, which is believed wherever it says something. -/
def revise (beliefs : V → K → Option α) (revision : Revision V K α) : V → K → Option α :=
  fun v k => if revision.concerns v k then some revision.value else beliefs v k

/-- All revisions, in the order they were made. -/
def believe (revisions : List (Revision V K α)) : V → K → Option α :=
  revisions.foldl revise (fun _ _ => none)

theorem believe_concat (revisions : List (Revision V K α)) (revision : Revision V K α) :
    believe (revisions ++ [revision]) = revise (believe revisions) revision := by
  simp only [believe, List.foldl_append, List.foldl_cons, List.foldl_nil]

/-- **The last revision that concerns two points is believed there.** -/
theorem believe_apply (revisions : List (Revision V K α)) (v : V) (k : K) :
    believe revisions v k =
      (revisions.filter (fun revision => revision.concerns v k)).getLast?.map Revision.value := by
  rw [← lastLoop_eq]
  induction revisions using List.reverseRecOn with
  | nil => rfl
  | append_singleton revisions revision ih =>
    rw [believe_concat, lastLoop_concat, ← ih]
    rfl

end Memorial.Library
