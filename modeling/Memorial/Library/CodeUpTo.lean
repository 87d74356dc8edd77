import Memorial.Library.PrefixCode
import Mathlib.Data.List.Forall2

/-!
# Codes up to an equivalence

An encoding that forgets something on purpose: the codewords of two values are the same exactly if
the values agree in what is kept, and concatenated codewords still parse in one way only.

* `IsCodeUpTo` — what an encoding keeps;
* `IsPrefixCode.isCodeUpTo` — **PROVED**: a prefix code keeps everything;
* `comap`, `const_append`, `append`, `flatMap_iff` — **PROVED**: the rules for composed encodings.
-/

namespace Memorial.Library

variable {α β γ : Type*}

/-- What follows two codewords is the same, and the codewords are of values that agree. -/
def IsCodeUpTo (same : α → α → Prop) (encode : α → List β) : Prop :=
  ∀ a b (rest rest' : List β), encode a ++ rest = encode b ++ rest' ↔ same a b ∧ rest = rest'

/-- A prefix code keeps everything. -/
theorem IsPrefixCode.isCodeUpTo {encode : α → List β} (h : IsPrefixCode encode) :
    IsCodeUpTo Eq encode := by
  intro a b rest rest'
  refine ⟨h.unique, ?_⟩
  rintro ⟨rfl, rfl⟩
  rfl

namespace IsCodeUpTo

variable {same : α → α → Prop} {encode : α → List β}

/-- The codewords of images agree when the images do. -/
theorem comap (h : IsCodeUpTo same encode) (f : γ → α) :
    IsCodeUpTo (fun a b => same (f a) (f b)) (fun c => encode (f c)) :=
  fun a b => h (f a) (f b)

/-- The same symbols before every codeword. -/
theorem const_append (h : IsCodeUpTo same encode) (tag : List β) :
    IsCodeUpTo same (fun a => tag ++ encode a) := by
  intro a b rest rest'
  rw [List.append_assoc, List.append_assoc, List.append_right_inj]
  exact h a b rest rest'

/-- One codeword after another. -/
theorem append {same' : γ → γ → Prop} {encode' : γ → List β} (h : IsCodeUpTo same encode)
    (h' : IsCodeUpTo same' encode') :
    IsCodeUpTo (fun p q : α × γ => same p.1 q.1 ∧ same' p.2 q.2)
      (fun p => encode p.1 ++ encode' p.2) := by
  intro p q rest rest'
  rw [List.append_assoc, List.append_assoc, h, h', and_assoc]

/-- What values that agree have in common is known from the relation alone. -/
theorem congr {same' : α → α → Prop} (h : IsCodeUpTo same encode)
    (hsame : ∀ a b, same a b ↔ same' a b) : IsCodeUpTo same' encode := by
  intro a b rest rest'
  rw [h, hsame]

/-- **Lists of one length, codeword by codeword.** -/
theorem flatMap_iff (h : IsCodeUpTo same encode) {l l' : List α} (hlength : l.length = l'.length)
    (rest rest' : List β) :
    l.flatMap encode ++ rest = l'.flatMap encode ++ rest' ↔
      List.Forall₂ same l l' ∧ rest = rest' := by
  induction l generalizing l' with
  | nil =>
    obtain rfl := List.length_eq_zero_iff.mp hlength.symm
    exact (and_iff_right .nil).symm
  | cons a l ih =>
    cases l' with
    | nil => cases hlength
    | cons b l' =>
      rw [List.flatMap_cons, List.flatMap_cons, List.append_assoc, List.append_assoc, h,
        ih (Nat.succ.inj hlength), List.forall₂_cons, and_assoc]

end IsCodeUpTo

end Memorial.Library
