import Mathlib.Data.List.Forall2
import Mathlib.Data.List.Induction

/-!
# Loops that remember one element

Two loops over a list: one keeps the last element that a test accepts, the other replaces what it
keeps only by an element that beats it.

* `lastLoop`, `lastLoop_eq` — the last accepted element, through a function;
* `bestLoop`, `bestLoop_eq` — **PROVED**: where later accepted elements beat earlier ones, the best
  element is the last one;
* `lastLoop_rel`, `bestLoop_rel` — **PROVED**: the loops on two lists whose elements correspond.
-/

namespace Memorial.Library

variable {α β : Type*}

/-- Keep the image of the last element that the test accepts. -/
def lastLoop (accepts : α → Bool) (f : α → β) (l : List α) : Option β :=
  l.foldl (fun kept a => if accepts a then some (f a) else kept) none

/-- Keep the accepted element that no later accepted element beats. -/
def bestLoop (accepts : α → Bool) (beats : α → α → Bool) (l : List α) : Option α :=
  l.foldl (fun kept a => if accepts a && kept.all (fun best => beats a best) then some a else kept)
    none

theorem lastLoop_concat (accepts : α → Bool) (f : α → β) (l : List α) (a : α) :
    lastLoop accepts f (l ++ [a]) = if accepts a then some (f a) else lastLoop accepts f l := by
  rw [lastLoop, List.foldl_append]
  rfl

theorem bestLoop_concat (accepts : α → Bool) (beats : α → α → Bool) (l : List α) (a : α) :
    bestLoop accepts beats (l ++ [a]) =
      if accepts a && (bestLoop accepts beats l).all (fun best => beats a best) then some a
      else bestLoop accepts beats l := by
  rw [bestLoop, List.foldl_append]
  rfl

theorem filter_concat (accepts : α → Bool) (l : List α) (a : α) :
    (l ++ [a]).filter accepts =
      if accepts a then l.filter accepts ++ [a] else l.filter accepts := by
  rw [List.filter_append]
  by_cases haccepts : accepts a = true
  · rw [if_pos haccepts, List.filter_cons_of_pos haccepts, List.filter_nil]
  · rw [if_neg haccepts, List.filter_cons_of_neg haccepts, List.filter_nil, List.append_nil]

theorem lastLoop_eq (accepts : α → Bool) (f : α → β) (l : List α) :
    lastLoop accepts f l = (l.filter accepts).getLast?.map f := by
  induction l using List.reverseRecOn with
  | nil => rfl
  | append_singleton l a ih =>
    rw [lastLoop_concat, filter_concat]
    by_cases haccepts : accepts a = true
    · rw [if_pos haccepts, if_pos haccepts, List.getLast?_concat]
      rfl
    · rw [if_neg haccepts, if_neg haccepts]
      exact ih

/-- **The best accepted element is the last one**, where later ones beat earlier ones. -/
theorem bestLoop_eq {accepts : α → Bool} {beats : α → α → Bool} {l : List α}
    (h : (l.filter accepts).Pairwise (fun earlier later => beats later earlier = true)) :
    bestLoop accepts beats l = (l.filter accepts).getLast? := by
  induction l using List.reverseRecOn with
  | nil => rfl
  | append_singleton l a ih =>
    rw [filter_concat] at h
    rw [bestLoop_concat, filter_concat]
    by_cases haccepts : accepts a = true
    · rw [if_pos haccepts] at h
      obtain ⟨hkept, -, hbeats⟩ := List.pairwise_append.mp h
      -- what is kept is one of the accepted elements before `a`
      have hall : (bestLoop accepts beats l).all (fun best => beats a best) = true := by
        rw [ih hkept]
        cases hlast : (l.filter accepts).getLast? with
        | none => rfl
        | some best =>
          exact hbeats best (List.mem_of_getLast? hlast) a (List.mem_singleton_self a)
      rw [if_pos (by rw [haccepts, hall]; rfl), if_pos haccepts, List.getLast?_concat]
    · rw [if_neg haccepts] at h
      rw [if_neg (by simp [haccepts]), if_neg haccepts]
      exact ih h

/-! ### Two lists -/

variable {γ : Type*} {rel : α → β → Prop} {l : List α} {l' : List β}

theorem any_rel (h : List.Forall₂ rel l l') {accepts : α → Bool} {accepts' : β → Bool}
    (haccepts : ∀ a b, rel a b → accepts a = accepts' b) : l.any accepts = l'.any accepts' := by
  induction h with
  | nil => rfl
  | cons hab _ ih => rw [List.any_cons, List.any_cons, haccepts _ _ hab, ih]

theorem lastLoop_rel (h : List.Forall₂ rel l l') {accepts : α → Bool} {accepts' : β → Bool}
    (haccepts : ∀ a b, rel a b → accepts a = accepts' b) {f : α → γ} {f' : β → γ}
    (hf : ∀ a b, rel a b → f a = f' b) : lastLoop accepts f l = lastLoop accepts' f' l' := by
  refine List.rel_foldl (P := Eq) (R := rel) ?_ rfl h
  rintro kept _ rfl a b hab
  simp only [haccepts a b hab, hf a b hab]

theorem bestLoop_rel (h : List.Forall₂ rel l l') {accepts : α → Bool} {accepts' : β → Bool}
    (haccepts : ∀ a b, rel a b → accepts a = accepts' b) {beats : α → α → Bool}
    {beats' : β → β → Bool}
    (hbeats : ∀ a b a' b', rel a b → rel a' b' → beats a a' = beats' b b') :
    Option.Rel rel (bestLoop accepts beats l) (bestLoop accepts' beats' l') := by
  refine List.rel_foldl (P := Option.Rel rel) (R := rel) ?_ .none h
  intro kept kept' hkept a b hab
  have hall : kept.all (fun best => beats a best) = kept'.all (fun best => beats' b best) := by
    cases hkept with
    | none => rfl
    | some hbest => exact hbeats _ _ _ _ hab hbest
  simp only [haccepts a b hab, hall]
  split
  · exact .some hab
  · exact hkept

end Memorial.Library
