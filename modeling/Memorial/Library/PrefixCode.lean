import Mathlib.Data.List.Basic
import Mathlib.Data.List.Infix

/-!
# Prefix codes

An encoding of values as lists of symbols is a prefix code when it is injective and no codeword
begins another.  Concatenated codewords then parse in one way only, without a decoder.

* `IsPrefixCode` — injective and prefix-free;
* `IsPrefixCode.unique`, `IsPrefixCode.of_unique` — **PROVED**: the same said of concatenations;
* `comap`, `const_append`, `append`, `keyed`, `of_length` — **PROVED**: the rules for composed
  encodings;
* `flatMap_unique` — **PROVED**: lists of equal length under a prefix code;
* `word_unique` — **PROVED**: a word without a mark, in front of something whose second symbol is
  the mark.
-/

namespace Memorial.Library

variable {α β γ κ : Type*}

/-- Injective, and no codeword begins another one. -/
structure IsPrefixCode (encode : α → List β) : Prop where
  injective : Function.Injective encode
  prefixFree : ∀ a b, encode a <+: encode b → encode a = encode b

namespace IsPrefixCode

variable {encode : α → List β}

/-! ### Concatenations -/

/-- **What begins with a codeword begins with one codeword only.** -/
theorem unique (h : IsPrefixCode encode) {a b : α} {rest rest' : List β}
    (heq : encode a ++ rest = encode b ++ rest') : a = b ∧ rest = rest' := by
  have ha : encode a <+: encode b ++ rest' := ⟨rest, heq⟩
  have hb : encode b <+: encode b ++ rest' := List.prefix_append _ _
  have hab : a = b := by
    rcases List.prefix_or_prefix_of_prefix ha hb with hprefix | hprefix
    · exact h.injective (h.prefixFree a b hprefix)
    · exact (h.injective (h.prefixFree b a hprefix)).symm
  refine ⟨hab, ?_⟩
  rw [hab] at heq
  exact List.append_cancel_left heq

/-- An encoding whose concatenations parse in one way is a prefix code. -/
theorem of_unique
    (h : ∀ a b (rest rest' : List β), encode a ++ rest = encode b ++ rest' → a = b) :
    IsPrefixCode encode where
  injective a b heq := h a b [] [] (by rw [heq])
  prefixFree a b hprefix := by
    obtain ⟨rest, hrest⟩ := hprefix
    have hab : a = b := h a b rest [] (by rw [hrest, List.append_nil])
    rw [hab]

/-! ### Rules -/

/-- Codewords of one length. -/
theorem of_length {n : ℕ} (hlength : ∀ a, (encode a).length = n)
    (hinjective : Function.Injective encode) : IsPrefixCode encode where
  injective := hinjective
  prefixFree a b hprefix := hprefix.eq_of_length ((hlength a).trans (hlength b).symm)

/-- The codewords of the images under an injective function. -/
theorem comap (h : IsPrefixCode encode) {f : γ → α} (hf : Function.Injective f) :
    IsPrefixCode (fun c => encode (f c)) :=
  of_unique (fun _ _ _ _ heq => hf (h.unique heq).1)

/-- The same symbols before every codeword. -/
theorem const_append (h : IsPrefixCode encode) (tag : List β) :
    IsPrefixCode (fun a => tag ++ encode a) := by
  refine of_unique ?_
  intro a b rest rest' heq
  rw [List.append_assoc, List.append_assoc] at heq
  exact (h.unique (List.append_cancel_left heq)).1

/-- A codeword of the value's key, and then symbols that tell values with one key apart. -/
theorem keyed {encodeKey : κ → List β} (hkey : IsPrefixCode encodeKey) (key : α → κ)
    (body : α → List β)
    (hbody : ∀ a b (rest rest' : List β), key a = key b → body a ++ rest = body b ++ rest' →
      a = b) : IsPrefixCode (fun a => encodeKey (key a) ++ body a) := by
  refine of_unique ?_
  intro a b rest rest' heq
  rw [List.append_assoc, List.append_assoc] at heq
  obtain ⟨hkeys, hrest⟩ := hkey.unique heq
  exact hbody a b rest rest' hkeys hrest

/-- One codeword after another. -/
theorem append {encode' : γ → List β} (h : IsPrefixCode encode) (h' : IsPrefixCode encode') :
    IsPrefixCode (fun p : α × γ => encode p.1 ++ encode' p.2) := by
  refine h.keyed Prod.fst (fun p => encode' p.2) ?_
  intro p q rest rest' hfirst heq
  exact Prod.ext hfirst (h'.unique heq).1

/-- Lists of one length, codeword by codeword. -/
theorem flatMap_unique (h : IsPrefixCode encode) {l l' : List α} (rest rest' : List β)
    (hlength : l.length = l'.length)
    (heq : l.flatMap encode ++ rest = l'.flatMap encode ++ rest') : l = l' ∧ rest = rest' := by
  induction l generalizing l' with
  | nil =>
    obtain rfl := List.length_eq_zero_iff.mp hlength.symm
    exact ⟨rfl, heq⟩
  | cons a l ih =>
    cases l' with
    | nil => cases hlength
    | cons b l' =>
      rw [List.flatMap_cons, List.flatMap_cons, List.append_assoc, List.append_assoc] at heq
      obtain ⟨hab, hrest⟩ := h.unique heq
      obtain ⟨hl, hrests⟩ := ih (Nat.succ.inj hlength) hrest
      exact ⟨by rw [hab, hl], hrests⟩

end IsPrefixCode

/-! ### Words in front of a mark -/

/-- Nothing, or a symbol that the mark follows and that is not the mark itself. -/
def StartsMarked (mark : β) (symbols : List β) : Prop :=
  symbols = [] ∨ ∃ symbol rest, symbol ≠ mark ∧ symbols = symbol :: mark :: rest

namespace StartsMarked

variable {mark symbol : β} {rest : List β}

theorem ne_mark_cons (h : StartsMarked mark rest) (more : List β) : rest ≠ mark :: more := by
  rintro rfl
  rcases h with hnil | ⟨first, _, hfirst, hmore⟩
  · cases hnil
  · exact hfirst (List.cons_eq_cons.mp hmore).1.symm

/-- The second symbol is the mark. -/
theorem second (h : StartsMarked mark (symbol :: rest)) : ∃ more, rest = mark :: more := by
  rcases h with hnil | ⟨_, more, -, hmore⟩
  · cases hnil
  · exact ⟨more, (List.cons_eq_cons.mp hmore).2⟩

/-- With a symbol and a word without the mark in front of it, the mark is no longer second. -/
theorem not_cons_append {word : List β} (hword : mark ∉ word) (hrest : StartsMarked mark rest) :
    ¬ StartsMarked mark (symbol :: (word ++ rest)) := by
  intro h
  obtain ⟨more, hmore⟩ := h.second
  cases word with
  | nil => exact hrest.ne_mark_cons more hmore
  | cons first word =>
    obtain ⟨rfl, -⟩ := List.cons_eq_cons.mp hmore
    exact hword List.mem_cons_self

end StartsMarked

/-- **A word without the mark ends where the symbol in front of the first mark stands.**  By
induction on the word. -/
theorem word_unique {mark : β} {word word' rest rest' : List β} (hword : mark ∉ word)
    (hword' : mark ∉ word') (hrest : StartsMarked mark rest) (hrest' : StartsMarked mark rest')
    (heq : word ++ rest = word' ++ rest') : word = word' ∧ rest = rest' := by
  induction word generalizing word' with
  | nil =>
    cases word' with
    | nil => exact ⟨rfl, heq⟩
    | cons symbol word' =>
      have hnot := List.not_mem_of_not_mem_cons hword'
      have hmarked : StartsMarked mark (symbol :: (word' ++ rest')) := by
        rw [← List.cons_append, ← heq]
        exact hrest
      exact absurd hmarked (hrest'.not_cons_append hnot)
  | cons symbol word ih =>
    have hnot := List.not_mem_of_not_mem_cons hword
    cases word' with
    | nil =>
      have hmarked : StartsMarked mark (symbol :: (word ++ rest)) := by
        rw [← List.cons_append, heq]
        exact hrest'
      exact absurd hmarked (hrest.not_cons_append hnot)
    | cons symbol' word' =>
      have hnot' := List.not_mem_of_not_mem_cons hword'
      obtain ⟨hsymbol, htail⟩ := List.cons_eq_cons.mp heq
      obtain ⟨hwords, hrests⟩ := ih hnot hnot' htail
      exact ⟨by rw [hsymbol, hwords], hrests⟩

end Memorial.Library
