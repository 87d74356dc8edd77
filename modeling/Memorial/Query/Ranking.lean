import Memorial.Library.RankedPrefix
import Memorial.Query.Scan
import Memorial.Storage.SelectivityEstimates

/-!
# Ranking

What `top_k` returns, for every snapshot and every list of visible ids.  The comparator is the
built-in `<` or `>` of the property type, and an append accepts a NaN, so the comparator is not
always the strict weak ordering that sorting needs.

* `RanksCorrectly` — the comparator is a strict weak ordering in both directions, and the result is
  the ranked prefix of the input;
* `MixesNan` — the ranked values have a NaN, and two others that differ;
* `strictWeakOrderingOn_iff` — **PROVED**: the comparators are strict weak orderings exactly on the
  other lists;
* `ranksCorrectly_iff` — **PROVED**: `top_k` ranks correctly exactly on these.
-/

namespace Memorial.Query

open Library

/-! ### The result -/

section Result

variable {C : TypeSystem} {S : GraphSchema C}

/-- The vector `ranked`. -/
def rankedValues (graph : Snapshot S) {tag : S.Tag} (ranking : TopK tag) (input : List NodeId) :
    List (NodeId × GraphSchema.Value tag ranking.key) :=
  input.filterMap (withStored graph tag ranking.key)

/-- The comparator is a strict weak ordering on the ranked values in both directions, and the
result holds the ids at the positions of a ranked prefix. -/
structure RanksCorrectly (graph : Snapshot S) {tag : S.Tag} (ranking : TopK tag)
    (input : List NodeId) : Prop where
  ordering : ∀ direction,
    StrictWeakOrderingOn (rankedBefore direction) (rankedValues graph ranking input)
  ids : (rankedValues graph ranking input).map Prod.fst = input
  result : ∃ positions,
    RankedPrefix (rankedBefore ranking.direction) (rankedValues graph ranking input) ranking.count
        positions ∧
      rank graph ranking input =
        .ok (positions.map (fun position => ((rankedValues graph ranking input).get position).1))

theorem map_fst_rankedValues {graph : Snapshot S} (h : graph.WellFormed) {tag : S.Tag}
    (ranking : TopK tag) {input : List NodeId}
    (hinput : ∀ id ∈ input, graph.visible tag id = true) :
    (rankedValues graph ranking input).map Prod.fst = input := by
  induction input with
  | nil => rfl
  | cons id rest ih =>
    rw [List.forall_mem_cons] at hinput
    obtain ⟨value, hstored, -⟩ := h.property_eq hinput.1 ranking.key
    have hentry : withStored graph tag ranking.key id = some (id, value) := by
      rw [withStored, hstored]
      rfl
    rw [rankedValues, List.filterMap_cons_some hentry, List.map_cons]
    exact congrArg (id :: ·) (ih hinput.2)

/-- **Where the comparator is a strict weak ordering, the result is the ranked prefix.** -/
theorem ranksCorrectly_of_ordering {graph : Snapshot S} (h : graph.WellFormed) {tag : S.Tag}
    {ranking : TopK tag} {input : List NodeId}
    (hinput : ∀ id ∈ input, graph.visible tag id = true)
    (hordering : ∀ direction,
      StrictWeakOrderingOn (rankedBefore direction) (rankedValues graph ranking input)) :
    RanksCorrectly graph ranking input := by
  obtain ⟨positions, hprefix, htake⟩ :=
    (hordering ranking.direction).exists_rankedPrefix ranking.count
  refine ⟨hordering, map_fst_rankedValues h ranking hinput, positions, hprefix, ?_⟩
  have hscan : (Operation.topK ranking).scan stableSort graph input =
      ((stableSort (rankedBefore ranking.direction)
        (rankedValues graph ranking input)).take ranking.count).map Prod.fst := rfl
  rw [rank_eq h ranking hinput, hscan, htake, List.map_map]
  rfl

end Result

/-! ### The comparators of the built-in types -/

section Comparators

variable {P : ProgramTypes} {type : CppType P.Object}

/-- A value is a NaN. -/
def valueIsNan : {type : CppType P.Object} → (cppTypes P).carrier type → Bool
  | .arithmetic _, value => ArithmeticType.isNan value
  | .object _, _ => false

/-- The place of a value that is not a NaN. -/
def valuePlace : {type : CppType P.Object} → (cppTypes P).carrier type → WithBot (WithTop ℚ)
  | .arithmetic _, value => ArithmeticType.extended value
  | .object _, _ => ⊥

/-- A NaN among values of which two others differ. -/
structure MixesNan (values : List ((cppTypes P).carrier type)) : Prop where
  nan : ∃ value ∈ values, valueIsNan value = true
  differ : ∃ a ∈ values, ∃ b ∈ values,
    valueIsNan a = false ∧ valueIsNan b = false ∧ valuePlace a < valuePlace b

variable (htype : ∃ arithmetic, type = .arithmetic arithmetic)

include htype

theorem rankedBefore_ascending (x y : NodeId × (cppTypes P).carrier type) :
    rankedBefore .ascending x y = true ↔ valueIsNan x.2 = false ∧ valueIsNan y.2 = false ∧
      valuePlace x.2 < valuePlace y.2 := by
  obtain ⟨arithmetic, rfl⟩ := htype
  have hcompare : rankedBefore .ascending x y = _ :=
    @compareValues_self (fun a b => decide (a < b)) arithmetic x.2 y.2
  rw [hcompare]
  simp [valueIsNan, valuePlace, and_assoc]

theorem rankedBefore_descending (x y : NodeId × (cppTypes P).carrier type) :
    rankedBefore .descending x y = true ↔ valueIsNan x.2 = false ∧ valueIsNan y.2 = false ∧
      valuePlace y.2 < valuePlace x.2 := by
  obtain ⟨arithmetic, rfl⟩ := htype
  have hcompare : rankedBefore .descending x y = _ :=
    @compareValues_self (fun a b => decide (b < a)) arithmetic x.2 y.2
  rw [hcompare]
  simp [valueIsNan, valuePlace, and_assoc]

/-- Without a NaN the comparators order by place. -/
theorem strictWeakOrderingOn_of_no_nan {l : List (NodeId × (cppTypes P).carrier type)}
    (h : ∀ x ∈ l, valueIsNan x.2 = false) (direction : SortDirection) :
    StrictWeakOrderingOn (rankedBefore direction) l := by
  have hplace : StrictWeakOrdering (fun x y : NodeId × (cppTypes P).carrier type =>
      decide (valuePlace x.2 < valuePlace y.2)) := .of_key (fun _ _ => rfl)
  cases direction with
  | ascending =>
    refine (hplace.on l).congr ?_
    intro x hx y hy
    rw [Bool.eq_iff_iff, rankedBefore_ascending htype, decide_eq_true_iff]
    simp [h x hx, h y hy]
  | descending =>
    refine (hplace.flip.on l).congr ?_
    intro x hx y hy
    rw [Bool.eq_iff_iff, rankedBefore_descending htype, decide_eq_true_iff]
    simp [h x hx, h y hy]

/-- **The comparators are strict weak orderings exactly on the lists that do not mix a NaN with
different values.**  A NaN ties with everything, so ties are transitive only if all else ties. -/
theorem strictWeakOrderingOn_iff (l : List (NodeId × (cppTypes P).carrier type)) :
    (∀ direction, StrictWeakOrderingOn (rankedBefore direction) l) ↔
      ¬MixesNan (l.map Prod.snd) := by
  have hascending := rankedBefore_ascending htype
  have hdescending := rankedBefore_descending htype
  constructor
  · rintro hordering ⟨⟨_, hnan, hisNan⟩, ⟨_, ha, _, hb, hafinite, hbfinite, hlt⟩⟩
    obtain ⟨n, hn, rfl⟩ := List.mem_map.mp hnan
    obtain ⟨x, hx, rfl⟩ := List.mem_map.mp ha
    obtain ⟨y, hy, rfl⟩ := List.mem_map.mp hb
    have hless : rankedBefore .ascending x y = true := (hascending x y).mpr ⟨hafinite, hbfinite, hlt⟩
    have hleft : rankedBefore .ascending n y = false := by
      rw [← Bool.not_eq_true, hascending, hisNan]
      simp
    have hright : rankedBefore .ascending x n = false := by
      rw [← Bool.not_eq_true, hascending, hisNan]
      simp
    rw [(hordering .ascending).trans y hy n hn x hx hleft hright] at hless
    cases hless
  · intro hmixes direction
    by_cases hnan : ∃ x ∈ l, valueIsNan x.2 = true
    · -- everything ties
      obtain ⟨n, hn, hisNan⟩ := hnan
      have hties : ∀ x ∈ l, ∀ y ∈ l, rankedBefore direction x y = false := by
        intro x hx y hy
        rw [← Bool.not_eq_true]
        intro hbefore
        apply hmixes
        refine ⟨⟨n.2, List.mem_map_of_mem hn, hisNan⟩, ?_⟩
        cases direction with
        | ascending =>
          obtain ⟨hxfinite, hyfinite, hlt⟩ := (hascending x y).mp hbefore
          exact ⟨x.2, List.mem_map_of_mem hx, y.2, List.mem_map_of_mem hy, hxfinite, hyfinite, hlt⟩
        | descending =>
          obtain ⟨hxfinite, hyfinite, hlt⟩ := (hdescending x y).mp hbefore
          exact ⟨y.2, List.mem_map_of_mem hy, x.2, List.mem_map_of_mem hx, hyfinite, hxfinite, hlt⟩
      exact ⟨fun x hx y hy => Or.inl (hties y hy x hx),
        fun x hx y _ z hz _ _ => hties z hz x hx⟩
    · apply strictWeakOrderingOn_of_no_nan htype
      intro x hx
      rw [← Bool.not_eq_true]
      exact fun hisNan => hnan ⟨x, hx, hisNan⟩

end Comparators

/-- On visible ids `top_k` ranks correctly exactly if the values do not mix a NaN with different
ones. -/
theorem ranksCorrectly_iff {P : ProgramTypes} {S : GraphSchema (cppTypes P)} {graph : Snapshot S}
    (h : graph.WellFormed) {tag : S.Tag} {ranking : TopK tag} {arithmetic : ArithmeticType}
    (htype : ((GraphSchema.node tag).properties.get ranking.key.index).valueType =
      .arithmetic arithmetic)
    {input : List NodeId} (hinput : ∀ id ∈ input, graph.visible tag id = true) :
    RanksCorrectly graph ranking input ↔
      ¬MixesNan ((rankedValues graph ranking input).map Prod.snd) := by
  have hordering := strictWeakOrderingOn_iff ⟨arithmetic, htype⟩ (rankedValues graph ranking input)
  rw [← hordering]
  exact ⟨fun hranks => hranks.ordering, ranksCorrectly_of_ordering h hinput⟩

/-- **Ranking in every program**: on every reachable snapshot, every list of visible ids and every
property of an arithmetic type. -/
theorem top_k_ranks_correctly_iff (P : ProgramTypes) (S : GraphSchema (cppTypes P))
    (graph : Snapshot S) (hgraph : Session.Reachable graph) (tag : S.Tag) (ranking : TopK tag)
    (arithmetic : ArithmeticType)
    (htype : ((GraphSchema.node tag).properties.get ranking.key.index).valueType =
      .arithmetic arithmetic)
    (input : List NodeId) (hinput : ∀ id ∈ input, graph.visible tag id = true) :
    RanksCorrectly graph ranking input ↔
      ¬MixesNan ((rankedValues graph ranking input).map Prod.snd) :=
  ranksCorrectly_iff (Session.wellFormed_of_reachable hgraph) htype hinput

/-! ### Two numbers and a NaN -/

open Domain

/-- The `float` 2. -/
def two : Floating binary32 :=
  .finite 2
    ⟨⟨2, 0, by norm_num [binary32], by norm_num [binary32], by norm_num⟩, by norm_num [binary32]⟩

def nanWrites : List (DeltaStore.DeltaCall memorialSchema) :=
  [writeThoughtDelta one, writeThoughtDelta .nan, writeThoughtDelta two]

/-- Thoughts with the activations 1, NaN and 2. -/
def nanGraph : Snapshot memorialSchema :=
  .root ⟨⟨1⟩, Journal.actual, 15, 35, (run DeltaStore.applyCall .empty nanWrites).buildIndices⟩

theorem reachable_nanGraph : Session.Reachable nanGraph :=
  ⟨[.newDelta] ++ nanWrites.map (.write 0) ++ [.publish 0 ⟨1⟩ Journal.actual 15 35],
    List.mem_cons_self⟩

/-- `top_k<2>` of the activation, ascending. -/
def lowestTwo : TopK thought := ⟨2, activation, .ascending, Nat.two_pos, two_lt_size⟩

def nanInput : List NodeId := [⟨0⟩, ⟨1⟩, ⟨2⟩]

theorem valueType_lowestTwo :
    ((GraphSchema.node thought).properties.get lowestTwo.key.index).valueType =
      .arithmetic (.floating .float) := rfl

theorem visible_nanInput : ∀ id ∈ nanInput, nanGraph.visible thought id = true := by decide

theorem mixesNan_nanInput : MixesNan ((rankedValues nanGraph lowestTwo nanInput).map Prod.snd) := by
  have hvalues : (rankedValues nanGraph lowestTwo nanInput).map Prod.snd = [one, .nan, two] := rfl
  have hlt : (((1 : ℚ) : WithTop ℚ) : WithBot (WithTop ℚ)) < ((2 : ℚ) : WithTop ℚ) := by
    rw [WithBot.coe_lt_coe, WithTop.coe_lt_coe]
    norm_num
  rw [hvalues]
  exact ⟨⟨_, List.mem_cons_of_mem _ List.mem_cons_self, rfl⟩, ⟨_, List.mem_cons_self, _,
    List.mem_cons_of_mem _ (List.mem_cons_of_mem _ List.mem_cons_self), rfl, rfl, hlt⟩⟩

/-- **The comparator is not a strict weak ordering there**: 1 and 2 both tie with the NaN. -/
theorem not_ranksCorrectly_nanGraph :
    Session.Reachable nanGraph ∧ (∀ id ∈ nanInput, nanGraph.visible thought id = true) ∧
      ¬RanksCorrectly nanGraph lowestTwo nanInput :=
  ⟨reachable_nanGraph, visible_nanInput, fun hranks =>
    (ranksCorrectly_iff (Session.wellFormed_of_reachable reachable_nanGraph) valueType_lowestTwo
      visible_nanInput).mp hranks mixesNan_nanInput⟩

theorem top_k_ranks_correctly_iff_nanGraph : ¬RanksCorrectly nanGraph lowestTwo nanInput :=
  fun hranks =>
    (top_k_ranks_correctly_iff domainProgram memorialSchema nanGraph reachable_nanGraph thought
      lowestTwo (.floating .float) valueType_lowestTwo nanInput visible_nanInput).mp hranks
      mixesNan_nanInput

end Memorial.Query
