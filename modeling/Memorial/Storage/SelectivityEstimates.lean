import Memorial.Schema.MemorialSchema
import Memorial.Storage.Histogram
import Memorial.Storage.Session
import Memorial.Storage.StoreRuns

/-!
# Selectivity estimates

Which rows an estimate counts, for every column a store can hold.  The buckets always hold the
finite values and no estimate exceeds the number of rows; the rows that were not sampled are
counted as possible matches by every exit but one.  When all finite values are equal the estimate
leaves them out.

* `IsMinimum`, `IsMaximum` — **PROVED** (`extremes_observeColumn`): what the first loop finds;
* `CountsEveryRow` — what an estimate should promise;
* `HidesRows` — the columns that take the single-valued exit and have rows that were not sampled;
* `countsEveryRow_iff` — **PROVED**: the promise is kept exactly outside those columns;
* `estimate_le_rows` — **PROVED**: a chain never estimates more than its rows.
-/

namespace Memorial

open Library

/-! ### The range of a column -/

/-- The value is the smallest finite sample. -/
structure IsMinimum (samples : List (Floating binary64)) (value : Floating binary64) : Prop where
  mem : value ∈ samples
  finite : value.isFinite = true
  le : ∀ sample ∈ samples, sample.isFinite = true → value.toRat ≤ sample.toRat

/-- The value is the largest finite sample. -/
structure IsMaximum (samples : List (Floating binary64)) (value : Floating binary64) : Prop where
  mem : value ∈ samples
  finite : value.isFinite = true
  le : ∀ sample ∈ samples, sample.isFinite = true → sample.toRat ≤ value.toRat

/-- The range the first loop has found so far. -/
structure Extremes (state : Bool × PropertyHistogram doubleArithmetic)
    (samples : List (Floating binary64)) : Prop where
  minimum : state.1 = true → IsMinimum samples state.2.minimum
  maximum : state.1 = true → IsMaximum samples state.2.maximum

/-- What holds of the finite samples and of one more sample, if it is finite. -/
theorem forall_finite_append {samples : List (Floating binary64)} {sample : Floating binary64}
    {holds : Floating binary64 → Prop}
    (h : ∀ other ∈ samples, other.isFinite = true → holds other)
    (hsample : sample.isFinite = true → holds sample) :
    ∀ other ∈ samples ++ [sample], other.isFinite = true → holds other := by
  intro other hother hfinite
  rcases List.mem_append.mp hother with hold | hnew
  · exact h other hold hfinite
  · obtain rfl := List.mem_singleton.mp hnew
    exact hsample hfinite

theorem IsMinimum.skip {samples : List (Floating binary64)} {value sample : Floating binary64}
    (h : IsMinimum samples value) (hskip : sample.isFinite = true → value.toRat ≤ sample.toRat) :
    IsMinimum (samples ++ [sample]) value where
  mem := List.mem_append_left _ h.mem
  finite := h.finite
  le := forall_finite_append h.le hskip

theorem IsMinimum.take {samples : List (Floating binary64)} {sample : Floating binary64}
    (hfinite : sample.isFinite = true)
    (h : ∀ other ∈ samples, other.isFinite = true → sample.toRat ≤ other.toRat) :
    IsMinimum (samples ++ [sample]) sample where
  mem := List.mem_append_right _ (List.mem_singleton.mpr rfl)
  finite := hfinite
  le := forall_finite_append h fun _ => le_refl _

theorem IsMaximum.skip {samples : List (Floating binary64)} {value sample : Floating binary64}
    (h : IsMaximum samples value) (hskip : sample.isFinite = true → sample.toRat ≤ value.toRat) :
    IsMaximum (samples ++ [sample]) value where
  mem := List.mem_append_left _ h.mem
  finite := h.finite
  le := forall_finite_append h.le hskip

theorem IsMaximum.take {samples : List (Floating binary64)} {sample : Floating binary64}
    (hfinite : sample.isFinite = true)
    (h : ∀ other ∈ samples, other.isFinite = true → other.toRat ≤ sample.toRat) :
    IsMaximum (samples ++ [sample]) sample where
  mem := List.mem_append_right _ (List.mem_singleton.mpr rfl)
  finite := hfinite
  le := forall_finite_append h fun _ => le_refl _

theorem extremes_empty : Extremes (false, .empty) [] where
  minimum h := by cases h
  maximum h := by cases h

/-- One sample keeps the range right. -/
theorem Extremes.observe {state : Bool × PropertyHistogram doubleArithmetic}
    {samples : List (Floating binary64)} (h : Extremes state samples)
    (hobserved : PropertyHistogram.Observed state samples) (sample : Floating binary64) :
    Extremes (PropertyHistogram.observe state sample) (samples ++ [sample]) := by
  obtain ⟨initialized, histogram⟩ := state
  rw [PropertyHistogram.observe]
  show Extremes (if (!sample.isFinite) = true then _ else _) _
  cases hfinite : sample.isFinite with
  | false =>
    have hskip : ∀ p : Prop, sample.isFinite = true → p := by
      intro p hp
      rw [hfinite] at hp
      cases hp
    exact ⟨fun hinit => (h.minimum hinit).skip (hskip _),
      fun hinit => (h.maximum hinit).skip (hskip _)⟩
  | true =>
    cases initialized with
    | false =>
      -- the first finite sample is both ends
      have hnone : ∀ other ∈ samples, other.isFinite = true → False := by
        intro other hother hother'
        have hinit := hobserved.initialized.mpr ⟨other, hother, hother'⟩
        cases hinit
      exact ⟨fun _ => .take hfinite fun other hother hother' => (hnone other hother hother').elim,
        fun _ => .take hfinite fun other hother hother' => (hnone other hother hother').elim⟩
    | true =>
      have hminimum := h.minimum rfl
      have hmaximum := h.maximum rfl
      have hsample := Floating.isNumber_of_isFinite hfinite
      have hlow := lessThan_of_isNumber hsample (Floating.isNumber_of_isFinite hminimum.finite)
      have hhigh := lessThan_of_isNumber (Floating.isNumber_of_isFinite hmaximum.finite) hsample
      constructor
      · intro _
        show IsMinimum _ (if doubleArithmetic.lessThan sample histogram.minimum = true then sample
          else histogram.minimum)
        rw [hlow]
        split
        · rename_i hless
          have hless := of_decide_eq_true hless
          exact .take hfinite fun other hother hother' =>
            hless.le.trans (hminimum.le other hother hother')
        · rename_i hnot
          exact hminimum.skip fun _ => not_lt.mp fun hlt => hnot (decide_eq_true hlt)
      · intro _
        show IsMaximum _ (if doubleArithmetic.lessThan histogram.maximum sample = true then sample
          else histogram.maximum)
        rw [hhigh]
        split
        · rename_i hless
          have hless := of_decide_eq_true hless
          exact .take hfinite fun other hother hother' =>
            (hmaximum.le other hother hother').trans hless.le
        · rename_i hnot
          exact hmaximum.skip fun _ => not_lt.mp fun hlt => hnot (decide_eq_true hlt)

theorem Extremes.foldl {state : Bool × PropertyHistogram doubleArithmetic}
    {seen : List (Floating binary64)} (h : Extremes state seen)
    (hobserved : PropertyHistogram.Observed state seen) (samples : List (Floating binary64)) :
    Extremes (samples.foldl PropertyHistogram.observe state) (seen ++ samples) := by
  induction samples generalizing state seen with
  | nil =>
    rw [List.append_nil]
    exact h
  | cons sample rest ih =>
    rw [List.foldl_cons, List.append_cons]
    exact ih (h.observe hobserved sample) (hobserved.observe sample)

section Column

variable {P : ProgramTypes} {type : (cppTypes P).ValueType}
  {casts : ArithmeticCasts (Floating binary64) ((cppTypes P).carrier type)}

/-- **The range of a histogram is that of the finite values of its column.** -/
theorem extremes_build (hcasts : (cppTypes P).casts type = some casts)
    (values : List ((cppTypes P).carrier type))
    (havailable : (buildPropertyHistogram values).available = true) :
    IsMinimum (values.map casts.toDouble) (buildPropertyHistogram values).minimum ∧
      IsMaximum (values.map casts.toDouble) (buildPropertyHistogram values).maximum := by
  have hrange := sameRange_build hcasts values
  have hextremes : Extremes (observeColumn (C := cppTypes P) casts values)
      ([] ++ values.map casts.toDouble) :=
    extremes_empty.foldl PropertyHistogram.observed_empty _
  rw [hrange.available] at havailable
  rw [hrange.minimum, hrange.maximum]
  exact ⟨hextremes.minimum havailable, hextremes.maximum havailable⟩

/-- The single-valued exit is taken where all finite values are the same double. -/
theorem isSingleValued_iff (hcasts : (cppTypes P).casts type = some casts)
    (values : List ((cppTypes P).carrier type))
    (havailable : (buildPropertyHistogram values).available = true) :
    (buildPropertyHistogram values).isSingleValued = true ↔
      ∀ a ∈ values.map casts.toDouble, ∀ b ∈ values.map casts.toDouble,
        a.isFinite = true → b.isFinite = true → a.toRat = b.toRat := by
  obtain ⟨hminimum, hmaximum⟩ := extremes_build hcasts values havailable
  have hequal := equalTo_of_isNumber (Floating.isNumber_of_isFinite hminimum.finite)
    (Floating.isNumber_of_isFinite hmaximum.finite)
  show doubleArithmetic.equalTo _ _ = true ↔ _
  rw [hequal, decide_eq_true_iff]
  constructor
  · intro hsame a ha b hb hafinite hbfinite
    have halow := hminimum.le a ha hafinite
    have hahigh := hmaximum.le a ha hafinite
    have hblow := hminimum.le b hb hbfinite
    have hbhigh := hmaximum.le b hb hbfinite
    rw [← hsame] at hahigh hbhigh
    rw [hahigh.antisymm halow, hbhigh.antisymm hblow]
  · intro hall
    exact hall _ hminimum.mem _ hmaximum.mem hminimum.finite hmaximum.finite

end Column

/-! ### The promise -/

variable {P : ProgramTypes}

/-- The finite values of the column are one double, and the column has a value that is not
finite. -/
structure HidesRows (samples : List (Floating binary64)) : Prop where
  finite : ∃ sample ∈ samples, sample.isFinite = true
  unsampled : ∃ sample ∈ samples, sample.isFinite = false
  equal : ∀ a ∈ samples, ∀ b ∈ samples, a.isFinite = true → b.isFinite = true → a.toRat = b.toRat

/-- The buckets hold the finite values, and an estimate lies between the number of values that are
not finite and the number of rows, which it is for a predicate that is true everywhere. -/
structure CountsEveryRow {node : NodeSpec (cppTypes P)} (store : DeltaNodeStore node)
    (key : PropertyKey node.properties) (samples : List (Floating binary64)) : Prop where
  buckets : (store.propertyIndices key.index).histogram.total =
    samples.countP (fun sample => sample.isFinite)
  estimates : ∀ (Value : Type) (value : Value)
    (predicate : PropertyValue node.properties key.index → Value → Bool),
    ∃ estimate, store.estimatePropertyCandidates key value predicate = .ok estimate ∧
      estimate ≤ store.size ∧ samples.countP (fun sample => !sample.isFinite) ≤ estimate ∧
      ((∀ stored, predicate stored value = true) → estimate = store.size)

namespace DeltaNodeStore

/-- In a column that hides rows, a predicate that is true everywhere is estimated as the sampled
rows only. -/
theorem WellFormed.estimate_of_hidesRows {node : NodeSpec (cppTypes P)}
    {store : DeltaNodeStore node} (h : store.WellFormed) (hready : store.indicesReady = true)
    {key : PropertyKey node.properties}
    {casts : ArithmeticCasts (Floating binary64) (PropertyValue node.properties key.index)}
    (hcasts : (cppTypes P).casts (node.properties.get key.index).valueType = some casts)
    (hhides : HidesRows ((store.column key).map casts.toDouble)) {Value : Type} (value : Value)
    {predicate : PropertyValue node.properties key.index → Value → Bool}
    (hpredicate : ∀ stored, predicate stored value = true) :
    store.estimatePropertyCandidates key value predicate =
      .ok (((store.column key).map casts.toDouble).countP (fun sample => sample.isFinite)) := by
  have hsummary := summarizes_build hcasts (store.column key)
  have hsingle := isSingleValued_iff hcasts (store.column key)
  rw [← h.histogram_eq hready] at hsummary hsingle
  have havailable := hsummary.available.mpr hhides.finite
  rw [estimatePropertyCandidates_eq hready hcasts, PropertyHistogram.estimateWith_of_single
    havailable ((hsingle havailable).mpr hhides.equal) _ _ hpredicate, hsummary.sampled]

/-- **The promise is kept exactly outside the columns whose finite values are one double while
others are not finite.** -/
theorem WellFormed.countsEveryRow_iff {node : NodeSpec (cppTypes P)} {store : DeltaNodeStore node}
    (h : store.WellFormed) (hready : store.indicesReady = true)
    (key : PropertyKey node.properties)
    {casts : ArithmeticCasts (Floating binary64) (PropertyValue node.properties key.index)}
    (hcasts : (cppTypes P).casts (node.properties.get key.index).valueType = some casts) :
    CountsEveryRow store key ((store.column key).map casts.toDouble) ↔
      ¬HidesRows ((store.column key).map casts.toDouble) := by
  have hsummary := summarizes_build hcasts (store.column key)
  have hsingle := isSingleValued_iff hcasts (store.column key)
  rw [← h.histogram_eq hready] at hsummary hsingle
  have hsize : ((store.column key).map casts.toDouble).length = store.size := by
    rw [List.length_map]
    exact h.nodes.columns_length key.index
  constructor
  · intro hcounts hhides
    obtain ⟨estimate, hestimate, -, -, hall⟩ := hcounts.estimates Unit () (fun _ _ => true)
    rw [h.estimate_of_hidesRows hready hcasts hhides () (fun _ => rfl)] at hestimate
    have hsampled := Except.ok.inj hestimate
    have hrows := hall (fun _ => rfl)
    obtain ⟨sample, hsample, hfinite⟩ := hhides.unsampled
    have hpositive : 0 < ((store.column key).map casts.toDouble).countP
        (fun sample => !sample.isFinite) :=
      List.countP_pos_iff.mpr ⟨sample, hsample, by rw [hfinite]; rfl⟩
    rw [← hsummary.length_sub_sampledCount, hsummary.sampled, hsampled, hrows, hsize,
      Nat.sub_self] at hpositive
    exact absurd hpositive (lt_irrefl 0)
  · intro hshown
    have hfull : (store.propertyIndices key.index).histogram.available = true →
        (store.propertyIndices key.index).histogram.isSingleValued = true →
        (store.propertyIndices key.index).histogram.sampledCount =
          ((store.column key).map casts.toDouble).length := by
      intro havailable hsingleValued
      have hnone : ((store.column key).map casts.toDouble).countP
          (fun sample => !sample.isFinite) = 0 := by
        rw [List.countP_eq_zero]
        intro sample hsample hfinite
        exact hshown ⟨hsummary.available.mp havailable, ⟨sample, hsample, by simpa using hfinite⟩,
          (hsingle havailable).mp hsingleValued⟩
      have hunsampled := hsummary.length_sub_sampledCount
      have hle := hsummary.sampledCount_le
      rw [hnone] at hunsampled
      omega
    refine ⟨?_, ?_⟩
    · rw [hsummary.buckets, hsummary.sampled]
    · intro Value value predicate
      refine ⟨_, estimatePropertyCandidates_eq hready hcasts value predicate, ?_⟩
      rw [← hsize]
      exact ⟨hsummary.estimateWith_le _ _ _, hsummary.le_estimateWith _ _ _ hfull,
        hsummary.estimateWith_of_forall _ hfull⟩

/-- No estimate exceeds the number of rows, whatever the property. -/
theorem WellFormed.estimate_le_size {C : TypeSystem} {node : NodeSpec C}
    {store : DeltaNodeStore node} (h : store.WellFormed) {key : PropertyKey node.properties}
    {Value : Type} {value : Value}
    {predicate : PropertyValue node.properties key.index → Value → Bool} {estimate : ℕ}
    (hestimate : store.estimatePropertyCandidates key value predicate = .ok estimate) :
    estimate ≤ store.size := by
  cases hready : store.indicesReady with
  | false =>
    rw [estimatePropertyCandidates, hready] at hestimate
    cases hestimate
  | true =>
    cases hcasts : C.casts (node.properties.get key.index).valueType with
    | none =>
      rw [estimatePropertyCandidates, hready, hcasts] at hestimate
      exact (Except.ok.inj hestimate).ge
    | some casts =>
      have hsummary := summarizes_build hcasts (store.column key)
      rw [← h.histogram_eq hready] at hsummary
      have hsize : ((store.column key).map casts.toDouble).length = store.size := by
        rw [List.length_map]
        exact h.nodes.columns_length key.index
      rw [estimatePropertyCandidates_eq hready hcasts, ← hsize] at hestimate
      rw [← Except.ok.inj hestimate, ← hsize]
      exact hsummary.estimateWith_le _ _ _

end DeltaNodeStore

/-- **A chain never estimates more than its rows.** -/
theorem Snapshot.WellFormed.estimate_le_rows {C : TypeSystem} {S : GraphSchema C}
    {graph : Snapshot S} (h : graph.WellFormed) (tag : S.Tag) (key : GraphSchema.Key tag)
    {Value : Type} (value : Value) (predicate : GraphSchema.Value tag key → Value → Bool) :
    ∃ estimate, graph.estimatePropertyCandidates tag key value predicate = .ok estimate ∧
      estimate ≤ (graph.rowIds tag).length := by
  have hown : ∀ level : Level S, level.Published →
      ∃ own, (level.data.nodes tag).estimatePropertyCandidates key value predicate = .ok own ∧
        own ≤ (level.data.nodes tag).rowIds.length := by
    intro level published
    obtain ⟨own, hestimate⟩ := DeltaNodeStore.estimatePropertyCandidates_isOk
      (published.ready tag) key value predicate
    refine ⟨own, hestimate, ?_⟩
    rw [DeltaNodeStore.length_rowIds]
    exact (published.wellFormed.nodes tag).estimate_le_size hestimate
  induction h using WellFormed.chainInduction with
  | root level _ published =>
    obtain ⟨own, hestimate, hle⟩ := hown level published
    refine ⟨0 + own, by rw [estimatePropertyCandidates, hestimate]; rfl, ?_⟩
    rw [Nat.zero_add]
    exact hle
  | branch level parent _ published _ ih =>
    obtain ⟨inherited, hinherited, hinheritedLe⟩ := ih
    obtain ⟨own, hestimate, hle⟩ := hown level published
    refine ⟨inherited + own, by rw [estimatePropertyCandidates, hinherited, hestimate]; rfl, ?_⟩
    rw [rowIds, List.length_append]
    exact Nat.add_le_add hinheritedLe hle

/-- **Selectivity estimates of every program**: after every run of calls on a store the promise is
kept exactly outside the columns that hide rows, and no published chain estimates more than its
rows. -/
theorem estimates_count_every_row (P : ProgramTypes) :
    (∀ (node : NodeSpec (cppTypes P)) (idBase : ℕ) (calls : List (DeltaNodeStore.Call node))
        (key : PropertyKey node.properties)
        (casts : ArithmeticCasts (Floating binary64) (PropertyValue node.properties key.index)),
      (cppTypes P).casts (node.properties.get key.index).valueType = some casts →
      (run DeltaNodeStore.step (.empty idBase) calls).indicesReady = true →
      (CountsEveryRow (run DeltaNodeStore.step (.empty idBase) calls) key
          (((run DeltaNodeStore.step (.empty idBase) calls).column key).map casts.toDouble) ↔
        ¬HidesRows
          (((run DeltaNodeStore.step (.empty idBase) calls).column key).map casts.toDouble))) ∧
    ∀ (S : GraphSchema (cppTypes P)) (graph : Snapshot S), Session.Reachable graph →
      ∀ (tag : S.Tag) (key : GraphSchema.Key tag) (Value : Type) (value : Value)
        (predicate : GraphSchema.Value tag key → Value → Bool),
        ∃ estimate, graph.estimatePropertyCandidates tag key value predicate = .ok estimate ∧
          estimate ≤ (graph.rowIds tag).length := by
  refine ⟨?_, ?_⟩
  · intro node idBase calls key casts hcasts hready
    exact (DeltaNodeStore.storesRows_run idBase calls).wellFormed.countsEveryRow_iff hready key
      hcasts
  · intro S graph hgraph tag key Value value predicate
    exact (Session.wellFormed_of_reachable hgraph).estimate_le_rows tag key value predicate

/-! ### A column that hides a row -/

namespace Domain

open DeltaNodeStore

/-- The `float` 1. -/
def one : Floating binary32 :=
  .finite 1
    ⟨⟨1, 0, by norm_num [binary32], by norm_num [binary32], by norm_num⟩, by norm_num [binary32]⟩

def writeThought (activation : Floating binary32) : Call (GraphSchema.node thought) :=
  .append (Journal.thoughtRow Journal.actual) (thoughtValues activation .negativeZero) none

/-- Two thoughts, one with activation 1 and one with a NaN. -/
def hidingStore : DeltaNodeStore (GraphSchema.node thought) :=
  run step (.empty 0) [writeThought one, writeThought .nan, .buildIndices]

/-- The casts of a `float` column. -/
def floatCasts : ArithmeticCasts (Floating binary64) (Floating binary32) :=
  ⟨@staticCast (.floating .double) (.floating .float),
    @staticCast (.floating .float) (.floating .double)⟩

theorem casts_activation :
    domainTypes.casts ((GraphSchema.node thought).properties.get activation.index).valueType =
      some floatCasts := rfl

theorem column_hidingStore : hidingStore.column activation = [one, Floating.nan] := rfl

theorem binary32_embeds : binary32.Embeds binary64 :=
  ⟨by norm_num [binary32, binary64], by norm_num [binary32, binary64],
    by norm_num [binary32, binary64]⟩

theorem isNumber_one : (floatCasts.toDouble one).IsNumber 1 :=
  Floating.isNumber_convert_of_embeds binary32_embeds (⟨rfl, rfl⟩ : one.IsNumber 1)

theorem hidesRows_hidingStore :
    HidesRows ((hidingStore.column activation).map floatCasts.toDouble) := by
  rw [column_hidingStore]
  refine ⟨⟨_, List.mem_cons_self, isNumber_one.1⟩,
    ⟨Floating.nan, List.mem_cons_of_mem _ List.mem_cons_self, rfl⟩, ?_⟩
  have hone : ∀ a ∈ [floatCasts.toDouble one, Floating.nan], a.isFinite = true → a.toRat = 1 := by
    intro a ha hfinite
    rcases List.mem_cons.mp ha with rfl | ha
    · exact isNumber_one.2
    · rw [List.mem_singleton.mp ha] at hfinite
      cases hfinite
  intro a ha b hb hafinite hbfinite
  exact (hone a ha hafinite).trans (hone b hb hbfinite).symm

/-- The promise fails there: a predicate that is true of every value is estimated as one row of
two. -/
theorem hidingStore_estimate :
    hidingStore.indicesReady = true ∧ hidingStore.size = 2 ∧
      hidingStore.estimatePropertyCandidates activation () (fun _ _ => true) = .ok 1 ∧
      ¬CountsEveryRow hidingStore activation
        ((hidingStore.column activation).map floatCasts.toDouble) := by
  have hestimate :
      hidingStore.estimatePropertyCandidates activation () (fun _ _ => true) = .ok 1 := by
    have hwellFormed : hidingStore.WellFormed := (storesRows_run 0 _).wellFormed
    rw [hwellFormed.estimate_of_hidesRows rfl casts_activation hidesRows_hidingStore ()
      (fun _ => rfl)]
    show Except.ok (List.countP _ [floatCasts.toDouble one, Floating.nan]) = _
    rw [List.countP_cons_of_pos isNumber_one.1]
    rfl
  refine ⟨rfl, rfl, hestimate, ?_⟩
  intro hcounts
  obtain ⟨estimate, hestimate', -, -, hall⟩ := hcounts.estimates Unit () (fun _ _ => true)
  have hsame : 1 = estimate := Except.ok.inj (hestimate.symm.trans hestimate')
  have hsize : estimate = 2 := hall (fun _ => rfl)
  omega

def writeThoughtDelta (activation : Floating binary32) : DeltaStore.DeltaCall memorialSchema :=
  .appendNode thought (Journal.thoughtRow Journal.actual) (thoughtValues activation .negativeZero)
    none

/-- The same rows, published. -/
def hidingGraph : Snapshot memorialSchema :=
  .root ⟨⟨1⟩, Journal.actual, 15, 35,
    (run DeltaStore.applyCall .empty [writeThoughtDelta one, writeThoughtDelta .nan]).buildIndices⟩

theorem reachable_hidingGraph : Session.Reachable hidingGraph :=
  ⟨[.newDelta, .write 0 (writeThoughtDelta one), .write 0 (writeThoughtDelta .nan),
    .publish 0 ⟨1⟩ Journal.actual 15 35], List.mem_cons_self⟩

theorem estimates_count_every_row_hidingStore :
    ¬CountsEveryRow hidingStore activation
        ((hidingStore.column activation).map floatCasts.toDouble) ∧
      ∃ estimate, hidingGraph.estimatePropertyCandidates thought activation () (fun _ _ => true) =
        .ok estimate ∧ estimate ≤ (hidingGraph.rowIds thought).length :=
  ⟨fun hcounts =>
    ((estimates_count_every_row domainProgram).1 _ 0
      [writeThought one, writeThought .nan, .buildIndices] activation floatCasts casts_activation
      rfl).mp hcounts hidesRows_hidingStore,
    (estimates_count_every_row domainProgram).2 memorialSchema hidingGraph reachable_hidingGraph
      thought activation Unit () (fun _ _ => true)⟩

end Domain

end Memorial
