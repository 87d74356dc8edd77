import Memorial.Storage.DeltaNodeStore
import Mathlib.Algebra.BigOperators.Fin
import Mathlib.Algebra.Order.BigOperators.Group.Finset

/-!
# Property histograms

What `build_property_histogram` leaves behind for any column, and the estimate as a function of a
histogram.  Nothing is assumed about the arithmetic, so all of this holds whatever the bucketing
and the midpoints come out as.

* `estimateWith` — the estimate, for a cast back to the property type;
* `castDoubles` — the doubles it casts; `estimateCasting` — the estimate with a cast that may be
  undefined, **PROVED** (`isSome_estimateCasting`) to be defined exactly if those casts are;
* `Summarizes` — the sampled rows are the finite ones, each in one bucket;
* `summarizes_build` — **PROVED**: every histogram summarizes its column;
* `Summarizes.estimateWith_le` and the lemmas after it — the bounds of the estimate.
-/

namespace Memorial

namespace PropertyHistogram

variable {D : DoubleArithmetic} {carrier Value : Type}

/-! ### The estimate of a histogram -/

/-- `width`. -/
def width (histogram : PropertyHistogram D) : D.Double :=
  D.div (D.sub histogram.maximum histogram.minimum) (D.ofSize propertyHistogramBucketCount)

/-- `midpoint`. -/
def midpoint (histogram : PropertyHistogram D) (bucket : Fin propertyHistogramBucketCount) :
    D.Double :=
  D.add histogram.minimum (D.mul (D.add (D.ofSize bucket) D.half) histogram.width)

/-- The test for a single-valued column. -/
def isSingleValued (histogram : PropertyHistogram D) : Bool :=
  D.equalTo histogram.minimum histogram.maximum

/-- The four exits of `estimate_property_candidates` apart from the first, which needs no
histogram. -/
def estimateWith (histogram : PropertyHistogram D) (size : ℕ) (ofDouble : D.Double → carrier)
    (value : Value) (predicate : carrier → Value → Bool) : ℕ :=
  if !histogram.available then size
  else if histogram.isSingleValued then
    if predicate (ofDouble histogram.minimum) value then histogram.sampledCount else 0
  else
    (List.finRange propertyHistogramBucketCount).foldl
        (fun estimate bucket =>
          if predicate (ofDouble (histogram.midpoint bucket)) value then
            estimate + histogram.buckets bucket
          else estimate) 0 +
      (size - histogram.sampledCount)

/-- The same, where a cast may be undefined. -/
def estimateCasting (histogram : PropertyHistogram D) (size : ℕ)
    (cast : D.Double → Option carrier) (value : Value) (predicate : carrier → Value → Bool) :
    Option ℕ :=
  if !histogram.available then some size
  else if histogram.isSingleValued then do
    let common ← cast histogram.minimum
    return if predicate common value then histogram.sampledCount else 0
  else do
    let estimate ← (List.finRange propertyHistogramBucketCount).foldlM
      (fun estimate bucket => do
        let middle ← cast (histogram.midpoint bucket)
        return if predicate middle value then estimate + histogram.buckets bucket else estimate) 0
    return estimate + (size - histogram.sampledCount)

/-- The doubles that the estimate casts back to the property type, in order. -/
def castDoubles (histogram : PropertyHistogram D) : List D.Double :=
  if !histogram.available then []
  else if histogram.isSingleValued then [histogram.minimum]
  else (List.finRange propertyHistogramBucketCount).map histogram.midpoint

/-- A loop that may stop is the loop that does not, once every step is known to go on. -/
theorem foldlM_eq_some {α β γ : Type} {cast : α → Option β} {ofDouble : α → β} {point : γ → α}
    (next : ℕ → γ → β → ℕ) (l : List γ) (start : ℕ)
    (h : ∀ bucket ∈ l, cast (point bucket) = some (ofDouble (point bucket))) :
    l.foldlM (fun estimate bucket => do
        let middle ← cast (point bucket)
        return next estimate bucket middle) start =
      some (l.foldl (fun estimate bucket =>
        next estimate bucket (ofDouble (point bucket))) start) := by
  induction l generalizing start with
  | nil => rfl
  | cons bucket rest ih =>
    have hrest := fun other hother => h other (List.mem_cons_of_mem bucket hother)
    simp only [List.foldlM_cons, List.foldl_cons, h bucket List.mem_cons_self]
    exact ih _ hrest

/-- **Where its casts are defined, so is the estimate**, and it is the one the store returns. -/
theorem estimateCasting_eq_some (histogram : PropertyHistogram D) (size : ℕ)
    {cast : D.Double → Option carrier} {ofDouble : D.Double → carrier} (value : Value)
    (predicate : carrier → Value → Bool)
    (h : ∀ double ∈ histogram.castDoubles, cast double = some (ofDouble double)) :
    histogram.estimateCasting size cast value predicate =
      some (histogram.estimateWith size ofDouble value predicate) := by
  rw [castDoubles] at h
  rw [estimateCasting, estimateWith]
  cases havailable : histogram.available with
  | false => rfl
  | true =>
    rw [havailable] at h
    cases hsingle : histogram.isSingleValued with
    | true =>
      rw [hsingle] at h
      have hcast := h histogram.minimum List.mem_cons_self
      simp [hcast]
    | false =>
      rw [hsingle] at h
      have hcast : ∀ bucket ∈ List.finRange propertyHistogramBucketCount,
          cast (histogram.midpoint bucket) = some (ofDouble (histogram.midpoint bucket)) :=
        fun bucket hbucket => h _ (List.mem_map_of_mem hbucket)
      have hloop := foldlM_eq_some
        (fun estimate bucket middle =>
          if predicate middle value then estimate + histogram.buckets bucket else estimate)
        _ 0 hcast
      simp only [Bool.not_true, Bool.false_eq_true, if_false, hloop]
      rfl

/-- A loop goes to its end exactly if every cast is defined. -/
theorem isSome_foldlM_iff {α β γ : Type} {cast : α → Option β} {point : γ → α}
    (next : ℕ → γ → β → ℕ) (l : List γ) (start : ℕ) :
    (l.foldlM (fun estimate bucket => do
        let middle ← cast (point bucket)
        return next estimate bucket middle) start).isSome = true ↔
      ∀ bucket ∈ l, (cast (point bucket)).isSome = true := by
  induction l generalizing start with
  | nil => simp
  | cons first rest ih =>
    rw [List.foldlM_cons, List.forall_mem_cons]
    cases hcast : cast (point first) with
    | none => simp
    | some middle => simpa [hcast] using ih (next start first middle)

/-- **The estimate is defined exactly if its casts are**, for every predicate. -/
theorem isSome_estimateCasting (histogram : PropertyHistogram D) (size : ℕ)
    (cast : D.Double → Option carrier) (value : Value) (predicate : carrier → Value → Bool) :
    (histogram.estimateCasting size cast value predicate).isSome = true ↔
      ∀ double ∈ histogram.castDoubles, (cast double).isSome = true := by
  rw [estimateCasting, castDoubles]
  cases histogram.available with
  | false => simp
  | true =>
    cases histogram.isSingleValued with
    | true => cases hcast : cast histogram.minimum <;> simp [hcast]
    | false =>
      simp only [Bool.not_true, Bool.false_eq_true, if_false, List.forall_mem_map]
      rw [← isSome_foldlM_iff
        (fun estimate bucket middle =>
          if predicate middle value then estimate + histogram.buckets bucket else estimate) _ 0]
      simp only [bind_pure_comp, Option.map_eq_map, Option.isSome_map]

/-! ### What a histogram says about its column -/

/-- The number of samples in the buckets. -/
def total (histogram : PropertyHistogram D) : ℕ := ∑ bucket, histogram.buckets bucket

/-- The histogram is available where a sample is finite, counts the finite samples, and holds each
of them in one bucket. -/
structure Summarizes (histogram : PropertyHistogram D) (samples : List D.Double) : Prop where
  available : histogram.available = true ↔ ∃ sample ∈ samples, D.isFinite sample = true
  sampled : histogram.sampledCount = samples.countP D.isFinite
  buckets : histogram.total = histogram.sampledCount

/-- What the first loop knows about the samples behind it. -/
structure Observed (state : Bool × PropertyHistogram D) (samples : List D.Double) : Prop where
  initialized : state.1 = true ↔ ∃ sample ∈ samples, D.isFinite sample = true
  sampled : state.2.sampledCount = samples.countP D.isFinite
  buckets : state.2.buckets = fun _ => 0

theorem observed_empty : Observed ((false, .empty) : Bool × PropertyHistogram D) [] where
  initialized := by simp
  sampled := rfl
  buckets := rfl

theorem Observed.observe {state : Bool × PropertyHistogram D} {samples : List D.Double}
    (h : Observed state samples) (sample : D.Double) :
    Observed (observe state sample) (samples ++ [sample]) := by
  obtain ⟨initialized, histogram⟩ := state
  have hinitialized := h.initialized
  have hsampled := h.sampled
  rw [PropertyHistogram.observe]
  cases hfinite : D.isFinite sample with
  | false =>
    refine ⟨?_, ?_, h.buckets⟩
    · simpa [hfinite] using hinitialized
    · simpa [hfinite] using hsampled
  | true =>
    cases initialized with
    | false => exact ⟨by simp [hfinite], by simpa [hfinite] using hsampled, h.buckets⟩
    | true => exact ⟨by simp [hfinite], by simpa [hfinite] using hsampled, h.buckets⟩

theorem Observed.foldl {state : Bool × PropertyHistogram D} {seen : List D.Double}
    (h : Observed state seen) (samples : List D.Double) :
    Observed (samples.foldl PropertyHistogram.observe state) (seen ++ samples) := by
  induction samples generalizing state seen with
  | nil =>
    rw [List.append_nil]
    exact h
  | cons sample rest ih =>
    rw [List.foldl_cons, List.append_cons]
    exact ih (h.observe sample)

/-- The second loop adds one to one bucket for each finite sample, and changes nothing else. -/
theorem total_count (histogram : PropertyHistogram D) (sample : D.Double) :
    (histogram.count sample).total =
      histogram.total + if D.isFinite sample = true then 1 else 0 := by
  rw [count]
  cases D.isFinite sample with
  | false => simp
  | true =>
    show ∑ bucket, Function.update histogram.buckets _ _ bucket = _
    rw [Finset.sum_update_of_mem (Finset.mem_univ _), total,
      ← Finset.add_sum_erase _ _ (Finset.mem_univ (histogram.bucketOf sample)),
      Finset.sdiff_singleton_eq_erase]
    simp only [if_true]
    omega

/-- The fields that the second loop leaves alone. -/
structure SameRange (a b : PropertyHistogram D) : Prop where
  sampledCount : a.sampledCount = b.sampledCount
  minimum : a.minimum = b.minimum
  maximum : a.maximum = b.maximum
  available : a.available = b.available

theorem sameRange_count (histogram : PropertyHistogram D) (sample : D.Double) :
    SameRange (histogram.count sample) histogram := by
  rw [count]
  split <;> exact ⟨rfl, rfl, rfl, rfl⟩

theorem sameRange_foldl_count (histogram : PropertyHistogram D) (samples : List D.Double) :
    SameRange (samples.foldl count histogram) histogram := by
  induction samples generalizing histogram with
  | nil => exact ⟨rfl, rfl, rfl, rfl⟩
  | cons sample rest ih =>
    have hrest := ih (histogram.count sample)
    have hfirst := sameRange_count histogram sample
    exact ⟨hrest.sampledCount.trans hfirst.sampledCount, hrest.minimum.trans hfirst.minimum,
      hrest.maximum.trans hfirst.maximum, hrest.available.trans hfirst.available⟩

theorem total_foldl_count (histogram : PropertyHistogram D) (samples : List D.Double) :
    (samples.foldl count histogram).total = histogram.total + samples.countP D.isFinite := by
  induction samples generalizing histogram with
  | nil => simp
  | cons sample rest ih =>
    rw [List.foldl_cons, ih, total_count, List.countP_cons]
    omega

/-! ### The bounds of the estimate -/

/-- The loop over the buckets is a sum. -/
theorem foldl_add_if (selected : Fin propertyHistogramBucketCount → Bool)
    (count : Fin propertyHistogramBucketCount → ℕ)
    (l : List (Fin propertyHistogramBucketCount)) (start : ℕ) :
    l.foldl (fun estimate bucket =>
        if selected bucket = true then estimate + count bucket else estimate) start =
      start + (l.map (fun bucket => if selected bucket = true then count bucket else 0)).sum := by
  induction l generalizing start with
  | nil => rfl
  | cons bucket rest ih =>
    rw [List.foldl_cons, ih, List.map_cons, List.sum_cons]
    split <;> omega

/-- The buckets whose midpoint satisfies the predicate. -/
def selectedTotal (histogram : PropertyHistogram D) (ofDouble : D.Double → carrier)
    (value : Value) (predicate : carrier → Value → Bool) : ℕ :=
  ∑ bucket, if predicate (ofDouble (histogram.midpoint bucket)) value = true then
    histogram.buckets bucket else 0

theorem estimateWith_eq (histogram : PropertyHistogram D) (size : ℕ)
    (ofDouble : D.Double → carrier) (value : Value) (predicate : carrier → Value → Bool) :
    histogram.estimateWith size ofDouble value predicate =
      if !histogram.available then size
      else if histogram.isSingleValued then
        if predicate (ofDouble histogram.minimum) value then histogram.sampledCount else 0
      else
        histogram.selectedTotal ofDouble value predicate + (size - histogram.sampledCount) := by
  rw [estimateWith, foldl_add_if, selectedTotal, Fin.sum_univ_def, Nat.zero_add]

theorem selectedTotal_le (histogram : PropertyHistogram D) (ofDouble : D.Double → carrier)
    (value : Value) (predicate : carrier → Value → Bool) :
    histogram.selectedTotal ofDouble value predicate ≤ histogram.total := by
  apply Finset.sum_le_sum
  intro bucket _
  split
  · exact le_rfl
  · exact Nat.zero_le _

theorem selectedTotal_of_forall (histogram : PropertyHistogram D) (ofDouble : D.Double → carrier)
    {value : Value} {predicate : carrier → Value → Bool}
    (h : ∀ stored, predicate stored value = true) :
    histogram.selectedTotal ofDouble value predicate = histogram.total := by
  simp [selectedTotal, total, h]

/-- In the single-valued exit a predicate that is true everywhere is estimated as the rows that were
sampled. -/
theorem estimateWith_of_single {histogram : PropertyHistogram D}
    (havailable : histogram.available = true) (hsingle : histogram.isSingleValued = true)
    (size : ℕ) (ofDouble : D.Double → carrier) {value : Value}
    {predicate : carrier → Value → Bool} (hpredicate : ∀ stored, predicate stored value = true) :
    histogram.estimateWith size ofDouble value predicate = histogram.sampledCount := by
  rw [estimateWith_eq, havailable, hsingle, hpredicate]
  rfl

section Bounds

variable {histogram : PropertyHistogram D} {samples : List D.Double}
  (h : histogram.Summarizes samples)
  (ofDouble : D.Double → carrier) (value : Value) (predicate : carrier → Value → Bool)

include h

theorem Summarizes.sampledCount_le : histogram.sampledCount ≤ samples.length := by
  rw [h.sampled]
  exact List.countP_le_length

/-- **An estimate is at most the number of rows.** -/
theorem Summarizes.estimateWith_le :
    histogram.estimateWith samples.length ofDouble value predicate ≤ samples.length := by
  have hsampled := h.sampledCount_le
  have hselected := histogram.selectedTotal_le ofDouble value predicate
  rw [h.buckets] at hselected
  rw [estimateWith_eq]
  split
  · exact le_rfl
  · split
    · split <;> omega
    · omega

/-- The rows that were not sampled. -/
theorem Summarizes.length_sub_sampledCount :
    samples.length - histogram.sampledCount = samples.countP (fun sample => !D.isFinite sample) := by
  have hlength := List.length_eq_countP_add_countP D.isFinite (l := samples)
  have hnot : samples.countP (fun sample => ¬D.isFinite sample = true) =
      samples.countP (fun sample => !D.isFinite sample) := by
    congr 1
    funext sample
    simp
  rw [h.sampled]
  omega

/-- Where the single-valued exit leaves no row out, the rows that were not sampled are counted. -/
theorem Summarizes.le_estimateWith
    (hfull : histogram.available = true → histogram.isSingleValued = true →
      histogram.sampledCount = samples.length) :
    samples.countP (fun sample => !D.isFinite sample) ≤
      histogram.estimateWith samples.length ofDouble value predicate := by
  rw [← h.length_sub_sampledCount, estimateWith_eq]
  cases havailable : histogram.available with
  | false => exact Nat.sub_le _ _
  | true =>
    cases hsingle : histogram.isSingleValued with
    | true =>
      rw [hfull havailable hsingle, Nat.sub_self]
      exact Nat.zero_le _
    | false => exact Nat.le_add_left _ _

/-- There, a predicate that is true everywhere is estimated as every row. -/
theorem Summarizes.estimateWith_of_forall
    (hfull : histogram.available = true → histogram.isSingleValued = true →
      histogram.sampledCount = samples.length)
    {value : Value} {predicate : carrier → Value → Bool}
    (hpredicate : ∀ stored, predicate stored value = true) :
    histogram.estimateWith samples.length ofDouble value predicate = samples.length := by
  have hsampled := h.sampledCount_le
  cases havailable : histogram.available with
  | false =>
    rw [estimateWith_eq, havailable]
    rfl
  | true =>
    cases hsingle : histogram.isSingleValued with
    | true =>
      rw [estimateWith_of_single havailable hsingle _ _ hpredicate]
      exact hfull havailable hsingle
    | false =>
      rw [estimateWith_eq, havailable, hsingle, selectedTotal_of_forall _ _ hpredicate, h.buckets]
      simp only [Bool.not_true, Bool.false_eq_true, if_false]
      omega

end Bounds

end PropertyHistogram

/-! ### Histograms of columns -/

section Column

variable {C : TypeSystem} {type : C.ValueType}
  {casts : ArithmeticCasts C.arithmetic.Double (C.carrier type)}

/-- The state the first loop ends in. -/
def observeColumn (casts : ArithmeticCasts C.arithmetic.Double (C.carrier type))
    (values : List (C.carrier type)) : Bool × PropertyHistogram C.arithmetic :=
  (values.map casts.toDouble).foldl PropertyHistogram.observe (false, .empty)

theorem observed_observeColumn (values : List (C.carrier type)) :
    PropertyHistogram.Observed (observeColumn casts values) (values.map casts.toDouble) :=
  PropertyHistogram.observed_empty.foldl _

theorem buildPropertyHistogram_eq (hcasts : C.casts type = some casts)
    (values : List (C.carrier type)) :
    buildPropertyHistogram values =
      if !(observeColumn casts values).1 then
        { (observeColumn casts values).2 with available := (observeColumn casts values).1 }
      else
        (values.map casts.toDouble).foldl PropertyHistogram.count
          { (observeColumn casts values).2 with available := (observeColumn casts values).1 } := by
  rw [buildPropertyHistogram, hcasts]
  rfl

/-- The range a histogram ends with is the one the first loop found. -/
theorem sameRange_build (hcasts : C.casts type = some casts) (values : List (C.carrier type)) :
    PropertyHistogram.SameRange (buildPropertyHistogram values)
      { (observeColumn casts values).2 with available := (observeColumn casts values).1 } := by
  rw [buildPropertyHistogram_eq hcasts]
  split
  · exact ⟨rfl, rfl, rfl, rfl⟩
  · exact PropertyHistogram.sameRange_foldl_count _ _

/-- **Every histogram summarizes its column.** -/
theorem summarizes_build (hcasts : C.casts type = some casts) (values : List (C.carrier type)) :
    (buildPropertyHistogram values).Summarizes (values.map casts.toDouble) := by
  have hobserved : PropertyHistogram.Observed (observeColumn casts values) _ :=
    observed_observeColumn values
  have hrange := sameRange_build hcasts values
  refine ⟨?_, ?_, ?_⟩
  · rw [hrange.available]
    exact hobserved.initialized
  · rw [hrange.sampledCount]
    exact hobserved.sampled
  · have hzero : ∀ available : Bool, PropertyHistogram.total
        { (observeColumn casts values).2 with available := available } = 0 := by
      intro available
      simp [PropertyHistogram.total, hobserved.buckets]
    rw [hrange.sampledCount, buildPropertyHistogram_eq hcasts]
    show _ = (observeColumn casts values).2.sampledCount
    rw [hobserved.sampled]
    split
    · -- no sample is finite, so none was to be counted
      rename_i hnone
      rw [hzero, eq_comm, List.countP_eq_zero]
      intro sample hsample hfinite
      have hinitialized := hobserved.initialized.mpr ⟨sample, hsample, hfinite⟩
      simp [hinitialized] at hnone
    · rw [PropertyHistogram.total_foldl_count, hzero, Nat.zero_add]

end Column

namespace DeltaNodeStore

variable {C : TypeSystem} {node : NodeSpec C}

/-- The values of a column. -/
abbrev column (store : DeltaNodeStore node) (key : PropertyKey node.properties) :
    List (PropertyValue node.properties key.index) :=
  store.nodes.columns key.index

/-- The estimate of a store is that of its histogram. -/
theorem estimatePropertyCandidates_eq {store : DeltaNodeStore node}
    (hready : store.indicesReady = true) {key : PropertyKey node.properties}
    {casts : ArithmeticCasts C.arithmetic.Double (PropertyValue node.properties key.index)}
    (hcasts : C.casts (node.properties.get key.index).valueType = some casts) {Value : Type}
    (value : Value) (predicate : PropertyValue node.properties key.index → Value → Bool) :
    store.estimatePropertyCandidates key value predicate =
      .ok ((store.propertyIndices key.index).histogram.estimateWith store.size casts.ofDouble
        value predicate) := by
  rw [estimatePropertyCandidates, hready, hcasts, PropertyHistogram.estimateWith,
    PropertyHistogram.isSingleValued, apply_ite Except.ok, apply_ite Except.ok]
  rfl

/-- The histogram of a ready index is the one of the current column. -/
theorem WellFormed.histogram_eq {store : DeltaNodeStore node} (h : store.WellFormed)
    (hready : store.indicesReady = true) (key : PropertyKey node.properties) :
    (store.propertyIndices key.index).histogram = buildPropertyHistogram (store.column key) := by
  conv_lhs => rw [← h.ready hready]
  rfl

end DeltaNodeStore

end Memorial
