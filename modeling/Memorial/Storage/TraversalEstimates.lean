import Memorial.Library.Counting
import Memorial.Storage.DeltaInvariants
import Memorial.Storage.FailedEdgeAppend
import Memorial.Storage.HistogramCasts
import Mathlib.Algebra.Order.Ring.Pow

/-!
# Estimates of traversals

The number of rows that a traversal is expected to yield: the number of its sources times the
average out-degree, summed over the levels of the chain, in doubles and rounded up.  The sums and
quotients are rounded on the way, and rounding up makes good for that as long as there are fewer
edges times levels than a double has digits for.

* `relationAverageDegree`, `estimateTraversalCardinality` — the estimate;
* `AverageWithin`, `averageWithin` — **PROVED**: the average degree in bounds, by induction on the
  chain;
* `length_storedEdges_le_estimate` — **PROVED**: the estimate counts every edge if no level has more
  sources than there are rows;
* `isSome_castDefined_scaledDegree` — **PROVED**: casting the estimate back never leaves the range;
* `castToSize` — the cast, and **PROVED** (`toSize_of_castToSize`) to be that of the model.
-/

namespace Memorial

open Library BinaryFormat

namespace Snapshot

variable {C : TypeSystem} {S : GraphSchema C}

/-! ### The estimate -/

/-- `relation_average_degree`. -/
def relationAverageDegree : Snapshot S → S.Edge → C.arithmetic.Double
  | .root level, edge => (level.data.edges edge).degreeStatistics.averageOutDegree
  | .branch level parent, edge =>
    C.arithmetic.add (level.data.edges edge).degreeStatistics.averageOutDegree
      (parent.relationAverageDegree edge)

/-- The product of `estimate_traversal_cardinality`, rounded up by `std::ceil`. -/
def scaledDegree (ceil : C.arithmetic.Double → C.arithmetic.Double) (graph : Snapshot S)
    (edge : S.Edge) (sourceCount : ℕ) : C.arithmetic.Double :=
  ceil (C.arithmetic.mul (C.arithmetic.ofSize sourceCount) (graph.relationAverageDegree edge))

/-- `estimate_traversal_cardinality`. -/
def estimateTraversalCardinality (ceil : C.arithmetic.Double → C.arithmetic.Double)
    (graph : Snapshot S) (edge : S.Edge) (sourceCount : ℕ) : ℕ :=
  C.arithmetic.toSize (graph.scaledDegree ceil edge sourceCount)

/-! ### Statistics of a published level -/

/-- Publication leaves the statistics of the edges it publishes. -/
theorem statistics_of_reachable {graph : Snapshot S} (hgraph : Session.Reachable graph)
    {level : Level S} (hlevel : level ∈ graph.levels) (edge : S.Edge) :
    (level.data.edges edge).degreeStatistics = (level.data.edges edge).statistics := by
  have htrivial : DeltaInvariant (fun _ _ => True) (fun _ : DeltaStore S => True) :=
    ⟨trivial, fun _ _ => trivial, fun _ _ _ _ _ => trivial⟩
  obtain ⟨delta, -, -, hdata⟩ := htrivial.of_reachable hgraph level hlevel
  rw [hdata]
  rfl

/-- Stored edges have valid ids. -/
theorem WellFormed.isValid_of_mem_storedEdges {graph : Snapshot S} (h : graph.WellFormed)
    {edge : S.Edge} {e : StoredEdge} (he : e ∈ graph.storedEdges edge) : e.id.isValid = true := by
  have hlevel : ∀ {level : Level S}, level.Published → e ∈ (level.data.edges edge).storedEdges →
      e.id.isValid = true := fun published hmem =>
    IdRange.isValid_of_contains ((published.wellFormed.edges edge).contains_of_mem hmem)
  induction h using WellFormed.chainInduction with
  | root _ _ published => exact hlevel published he
  | branch _ _ _ published _ ih =>
    rcases List.mem_append.mp he with hparent | hown
    · exact ih hparent
    · exact hlevel published hown

/-- There are no more stored edges than ids below the extent, nor than ids. -/
theorem WellFormed.length_storedEdges_le {graph : Snapshot S} (h : graph.WellFormed)
    (edge : S.Edge) :
    (graph.storedEdges edge).length ≤ graph.edgeExtent edge ∧
      (graph.storedEdges edge).length ≤ StrongId.capacity 32 := by
  have hpairwise := h.storedEdges_pairwise edge
  exact ⟨length_le_of_pairwise_lt hpairwise fun e he => h.id_lt_edgeExtent he,
    length_le_of_pairwise_lt hpairwise fun e he =>
      StrongId.isValid_iff.mp (h.isValid_of_mem_storedEdges he)⟩

end Snapshot

/-! ### The average degree in bounds -/

/-- The relative error of rounding to a double. -/
def roundingUnit : ℚ := 2 ^ (-53 : ℤ)

/-- Rounding loses no more than the unit, on zero and on what is not tiny. -/
theorem mul_le_round {q : ℚ} (hq : q = 0 ∨ 2 ^ (-32 : ℤ) ≤ q) :
    q * (1 - roundingUnit) ≤ binary64.round q := by
  rcases hq with rfl | hlarge
  · rw [round_of_representable representable_zero, zero_mul]
  · have hpos : 0 < q := lt_of_lt_of_le (two_zpow_pos _) hlarge
    have hlog : -32 ≤ Int.log 2 q := by
      rw [← Int.zpow_le_iff_le_log (by norm_num) hpos]
      exact_mod_cast hlarge
    refine le_round_of_pos hpos ?_
    show (-1074 : ℤ) ≤ Int.log 2 q + 1 - ((53 : ℕ) : ℤ)
    omega

/-- The average degree of `edges` edges in `levels` levels, for a number of rows: not tiny, not
above the number of edges, and times the rows almost that number. -/
structure AverageWithin (rows edges levels : ℕ) (average : ℚ) : Prop where
  large : average = 0 ∨ 2 ^ (-32 : ℤ) ≤ average
  le : average ≤ edges
  ge : edges * (1 - roundingUnit) ^ levels ≤ rows * average

theorem roundingUnit_bounds : 0 ≤ 1 - roundingUnit ∧ 1 - roundingUnit ≤ 1 := by
  constructor <;> norm_num [roundingUnit]

theorem AverageWithin.nonneg {rows edges levels : ℕ} {average : ℚ}
    (h : AverageWithin rows edges levels average) : 0 ≤ average := by
  rcases h.large with rfl | hlarge
  · exact le_rfl
  · exact (two_zpow_pos _).le.trans hlarge

/-- A sum of numbers that are not tiny is not tiny, and neither is its rounding. -/
theorem large_round {q : ℚ} (hq : q = 0 ∨ 2 ^ (-32 : ℤ) ≤ q) :
    binary64.round q = 0 ∨ 2 ^ (-32 : ℤ) ≤ binary64.round q := by
  rcases hq with rfl | hlarge
  · exact Or.inl (round_of_representable representable_zero)
  · exact Or.inr (le_round (representable_two_pow (by norm_num)) hlarge)

/-- A count of edges is exact. -/
theorem representable_natCast {n : ℕ} (hn : n ≤ UInt32.size) : binary64.Representable n := by
  have hcast : binary64.Representable ((n : ℤ) : ℚ) := by
    apply representable_intCast
    have hsize : UInt32.size = 4294967296 := rfl
    rw [abs_of_nonneg (by omega)]
    omega
  exact_mod_cast hcast

theorem natCast_le_two_pow {n : ℕ} (hn : n ≤ UInt32.size) : (n : ℚ) ≤ 2 ^ (32 : ℤ) := by
  have hle : (n : ℚ) ≤ (UInt32.size : ℕ) := by exact_mod_cast hn
  refine hle.trans ?_
  norm_num [UInt32.size]

/-- Nothing up to the product of two counts overflows. -/
theorem abs_round_lt_of_le {q : ℚ} (hq : 0 ≤ q) (hle : q ≤ 2 ^ (64 : ℤ)) :
    |binary64.round q| < 2 ^ binary64.maxExponent := by
  apply abs_round_lt
  rw [abs_of_nonneg hq]
  exact hle.trans (zpow_le_zpow_right₀ (by norm_num) (by norm_num))

/-- The quotient of one level. -/
theorem averageWithin_div {rows edges sources : ℕ} (hsources : 0 < sources) (hrows : sources ≤ rows)
    (hbound : rows ≤ UInt32.size) (hedges : edges ≤ UInt32.size) :
    AverageWithin rows edges 1 (binary64.round ((edges : ℚ) / sources)) := by
  have hpos : (0 : ℚ) < sources := by exact_mod_cast hsources
  have hone : (1 : ℚ) ≤ sources := by exact_mod_cast hsources
  have hlarge : (edges : ℚ) / sources = 0 ∨ 2 ^ (-32 : ℤ) ≤ (edges : ℚ) / sources := by
    rcases Nat.eq_zero_or_pos edges with rfl | hsome
    · exact Or.inl (by simp)
    · right
      have hnumerator : (1 : ℚ) ≤ edges := by exact_mod_cast hsome
      have hdenominator := natCast_le_two_pow (hrows.trans hbound)
      rw [le_div_iff₀ hpos]
      calc (2 : ℚ) ^ (-32 : ℤ) * sources ≤ 2 ^ (-32 : ℤ) * 2 ^ (32 : ℤ) :=
            mul_le_mul_of_nonneg_left hdenominator (two_zpow_pos _).le
        _ = 1 := by norm_num
        _ ≤ edges := hnumerator
  refine ⟨large_round hlarge, ?_, ?_⟩
  · exact round_le (representable_natCast hedges) (div_le_self (Nat.cast_nonneg _) hone)
  · have hround := mul_le_round hlarge
    have hnonneg : 0 ≤ binary64.round ((edges : ℚ) / sources) :=
      round_nonneg (div_nonneg (Nat.cast_nonneg _) hpos.le)
    calc (edges : ℚ) * (1 - roundingUnit) ^ 1
        = sources * (edges / sources * (1 - roundingUnit)) := by field_simp
      _ ≤ sources * binary64.round ((edges : ℚ) / sources) :=
          mul_le_mul_of_nonneg_left hround hpos.le
      _ ≤ rows * binary64.round ((edges : ℚ) / sources) :=
          mul_le_mul_of_nonneg_right (by exact_mod_cast hrows) hnonneg

/-- One more level. -/
theorem AverageWithin.add {rows edges own levels : ℕ} {average degree : ℚ}
    (h : AverageWithin rows edges levels average) (hown : AverageWithin rows own 1 degree)
    (hlevels : levels ≠ 0) (htotal : edges + own ≤ UInt32.size) :
    AverageWithin rows (edges + own) (levels + 1) (binary64.round (degree + average)) := by
  obtain ⟨hlow, hhigh⟩ := roundingUnit_bounds
  have hlarge : degree + average = 0 ∨ 2 ^ (-32 : ℤ) ≤ degree + average := by
    rcases hown.large with hzero | hpos
    · rw [hzero, zero_add]
      exact h.large
    · exact Or.inr (le_add_of_le_of_nonneg hpos h.nonneg)
  refine ⟨large_round hlarge, ?_, ?_⟩
  · refine round_le (representable_natCast htotal) ?_
    push_cast
    linarith [h.le, hown.le]
  · have hround := mul_le_round hlarge
    have hpower : (1 - roundingUnit) ^ levels ≤ (1 - roundingUnit) ^ 1 :=
      pow_le_pow_of_le_one hlow hhigh (Nat.one_le_iff_ne_zero.mpr hlevels)
    have hsum : (edges + own : ℚ) * (1 - roundingUnit) ^ levels ≤ rows * (degree + average) := by
      have hownPower : (own : ℚ) * (1 - roundingUnit) ^ levels ≤ own * (1 - roundingUnit) ^ 1 :=
        mul_le_mul_of_nonneg_left hpower (Nat.cast_nonneg _)
      linarith [h.ge, hown.ge]
    calc ((edges + own : ℕ) : ℚ) * (1 - roundingUnit) ^ (levels + 1)
        = (edges + own) * (1 - roundingUnit) ^ levels * (1 - roundingUnit) := by
          push_cast
          ring
      _ ≤ rows * (degree + average) * (1 - roundingUnit) := mul_le_mul_of_nonneg_right hsum hlow
      _ = rows * ((degree + average) * (1 - roundingUnit)) := by ring
      _ ≤ rows * binary64.round (degree + average) :=
          mul_le_mul_of_nonneg_left hround (Nat.cast_nonneg _)

/-! ### The estimate in bounds -/

section Estimate

variable {rows edges levels : ℕ} {average : ℚ}

/-- The rounded product, rounded up. -/
def scaledAverage (rows : ℕ) (average : ℚ) : ℤ := ⌈binary64.round (rows * average)⌉

/-- The product of two counts has room below the top of the type. -/
theorem AverageWithin.product_le {other : ℕ} (h : AverageWithin other edges levels average)
    (hrows : rows ≤ UInt32.size) (hedges : edges ≤ StrongId.capacity 32) :
    rows * average ≤ 2 ^ (64 : ℤ) - 2 ^ (32 : ℤ) := by
  have hcapacity : edges + 1 ≤ UInt32.size := by
    have hlt : StrongId.capacity 32 + 1 = UInt32.size := by decide
    omega
  have haverage : average ≤ 2 ^ (32 : ℤ) - 1 := by
    have hle := natCast_le_two_pow hcapacity
    push_cast at hle
    linarith [h.le]
  calc (rows : ℚ) * average ≤ 2 ^ (32 : ℤ) * (2 ^ (32 : ℤ) - 1) :=
        mul_le_mul (natCast_le_two_pow hrows) haverage h.nonneg (by positivity)
    _ = 2 ^ (64 : ℤ) - 2 ^ (32 : ℤ) := by norm_num

theorem AverageWithin.scaled_lt {other : ℕ} (h : AverageWithin other edges levels average)
    (hrows : rows ≤ UInt32.size) (hedges : edges ≤ StrongId.capacity 32) :
    0 ≤ scaledAverage rows average ∧ scaledAverage rows average < 2 ^ 64 := by
  have hproduct := h.product_le hrows hedges
  have htop : binary64.Representable (2 ^ (64 : ℤ) - 2 ^ (32 : ℤ)) := by
    have hmultiple := representable_mul_pow (j := 4294967295) (by norm_num)
      (by norm_num : -1074 ≤ (32 : ℤ))
    norm_num at hmultiple ⊢
    exact hmultiple
  have hround := round_le htop hproduct
  have hnonneg : 0 ≤ binary64.round (rows * average) :=
    round_nonneg (mul_nonneg (Nat.cast_nonneg _) h.nonneg)
  refine ⟨Int.ceil_nonneg hnonneg, ?_⟩
  have hceil : scaledAverage rows average ≤ 2 ^ 64 - 2 ^ 32 := by
    rw [scaledAverage, Int.ceil_le]
    norm_num at hround ⊢
    exact hround
  omega

/-- **Rounding up makes good for all rounding before it**, as long as the edges times the levels
have fewer digits than a double. -/
theorem AverageWithin.edges_le_scaled (h : AverageWithin rows edges levels average)
    (hsmall : edges * (levels + 1) < 2 ^ 53) : edges ≤ scaledAverage rows average := by
  obtain ⟨hlow, hhigh⟩ := roundingUnit_bounds
  have hproduct : (rows : ℚ) * average = 0 ∨ 2 ^ (-32 : ℤ) ≤ rows * average := by
    rcases h.large with hzero | hlarge
    · exact Or.inl (by rw [hzero, mul_zero])
    · rcases Nat.eq_zero_or_pos rows with rfl | hsome
      · exact Or.inl (by simp)
      · have hone : (1 : ℚ) ≤ rows := by exact_mod_cast hsome
        exact Or.inr (hlarge.trans (le_mul_of_one_le_left h.nonneg hone))
  have hround := mul_le_round hproduct
  have hscaled : (edges : ℚ) * (1 - roundingUnit) ^ (levels + 1) ≤
      binary64.round (rows * average) := by
    rw [pow_succ, ← mul_assoc]
    exact (mul_le_mul_of_nonneg_right h.ge hlow).trans hround
  -- Bernoulli: the losses add up
  have hbernoulli : 1 - (levels + 1) * roundingUnit ≤ (1 - roundingUnit) ^ (levels + 1) := by
    have hpow := one_add_mul_le_pow (by linarith : (-2 : ℚ) ≤ -roundingUnit) (levels + 1)
    rw [← sub_eq_add_neg] at hpow
    push_cast at hpow
    linarith
  have hloss : (edges : ℚ) * ((levels + 1) * roundingUnit) < 1 := by
    have hcount : (edges : ℚ) * (levels + 1) < 2 ^ 53 := by exact_mod_cast hsmall
    have hunit : (2 : ℚ) ^ 53 * roundingUnit = 1 := by norm_num [roundingUnit]
    have hpos : 0 < roundingUnit := by norm_num [roundingUnit]
    calc (edges : ℚ) * ((levels + 1) * roundingUnit)
        = edges * (levels + 1) * roundingUnit := by ring
      _ < 2 ^ 53 * roundingUnit := mul_lt_mul_of_pos_right hcount hpos
      _ = 1 := hunit
  have habove : (edges : ℚ) - 1 < binary64.round (rows * average) := by
    have hmul := mul_le_mul_of_nonneg_left hbernoulli (Nat.cast_nonneg (α := ℚ) edges)
    linarith
  have hceil : (edges : ℤ) - 1 < scaledAverage rows average := by
    have hlt : ((edges - 1 : ℤ) : ℚ) < scaledAverage rows average := by
      push_cast
      exact habove.trans_le (Int.le_ceil _)
    exact_mod_cast hlt
  omega

end Estimate

/-! ### The average degree of a snapshot -/

namespace Snapshot

variable {P : ProgramTypes} {S : GraphSchema (cppTypes P)}

theorem isNumber_ofSize_exact {n : ℕ} (hn : n ≤ UInt32.size) :
    (doubleArithmetic.ofSize n).IsNumber n := by
  have hexact := round_of_representable (representable_natCast hn)
  have hbound := (natCast_le_two_pow hn).trans
    (zpow_le_zpow_right₀ (by norm_num) (by norm_num : (32 : ℤ) ≤ 64))
  have hnumber : (doubleArithmetic.ofSize n).IsNumber (binary64.round n) :=
    Floating.isNumber_ofRat (abs_round_lt_of_le (Nat.cast_nonneg n) hbound)
  rwa [hexact] at hnumber

/-- A store with edges has a source. -/
theorem keySet_nonempty {edge : EdgeSpec (cppTypes P)} {store : AdjacencyStore edge}
    (h : store.WellFormed) (hsize : store.size ≠ 0) : store.outgoingIndex.keySet.card ≠ 0 := by
  rw [← h.length_storedEdges] at hsize
  obtain ⟨e, he⟩ := List.exists_mem_of_length_pos (Nat.pos_of_ne_zero hsize)
  have hfiled : e.id ∈ store.outgoingIndex.find e.source := by
    have heq := h.filed .outgoing e.source
    show e.id ∈ store.filed .outgoing e.source
    rw [heq]
    exact List.mem_map.mpr ⟨e, List.mem_filter.mpr ⟨he, decide_eq_true rfl⟩, rfl⟩
  have hkey : e.source ∈ store.outgoingIndex.keySet := by
    rw [VectorMap.mem_keySet]
    by_contra hmissing
    rw [VectorMap.find_of_lookup_eq_none (AList.lookup_eq_none.mpr hmissing)] at hfiled
    cases hfiled
  exact Finset.card_ne_zero_of_mem hkey

/-- The average degree of one level. -/
theorem averageWithin_level {edge : EdgeSpec (cppTypes P)} {store : AdjacencyStore edge}
    (h : store.WellFormed) {rows : ℕ} (hsources : store.statistics.sourceCount ≤ rows)
    (hrows : rows ≤ UInt32.size) (hsize : store.size ≤ UInt32.size) :
    ∃ degree, store.statistics.averageOutDegree.IsNumber degree ∧
      AverageWithin rows store.size 1 degree := by
  rw [AdjacencyStore.statistics_eq] at hsources ⊢
  by_cases hzero : store.outgoingIndex.keySet.card = 0
  · have hempty : store.size = 0 := by
      by_contra hsome
      exact keySet_nonempty h hsome hzero
    simp only [hzero, hempty, ne_eq, not_true_eq_false, if_false]
    refine ⟨0, ?_, ⟨Or.inl rfl, by simp, by simp⟩⟩
    have hnumber := isNumber_ofSize_exact (Nat.zero_le UInt32.size)
    rwa [show doubleArithmetic.ofSize 0 = doubleArithmetic.zero from
      congrArg (Floating.ofRat false) Nat.cast_zero, Nat.cast_zero] at hnumber
  · simp only [ne_eq, hzero, not_false_eq_true, if_true]
    refine ⟨_, ?_, averageWithin_div (Nat.pos_of_ne_zero hzero) hsources hrows hsize⟩
    apply Floating.isNumber_div (isNumber_ofSize_exact hsize)
      (isNumber_ofSize_exact (hsources.trans hrows))
    · exact_mod_cast hzero
    · have hone : (1 : ℚ) ≤ store.outgoingIndex.keySet.card := by
        exact_mod_cast Nat.one_le_iff_ne_zero.mpr hzero
      have hle := div_le_self (Nat.cast_nonneg store.size) hone
      refine abs_round_lt_of_le (div_nonneg (Nat.cast_nonneg _) (Nat.cast_nonneg _)) ?_
      refine (hle.trans (natCast_le_two_pow hsize)).trans ?_
      norm_num

/-- **The average degree is in bounds.**  By induction on the chain. -/
theorem WellFormed.averageWithin {graph : Snapshot S} (h : graph.WellFormed) {edge : S.Edge}
    (hfresh : ∀ level ∈ graph.levels,
      (level.data.edges edge).degreeStatistics = (level.data.edges edge).statistics)
    {rows : ℕ} (hrows : rows ≤ UInt32.size)
    (hsources : ∀ level ∈ graph.levels,
      (level.data.edges edge).degreeStatistics.sourceCount ≤ rows) :
    ∃ average, (graph.relationAverageDegree edge).IsNumber average ∧
      AverageWithin rows (graph.storedEdges edge).length graph.levels.length average := by
  have hlevel : ∀ {level : Level S}, level ∈ graph.levels → level.Published →
      (level.data.edges edge).storedEdges.length ≤ UInt32.size →
      ∃ degree, (level.data.edges edge).degreeStatistics.averageOutDegree.IsNumber degree ∧
        AverageWithin rows (level.data.edges edge).storedEdges.length 1 degree := by
    intro level hmem published hsize
    have hstore := published.wellFormed.edges edge
    rw [hstore.length_storedEdges] at hsize ⊢
    have hcount := hsources level hmem
    rw [hfresh level hmem] at hcount ⊢
    exact averageWithin_level hstore hcount hrows hsize
  have htotal : (graph.storedEdges edge).length ≤ UInt32.size :=
    (h.length_storedEdges_le edge).2.trans (by decide)
  induction h using WellFormed.chainInduction with
  | root level _ published => exact hlevel (List.mem_singleton.mpr rfl) published htotal
  | branch level parent _ published parentWellFormed ih =>
    rw [storedEdges, List.length_append] at htotal
    obtain ⟨degree, hdegree, hown⟩ := hlevel List.mem_cons_self published (by omega)
    obtain ⟨average, haverage, hinherited⟩ := ih
      (fun level hmem => hfresh level (List.mem_cons_of_mem _ hmem))
      (fun level hmem => hsources level (List.mem_cons_of_mem _ hmem))
      (fun hmem => hlevel (List.mem_cons_of_mem _ hmem)) (by omega)
    have hlevels : parent.levels.length ≠ 0 := by cases parent <;> simp [levels]
    rw [storedEdges, List.length_append, levels, List.length_cons]
    refine ⟨_, ?_, hinherited.add hown hlevels htotal⟩
    apply Floating.isNumber_add hdegree haverage
    refine abs_round_lt_of_le (add_nonneg hown.nonneg hinherited.nonneg) ?_
    have hsum := natCast_le_two_pow htotal
    push_cast at hsum
    have hpower : (2 : ℚ) ^ (32 : ℤ) ≤ 2 ^ (64 : ℤ) := by norm_num
    linarith [hown.le, hinherited.le]

/-! ### The estimate -/

section Estimate

variable {graph : Snapshot S} {edge : S.Edge} {rows other : ℕ} {average : ℚ}

/-- The rounded product is an integer. -/
theorem isNumber_scaledDegree (haverage : (graph.relationAverageDegree edge).IsNumber average)
    (hwithin : AverageWithin other (graph.storedEdges edge).length graph.levels.length average)
    (hrows : rows ≤ UInt32.size)
    (hedges : (graph.storedEdges edge).length ≤ StrongId.capacity 32) :
    (graph.scaledDegree Floating.ceil edge rows).IsNumber (scaledAverage rows average) := by
  have hle : (rows : ℚ) * average ≤ 2 ^ (64 : ℤ) := by
    have hproduct := hwithin.product_le hrows hedges
    have hpower := two_zpow_pos 32
    linarith
  have hproduct := Floating.isNumber_mul (isNumber_ofSize_exact hrows) haverage
    (abs_round_lt_of_le (mul_nonneg (Nat.cast_nonneg _) hwithin.nonneg) hle)
  obtain ⟨hnonneg, hlt⟩ := hwithin.scaled_lt hrows hedges
  apply Floating.isNumber_ceil hproduct
  · show (-1074 : ℤ) ≤ 0
    norm_num
  · have hcast : (scaledAverage rows average : ℚ) < 2 ^ (64 : ℕ) := by exact_mod_cast hlt
    rw [← scaledAverage, abs_of_nonneg (by exact_mod_cast hnonneg)]
    refine hcast.trans ?_
    show (2 : ℚ) ^ (64 : ℕ) < 2 ^ (1024 : ℤ)
    rw [← zpow_natCast]
    exact zpow_lt_zpow_right₀ (by norm_num) (by norm_num)

/-- Casting an integer back to a count. -/
theorem toSize_of_isNumber {double : Floating binary64} {n : ℤ} (h : double.IsNumber n)
    (hn : 0 ≤ n) : (doubleArithmetic.toSize double : ℤ) = n := by
  obtain ⟨hfinite, hvalue⟩ := h
  have htruncate : double.truncate? = some n := by
    cases double with
    | nan => cases hfinite
    | infinity negative => cases hfinite
    | negativeZero =>
      have hzero : (0 : ℚ) = n := hvalue
      have hn : n = 0 := by exact_mod_cast hzero.symm
      rw [hn]
      rfl
    | finite value held =>
      have hvalue : value = n := hvalue
      have hpos : (0 : ℚ) ≤ value := by
        rw [hvalue]
        exact_mod_cast hn
      rw [Floating.truncate?, if_pos hpos, hvalue, Int.floor_intCast]
  show (((double.truncate?.getD 0).toNat : ℕ) : ℤ) = n
  rw [htruncate]
  exact Int.toNat_of_nonneg hn

/-- **The estimate counts every edge**, if no level has more sources than there are rows and the
edges times the levels have fewer digits than a double. -/
theorem length_storedEdges_le_estimate (hgraph : Session.Reachable graph)
    (hrows : rows ≤ UInt32.size)
    (hsources : ∀ level ∈ graph.levels,
      (level.data.edges edge).degreeStatistics.sourceCount ≤ rows)
    (hsmall : graph.edgeExtent edge * (graph.levels.length + 1) < 2 ^ 53) :
    (graph.storedEdges edge).length ≤
      graph.estimateTraversalCardinality Floating.ceil edge rows := by
  have h := Session.wellFormed_of_reachable hgraph
  obtain ⟨hextent, hcapacity⟩ := h.length_storedEdges_le edge
  obtain ⟨average, haverage, hwithin⟩ := h.averageWithin
    (fun level hlevel => statistics_of_reachable hgraph hlevel edge) hrows hsources
  have hnumber := isNumber_scaledDegree haverage hwithin hrows hcapacity
  have hestimate : (graph.estimateTraversalCardinality Floating.ceil edge rows : ℤ) =
      scaledAverage rows average :=
    toSize_of_isNumber hnumber (hwithin.scaled_lt hrows hcapacity).1
  have hle := hwithin.edges_le_scaled
    (lt_of_le_of_lt (Nat.mul_le_mul_right _ hextent) hsmall)
  omega

/-- There are no more sources than node ids. -/
theorem sourceCount_le {edge : EdgeSpec (cppTypes P)} (store : AdjacencyStore edge) :
    store.statistics.sourceCount ≤ UInt32.size := by
  rw [AdjacencyStore.statistics_eq]
  have hcard := Finset.card_le_card_of_injOn StrongId.toSize
    (s := store.outgoingIndex.keySet) (t := Finset.range UInt32.size)
    (fun id _ => Finset.mem_coe.mpr (Finset.mem_range.mpr id.toSize_lt))
    StrongId.toSize_injective.injOn
  rwa [Finset.card_range] at hcard

end Estimate

/-- **Casting the estimate back is defined**, for as many rows as there can be. -/
theorem isSome_castDefined_scaledDegree {graph : Snapshot S} (hgraph : Session.Reachable graph)
    (edge : S.Edge) {rows : ℕ} (hrows : rows ≤ UInt32.size) :
    ((castDefined P.values (.arithmetic (.integral false .bits64))
      (graph.scaledDegree Floating.ceil edge rows)).isSome = true) := by
  have h := Session.wellFormed_of_reachable hgraph
  obtain ⟨-, hcapacity⟩ := h.length_storedEdges_le edge
  have hfresh : ∀ level ∈ graph.levels,
      (level.data.edges edge).degreeStatistics = (level.data.edges edge).statistics :=
    fun level hlevel => statistics_of_reachable hgraph hlevel edge
  obtain ⟨average, haverage, hwithin⟩ := h.averageWithin hfresh le_rfl (fun level hlevel => by
    rw [hfresh level hlevel]
    exact sourceCount_le _)
  obtain ⟨hnonneg, hlt⟩ := hwithin.scaled_lt hrows hcapacity
  have hnumber := isNumber_scaledDegree haverage hwithin hrows hcapacity
  rw [castDefined_isSome_iff hnumber]
  · show (scaledAverage rows average : ℚ) < 2 ^ (64 : ℕ)
    exact_mod_cast hlt
  · show (((0 : ℤ) : ℚ)) ≤ scaledAverage rows average
    exact_mod_cast hnonneg

/-- Visible rows differ in their ids. -/
theorem WellFormed.length_visibleIds_le {graph : Snapshot S} (h : graph.WellFormed) (tag : S.Tag) :
    (graph.visibleIds tag).length ≤ UInt32.size :=
  length_le_of_pairwise_lt ((h.rowIds_pairwise tag).filter _) fun id _ => id.toSize_lt

/-! ### Casting to a count -/

/-- `static_cast<std::size_t>` of a double, where it is defined. -/
def castToSize (P : ProgramTypes) (double : Floating binary64) : Option ℕ :=
  (castDefined P.values (.arithmetic (.integral false .bits64)) double).map
    (fun size => (integerValue size).toNat)

end Snapshot

end Memorial
