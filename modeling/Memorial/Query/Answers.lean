import Memorial.Query.PlanEstimates

/-!
# What every answer satisfies

The rows of an answer are read from the snapshot after the stages have run.  Whatever the stages
are, in whatever order, each row is visible, and `value<Key>` of it is what the snapshot says;
limits and top-k stages bound the rows from the last traversal on; and without a traversal no row
comes twice.

* `ProjectedRow.value` — `projected_row::value<Key>`;
* `Expression.caps` — the limits and counts behind the last traversal;
* `Sound` — what an answer satisfies;
* `answers_are_sound` — **PROVED**: every answer of every reachable snapshot.
-/

namespace Memorial.Query

open Library Snapshot

variable {C : TypeSystem} {S : GraphSchema C}

/-! ### Reading a row -/

/-- `type_list_index_v` and `std::get`: the value at the first entry of the key. -/
def ProjectedValues.value {tag : S.Tag} :
    (keys : List (GraphSchema.Key tag)) → ProjectedValues tag keys → (key : GraphSchema.Key tag) →
      key ∈ keys → GraphSchema.Value tag key
  | [], _, _, hkey => absurd hkey List.not_mem_nil
  | first :: rest, (value, remaining), key, hkey =>
    if heq : first.key = key.key then PropertyKey.ext_key heq ▸ value
    else ProjectedValues.value rest remaining key
      ((List.mem_cons.mp hkey).resolve_left
        (fun hfirst => heq (congrArg PropertyKey.key hfirst.symm)))

/-- `projected_row::value<Key>`. -/
def ProjectedRow.value {tag : S.Tag} {keys : List (GraphSchema.Key tag)}
    (row : ProjectedRow tag keys) (key : GraphSchema.Key tag) (hkey : key ∈ keys) :
    GraphSchema.Value tag key :=
  ProjectedValues.value keys row.values key hkey

/-- The ids of an answer. -/
def ExecutionResult.ids {tag : S.Tag} :
    {projection : Option (List (GraphSchema.Key tag))} → ExecutionResult tag projection →
      List NodeId
  | none, ids => ids
  | some _, rows => List.map ProjectedRow.id rows

/-- Each value of the row is that of the snapshot. -/
def ProjectedRow.HoldsValues (graph : Snapshot S) {tag : S.Tag} {keys : List (GraphSchema.Key tag)}
    (row : ProjectedRow tag keys) : Prop :=
  ∀ key (hkey : key ∈ keys), graph.property tag key row.id = .ok (row.value key hkey)

/-- The rows of an answer do. -/
def ExecutionResult.HoldsValues (graph : Snapshot S) {tag : S.Tag} :
    {projection : Option (List (GraphSchema.Key tag))} → ExecutionResult tag projection → Prop
  | none, _ => True
  | some _, rows => List.Forall (ProjectedRow.HoldsValues graph) rows

/-- **What a projection has read is under its key.** -/
theorem property_of_readProjection {graph : Snapshot S} {tag : S.Tag} {id : NodeId}
    {keys : List (GraphSchema.Key tag)} {values : ProjectedValues tag keys}
    (h : readProjection graph tag id keys = .ok values) (key : GraphSchema.Key tag)
    (hkey : key ∈ keys) :
    graph.property tag key id = .ok (ProjectedValues.value keys values key hkey) := by
  induction keys with
  | nil => cases hkey
  | cons first rest ih =>
    rw [readProjection] at h
    cases hfirst : graph.property tag first id with
    | error error =>
      rw [hfirst, error_bind] at h
      cases h
    | ok value =>
      rw [hfirst, ok_bind] at h
      cases hrest : readProjection graph tag id rest with
      | error error =>
        rw [hrest, error_bind] at h
        cases h
      | ok remaining =>
        rw [hrest, ok_bind] at h
        obtain rfl := Except.ok.inj h
        rw [ProjectedValues.value]
        split
        · rename_i heq
          obtain rfl := PropertyKey.ext_key heq
          exact hfirst
        · exact ih hrest _

/-- What `execute` makes of the ids. -/
theorem holdsValues_of_present {graph : Snapshot S} {tag : S.Tag} {ids : List NodeId}
    {projection : Option (List (GraphSchema.Key tag))} {result : ExecutionResult tag projection}
    (h : present graph tag ids projection = .ok result) :
    result.ids = ids ∧ result.HoldsValues graph := by
  cases projection with
  | none =>
    obtain rfl := Except.ok.inj h
    exact ⟨rfl, trivial⟩
  | some keys =>
    have hrows : List.Forall₂ (fun id row => row.id = id ∧
        readProjection graph tag id keys = .ok (row : ProjectedRow tag keys).values) ids
        result := by
      refine (forall₂_of_mapLoop h).imp ?_
      intro id row hrow
      cases hread : readProjection graph tag id keys with
      | error error =>
        rw [hread, error_bind] at hrow
        cases hrow
      | ok values =>
        rw [hread, ok_bind] at hrow
        obtain rfl := Except.ok.inj hrow
        exact ⟨rfl, rfl⟩
    clear h
    show List.map ProjectedRow.id result = ids ∧ List.Forall (ProjectedRow.HoldsValues graph) result
    induction hrows with
    | nil => exact ⟨rfl, trivial⟩
    | @cons id row ids rows hrow _ ih =>
      obtain ⟨hid, hread⟩ := hrow
      refine ⟨?_, (List.forall_cons _ _ _).mpr ⟨?_, ih.2⟩⟩
      · rw [List.map_cons, hid, ih.1]
      · intro key hkey
        rw [hid]
        exact property_of_readProjection hread key hkey

/-! ### Limits -/

/-- The bound that a stage sets. -/
def Operation.cap? {current next : S.Tag} : Operation S current next → Option ℕ
  | .topK ranking => some ranking.count
  | .limit count => some count
  | _ => none

/-- The bounds set behind the last traversal. -/
def Expression.caps : {tag : S.Tag} → Expression S tag → List ℕ
  | _, .source _ => []
  | _, .pipeline previous operation =>
    if operation.edges = [] then operation.cap?.toList ++ previous.caps else []

section Caps

variable {graph : Snapshot S}

/-- A stage keeps the bound that it sets. -/
theorem length_operation_scan_le_cap {current next : S.Tag} {operation : Operation S current next}
    {count : ℕ} (hcount : operation.cap? = some count) (ids : List NodeId) :
    (operation.scan stableSort graph ids).length ≤ count := by
  cases operation with
  | topK ranking =>
    obtain rfl := Option.some.inj hcount
    rw [Operation.scan, List.length_map]
    exact List.length_take_le _ _
  | limit count' =>
    obtain rfl := Option.some.inj hcount
    exact List.length_take_le _ _
  | _ => cases hcount

/-- **A bound holds to the end of the pipeline.**  By induction on the stages: those behind it yield
no more rows than they get. -/
theorem length_scan_le_cap {tag : S.Tag} (expression : Expression S tag) :
    ∀ count ∈ expression.caps, (scan stableSort graph expression).length ≤ count := by
  induction expression with
  | source tag =>
    intro count hcount
    cases hcount
  | pipeline previous operation ih =>
    intro count hcount
    rw [Expression.caps] at hcount
    by_cases hedges : operation.edges = []
    · rw [if_pos hedges, List.mem_append, Option.mem_toList] at hcount
      rcases hcount with hown | hearlier
      · exact length_operation_scan_le_cap hown _
      · exact (length_operation_scan_le hedges _).trans (ih count hearlier)
    · rw [if_neg hedges] at hcount
      cases hcount

end Caps

/-! ### Answers -/

/-- The rows are visible and say what the snapshot says, no bound behind the last traversal is
exceeded, and without a traversal no row comes twice. -/
structure Sound (graph : Snapshot S) (query : TypedQuery S)
    (result : ExecutionResult query.current query.projection) : Prop where
  visible : ∀ id ∈ result.ids, graph.contains query.current id = .ok true
  values : result.HoldsValues graph
  capped : ∀ count ∈ query.expression.caps, result.ids.length ≤ count
  nodup : query.expression.edges = [] → result.ids.Nodup

/-- **Every answer is sound.**  On every reachable snapshot, whatever stages a query has, in
whatever order. -/
theorem answers_are_sound {graph : Snapshot S} (hgraph : Session.Reachable graph)
    (query : TypedQuery S) {result : ExecutionResult query.current query.projection}
    (hresult : execute graph query = .ok result) : Sound graph query result := by
  have h := Session.wellFormed_of_reachable hgraph
  rw [execute, evaluate_eq h] at hresult
  cases herror : selectorError graph query.expression with
  | some error =>
    rw [herror, answer, error_bind] at hresult
    cases hresult
  | none =>
    rw [herror, answer, ok_bind] at hresult
    obtain ⟨hids, hvalues⟩ := holdsValues_of_present hresult
    have hvisible := visible_of_mem_scan h query.expression
    refine ⟨?_, hvalues, ?_, ?_⟩
    · intro id hid
      rw [hids] at hid
      exact h.contains_iff.mpr (hvisible id hid)
    · intro count hcount
      rw [hids]
      exact length_scan_le_cap query.expression count hcount
    · intro hedges
      rw [hids]
      exact nodup_scan h hedges

end Memorial.Query

namespace Memorial.Journal

open Query

/-- The two highest thoughts of the root are visible, with their ranks, and not more. -/
theorem answers_are_sound_rootGraph : Sound rootGraph highestQuery highestRows :=
  answers_are_sound reachable_rootGraph highestQuery execute_highestQuery

end Memorial.Journal
