import Memorial.Schema.GraphSchema

/-!
# What the static assertions of a schema decide

`graph_schema` is assembled from counting, filtering and first-match metafunctions.  Here its
four assertions are one Boolean over arbitrary lists, compared with a declarative statement of
what a schema should be, and the two ways of asking whether a schema declares a tag or an edge
are shown to agree.

* `schemaAssertions` — the assertions, before a schema exists;
* `Declares` — tags and signatures pairwise distinct, endpoints declared, layers permitted;
* `containsNode`, `containsEdge` — the members of `graph_schema` that the lookups do not use;
* `schemaAssertions_iff` — the assertions hold exactly of the lists that are well formed;
* `filter_tag_eq_node`, `filter_signature_eq_edge` — a lookup returns the only element with its
  tag or signature.
-/

namespace Memorial

open Meta

variable {C : TypeSystem}

/-- The four static assertions of `graph_schema<Nodes, Edges, RelationRules>`. -/
def schemaAssertions (nodes : List (NodeSpec C)) (edges : List (EdgeSpec C))
    (relationRules : RelationRules C) : Bool :=
  typeListIsUnique (nodes.map NodeSpec.tag) &&
    typeListIsUnique (edges.map EdgeSpec.signature) &&
    edges.all (hasKnownEndpoints nodes) &&
    edges.all (hasAllowedLayerRelation nodes relationRules)

/-- The rules a policy lists; the unrestricted policy stands for all of them. -/
def RelationRules.Lists : RelationRules C → RelationRule C → Prop
  | .unrestricted, _ => True
  | .rules declared _, rule => rule ∈ declared

/-- What the assertions are for. -/
structure Declares (nodes : List (NodeSpec C)) (edges : List (EdgeSpec C))
    (relationRules : RelationRules C) : Prop where
  tags_distinct : nodes.Pairwise (fun a b => a.tag ≠ b.tag)
  signatures_distinct : edges.Pairwise (fun a b =>
    (a.source, a.relation, a.target) ≠ (b.source, b.relation, b.target))
  endpoints_declared : ∀ edge ∈ edges,
    (∃ node ∈ nodes, node.tag = edge.source) ∧ ∃ node ∈ nodes, node.tag = edge.target
  layers_listed : ∀ edge ∈ edges, ∀ source ∈ nodes, ∀ target ∈ nodes,
    source.tag = edge.source → target.tag = edge.target →
      relationRules.Lists ⟨edge.relation, source.layer, target.layer⟩

/-! ### Each assertion -/

theorem allows_iff (relationRules : RelationRules C) (relation sourceLayer targetLayer : C.Name) :
    relationRules.allows relation sourceLayer targetLayer = true ↔
      relationRules.Lists ⟨relation, sourceLayer, targetLayer⟩ := by
  cases relationRules with
  | unrestricted => simp [RelationRules.allows, RelationRules.Lists]
  | rules declared unique =>
    simp only [RelationRules.allows, RelationRules.Lists, List.any_eq_true, Bool.and_eq_true,
      beq_iff_eq]
    constructor
    · rintro ⟨rule, hmem, ⟨rfl, rfl⟩, rfl⟩
      exact hmem
    · intro hmem
      exact ⟨_, hmem, ⟨rfl, rfl⟩, rfl⟩

/-- `type_list_is_unique_v` of a transformed list compares the elements pairwise. -/
theorem typeListIsUnique_map_iff {α β : Type} [DecidableEq β] (f : α → β) (types : List α) :
    typeListIsUnique (types.map f) = true ↔ types.Pairwise (fun a b => f a ≠ f b) := by
  rw [typeListIsUnique_iff, List.Nodup, List.pairwise_map]

theorem pairwise_signature_iff (edges : List (EdgeSpec C)) :
    edges.Pairwise (fun a b => a.signature ≠ b.signature) ↔
      edges.Pairwise (fun a b =>
        (a.source, a.relation, a.target) ≠ (b.source, b.relation, b.target)) := by
  simp only [EdgeSpec.signature, ne_eq, EdgeSignature.mk.injEq, Prod.mk.injEq]

theorem hasKnownEndpoints_iff (nodes : List (NodeSpec C)) (edge : EdgeSpec C) :
    hasKnownEndpoints nodes edge = true ↔
      (∃ node ∈ nodes, node.tag = edge.source) ∧ ∃ node ∈ nodes, node.tag = edge.target := by
  rw [hasKnownEndpoints, Bool.and_eq_true, typeListContains_iff, typeListContains_iff,
    List.mem_map, List.mem_map]

section Distinct

variable {α β : Type} [DecidableEq β] {f : α → β} {types : List α}

/-- Among elements with distinct images, the first with an image is the one with it. -/
theorem find?_image_iff (h : types.Pairwise (fun a b => f a ≠ f b)) (sought : β) (type : α) :
    types.find? (fun other => sought == f other) = some type ↔
      type ∈ types ∧ f type = sought := by
  constructor
  · intro hfound
    exact ⟨List.mem_of_find?_eq_some hfound,
      (beq_iff_eq.mp (List.find?_some hfound :)).symm⟩
  · rintro ⟨hmem, rfl⟩
    induction h with
    | nil => cases hmem
    | @cons first rest hfirst _ ih =>
      rcases List.mem_cons.mp hmem with rfl | hrest
      · simp
      · have hne : f type ≠ f first := fun heq => hfirst type hrest heq.symm
        rw [List.find?_cons_of_neg (by simpa using hne), ih hrest]

/-- Among elements with distinct images, the filter by an image keeps one element. -/
theorem filter_image_eq (h : types.Pairwise (fun a b => f a ≠ f b)) {type : α}
    (hmem : type ∈ types) :
    types.filter (fun other => decide (f other = f type)) = [type] := by
  induction h with
  | nil => cases hmem
  | @cons first rest hfirst _ ih =>
    rcases List.mem_cons.mp hmem with rfl | hrest
    · have hnone : rest.filter (fun other => decide (f other = f type)) = [] := by
        rw [List.filter_eq_nil_iff]
        intro other hother
        simpa using (hfirst other hother).symm
      rw [List.filter_cons_of_pos (by simp), hnone]
    · have hne : f first ≠ f type := hfirst type hrest
      rw [List.filter_cons_of_neg (by simpa using hne), ih hrest]

end Distinct

theorem findNode_eq_some_iff {nodes : List (NodeSpec C)}
    (h : nodes.Pairwise (fun a b => a.tag ≠ b.tag)) (tag : C.Name) (node : NodeSpec C) :
    findNode tag nodes = some node ↔ node ∈ nodes ∧ node.tag = tag := by
  rw [findNode, typeListFindIf_eq_find?, find?_image_iff h]

theorem findEdge_eq_some_iff {edges : List (EdgeSpec C)}
    (h : edges.Pairwise (fun a b => a.signature ≠ b.signature)) (signature : EdgeSignature C)
    (edge : EdgeSpec C) :
    findEdge signature edges = some edge ↔ edge ∈ edges ∧ edge.signature = signature := by
  rw [findEdge, typeListFindIf_eq_find?, find?_image_iff h]

/-- The layer check reads the two endpoints where both are declared. -/
theorem hasAllowedLayerRelation_iff {nodes : List (NodeSpec C)}
    (h : nodes.Pairwise (fun a b => a.tag ≠ b.tag)) (relationRules : RelationRules C)
    (edge : EdgeSpec C) :
    hasAllowedLayerRelation nodes relationRules edge = true ↔
      ∀ source ∈ nodes, ∀ target ∈ nodes,
        source.tag = edge.source → target.tag = edge.target →
          relationRules.Lists ⟨edge.relation, source.layer, target.layer⟩ := by
  have hread := fun tag node => findNode_eq_some_iff h tag node
  constructor
  · intro hallowed source hsource target htarget hs ht
    rw [hasAllowedLayerRelation, (hread _ _).mpr ⟨hsource, hs⟩, (hread _ _).mpr ⟨htarget, ht⟩]
      at hallowed
    exact (allows_iff _ _ _ _).mp hallowed
  · intro hlisted
    rw [hasAllowedLayerRelation]
    split
    · rename_i source target hs ht
      obtain ⟨hsource, hs⟩ := (hread _ _).mp hs
      obtain ⟨htarget, ht⟩ := (hread _ _).mp ht
      exact (allows_iff _ _ _ _).mpr (hlisted source hsource target htarget hs ht)
    · rfl

/-- The assertions hold exactly of the well-formed lists.  The layer check lets an edge with an
unknown endpoint pass; the check of the endpoints is what rejects it. -/
theorem schemaAssertions_iff (nodes : List (NodeSpec C)) (edges : List (EdgeSpec C))
    (relationRules : RelationRules C) :
    schemaAssertions nodes edges relationRules = true ↔ Declares nodes edges relationRules := by
  simp only [schemaAssertions, Bool.and_eq_true, typeListIsUnique_map_iff, List.all_eq_true,
    pairwise_signature_iff, hasKnownEndpoints_iff]
  constructor
  · rintro ⟨⟨⟨htags, hsignatures⟩, hendpoints⟩, hlayers⟩
    exact
      { tags_distinct := htags
        signatures_distinct := hsignatures
        endpoints_declared := hendpoints
        layers_listed := fun edge hedge =>
          (hasAllowedLayerRelation_iff htags relationRules edge).mp (hlayers edge hedge) }
  · intro h
    refine ⟨⟨⟨h.tags_distinct, h.signatures_distinct⟩, h.endpoints_declared⟩, ?_⟩
    intro edge hedge
    exact (hasAllowedLayerRelation_iff h.tags_distinct relationRules edge).mpr
      (h.layers_listed edge hedge)

/-! ### Accepted schemas -/

namespace GraphSchema

variable (S : GraphSchema C)

/-- A schema that exists has passed its assertions. -/
theorem assertions_hold : schemaAssertions S.nodes S.edges S.relationRules = true := by
  simp only [schemaAssertions, S.nodeTagsUnique, S.edgeSignaturesUnique, S.endpointsKnown,
    S.layersAllowed, Bool.and_self]

theorem declares : Declares S.nodes S.edges S.relationRules :=
  (schemaAssertions_iff S.nodes S.edges S.relationRules).mp S.assertions_hold

/-- `graph_schema::contains_node`. -/
def containsNode (tag : C.Name) : Bool := S.nodes.any (fun node => tag == node.tag)

/-- `graph_schema::contains_edge`. -/
def containsEdge (source relation target : C.Name) : Bool :=
  S.edges.any (fun edge =>
    source == edge.source && relation == edge.relation && target == edge.target)

/-- The member of the schema and the lookup from outside ask the same. -/
theorem containsNode_eq_hasNode (tag : C.Name) : S.containsNode tag = S.hasNode tag := by
  rw [containsNode, hasNode, findNode, typeListFindIf_eq_find?, List.isSome_find?]

theorem containsEdge_eq_hasEdge (source relation target : C.Name) :
    S.containsEdge source relation target = S.hasEdge ⟨source, relation, target⟩ := by
  rw [Bool.eq_iff_iff, hasEdge_iff, containsEdge, List.any_eq_true, List.mem_map]
  refine exists_congr fun edge => and_congr_right fun _ => ?_
  simp only [EdgeSpec.signature, EdgeSignature.mk.injEq, Bool.and_eq_true, beq_iff_eq, and_assoc,
    @eq_comm _ edge.source, @eq_comm _ edge.relation, @eq_comm _ edge.target]

variable {S}

/-- `schema_node_t` is the one element with the tag. -/
theorem filter_tag_eq_node (tag : S.Tag) :
    S.nodes.filter (fun other => decide (other.tag = tag.1)) = [node tag] := by
  have hdistinct := S.declares.tags_distinct
  have hfound : findNode tag.1 S.nodes = some (node tag) := (Option.some_get tag.2).symm
  obtain ⟨hmem, htag⟩ := (findNode_eq_some_iff hdistinct _ _).mp hfound
  rw [← htag]
  exact filter_image_eq hdistinct hmem

/-- `schema_edge_t` is the one element with the signature. -/
theorem filter_signature_eq_edge (signature : S.Edge) :
    S.edges.filter (fun other => decide (other.signature = signature.1)) =
      [edge signature] := by
  have hdistinct := (pairwise_signature_iff S.edges).mpr S.declares.signatures_distinct
  have hfound : findEdge signature.1 S.edges = some (edge signature) :=
    (Option.some_get signature.2).symm
  obtain ⟨hmem, hsignature⟩ := (findEdge_eq_some_iff hdistinct _ _).mp hfound
  rw [← hsignature]
  exact filter_image_eq hdistinct hmem

end GraphSchema

/-- Validation accepts exactly the well-formed schemas, and on an accepted one the two ways of
asking agree and every lookup has one answer. -/
theorem schema_validation_exact (C : TypeSystem) :
    (∀ (nodes : List (NodeSpec C)) (edges : List (EdgeSpec C)) (relationRules : RelationRules C),
      schemaAssertions nodes edges relationRules = true ↔
        Declares nodes edges relationRules) ∧
      ∀ S : GraphSchema C,
        (∀ tag, S.containsNode tag = S.hasNode tag) ∧
        (∀ source relation target,
          S.containsEdge source relation target = S.hasEdge ⟨source, relation, target⟩) ∧
        (∀ tag : S.Tag,
          S.nodes.filter (fun other => decide (other.tag = tag.1)) = [GraphSchema.node tag]) ∧
        ∀ signature : S.Edge,
          S.edges.filter (fun other => decide (other.signature = signature.1)) =
            [GraphSchema.edge signature] :=
  ⟨schemaAssertions_iff, fun S =>
    ⟨S.containsNode_eq_hasNode, S.containsEdge_eq_hasEdge, GraphSchema.filter_tag_eq_node,
      GraphSchema.filter_signature_eq_edge⟩⟩

end Memorial
