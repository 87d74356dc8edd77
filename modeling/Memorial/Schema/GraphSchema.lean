import Memorial.Library.Sorting
import Memorial.Meta.TypeList
import Mathlib.Tactic.Common

/-!
# Graph schemas

The static half of the library: which node kinds exist, with which property columns, and which
relations may connect them.  A schema is a value of `GraphSchema`, whose fields include the four
static assertions of `graph_schema`, so that a schema that C++ would refuse to compile cannot be
built here.

* `TypeSystem` — the C++ types a program instantiates the templates with: type names, value
  types with the operators the library applies to them, the `double` arithmetic its statistics
  use, and `std::ranges::sort`.  Nothing is assumed about the operators: a `float` column may
  hold NaN.
* `NodeSpec`, `EdgeSpec`, `GraphSchema` — the specifications and their static checks;
* `GraphSchema.Tag`, `GraphSchema.Edge` — the tags and edge signatures a schema declares, which
  are what the `requires` clauses of the stores admit;
* `PropertyKey` — a key together with the column it resolves to.
-/

namespace Memorial

open Meta

/-! ### The types of the program -/

/-- The operations on `double` that the statistics use. -/
structure DoubleArithmetic where
  Double : Type
  zero : Double
  half : Double
  fourFifths : Double
  ofSize : ℕ → Double
  toSize : Double → ℕ
  isFinite : Double → Bool
  lessThan : Double → Double → Bool
  equalTo : Double → Double → Bool
  add : Double → Double → Double
  sub : Double → Double → Double
  mul : Double → Double → Double
  div : Double → Double → Double

/-- The two casts of an arithmetic value type. -/
structure ArithmeticCasts (Double carrier : Type) where
  toDouble : carrier → Double
  ofDouble : Double → carrier

/-- The C++ types of a program: names of tag, layer and relation types, value types with their
comparison operators, the casts of the arithmetic ones other than `bool`, and the algorithm
behind `std::ranges::sort`. -/
structure TypeSystem where
  Name : Type
  nameDecidableEq : DecidableEq Name
  ValueType : Type
  valueTypeDecidableEq : DecidableEq ValueType
  carrier : ValueType → Type
  greaterThan : {left right : ValueType} → carrier left → carrier right → Bool
  greaterEqual : {left right : ValueType} → carrier left → carrier right → Bool
  lessThan : {left right : ValueType} → carrier left → carrier right → Bool
  lessEqual : {left right : ValueType} → carrier left → carrier right → Bool
  equalTo : {left right : ValueType} → carrier left → carrier right → Bool
  arithmetic : DoubleArithmetic
  casts : (type : ValueType) → Option (ArithmeticCasts arithmetic.Double (carrier type))
  rangesSort : Library.UnstableSort

instance (C : TypeSystem) : DecidableEq C.Name := C.nameDecidableEq

instance (C : TypeSystem) : DecidableEq C.ValueType := C.valueTypeDecidableEq

/-- `meta::fixed_string`: the bytes of the literal without its terminator. -/
abbrev FixedString := List UInt8

variable {C : TypeSystem}

/-! ### Properties -/

/-- `property_spec<Key, Value>`. -/
structure PropertySpec (C : TypeSystem) where
  key : FixedString
  valueType : C.ValueType
  key_ne_nil : key ≠ []

/-- `property_keys_are_unique_v`. -/
def propertyKeysAreUnique (properties : List (PropertySpec C)) : Bool :=
  typeListIsUnique (properties.map PropertySpec.key)

/-- The values held by the column at a position of a property list. -/
abbrev PropertyValue (properties : List (PropertySpec C)) (index : Fin properties.length) :
    Type :=
  C.carrier (properties.get index).valueType

/-- One value for each property: the arguments of an append. -/
abbrev PropertyValues (properties : List (PropertySpec C)) : Type :=
  (index : Fin properties.length) → PropertyValue properties index

/-- One vector for each property: the tuple of property columns. -/
abbrev PropertyColumns (properties : List (PropertySpec C)) : Type :=
  (index : Fin properties.length) → List (PropertyValue properties index)

/-- `find_property_t`: the position of the property with the key. -/
def findProperty (key : FixedString) (properties : List (PropertySpec C)) :
    Option (Fin properties.length) :=
  properties.findFinIdx? (fun property => property.key == key)

/-- A key that a property list declares, with the column it resolves to. -/
@[ext]
structure PropertyKey (properties : List (PropertySpec C)) where
  key : FixedString
  index : Fin properties.length
  found : findProperty key properties = some index

/-- A key resolves to one column only. -/
theorem PropertyKey.ext_key {properties : List (PropertySpec C)}
    {a b : PropertyKey properties} (h : a.key = b.key) : a = b := by
  have hindex : some a.index = some b.index := by rw [← a.found, ← b.found, h]
  exact PropertyKey.ext h (Option.some.inj hindex)

/-! ### Nodes and edges -/

/-- `node_spec<Tag, Layer, Properties...>`. -/
structure NodeSpec (C : TypeSystem) where
  tag : C.Name
  layer : C.Name
  properties : List (PropertySpec C)
  keysUnique : propertyKeysAreUnique properties = true

/-- `edge_signature<Source, Relation, Target>`. -/
@[ext]
structure EdgeSignature (C : TypeSystem) where
  source : C.Name
  relation : C.Name
  target : C.Name

instance : DecidableEq (EdgeSignature C) := fun a b =>
  decidable_of_iff (a.source = b.source ∧ a.relation = b.relation ∧ a.target = b.target)
    EdgeSignature.ext_iff.symm

/-- `edge_spec<Source, Relation, Target, Properties...>`. -/
structure EdgeSpec (C : TypeSystem) where
  source : C.Name
  relation : C.Name
  target : C.Name
  properties : List (PropertySpec C)
  keysUnique : propertyKeysAreUnique properties = true

/-- `edge_signature_of`. -/
def EdgeSpec.signature (edge : EdgeSpec C) : EdgeSignature C :=
  ⟨edge.source, edge.relation, edge.target⟩

/-! ### Relation rules -/

/-- `relation_rule<Relation, SourceLayer, TargetLayer>`. -/
@[ext]
structure RelationRule (C : TypeSystem) where
  relation : C.Name
  sourceLayer : C.Name
  targetLayer : C.Name

instance : DecidableEq (RelationRule C) := fun a b =>
  decidable_of_iff
    (a.relation = b.relation ∧ a.sourceLayer = b.sourceLayer ∧ a.targetLayer = b.targetLayer)
    RelationRule.ext_iff.symm

/-- A relation rule policy: `unrestricted_relation_rules`, or `relation_rules<Rules...>` with its
assertion that the signatures are unique. -/
inductive RelationRules (C : TypeSystem)
  | unrestricted
  | rules (declared : List (RelationRule C)) (unique : typeListIsUnique declared = true)

/-- `allows<Relation, SourceLayer, TargetLayer>`. -/
def RelationRules.allows : RelationRules C → (relation sourceLayer targetLayer : C.Name) → Bool
  | .unrestricted, _, _, _ => true
  | .rules declared _, relation, sourceLayer, targetLayer =>
    declared.any (fun rule =>
      relation == rule.relation && sourceLayer == rule.sourceLayer &&
        targetLayer == rule.targetLayer)

/-! ### Schemas -/

/-- `find_schema_node_t`, over the node list of a schema. -/
def findNode (tag : C.Name) (nodes : List (NodeSpec C)) : Option (NodeSpec C) :=
  typeListFindIf (fun node => tag == node.tag) nodes

/-- `find_schema_edge_t`, over the edge list of a schema. -/
def findEdge (signature : EdgeSignature C) (edges : List (EdgeSpec C)) : Option (EdgeSpec C) :=
  typeListFindIf (fun edge => signature == edge.signature) edges

/-- `graph_schema::has_known_endpoints`. -/
def hasKnownEndpoints (nodes : List (NodeSpec C)) (edge : EdgeSpec C) : Bool :=
  typeListContains edge.source (nodes.map NodeSpec.tag) &&
    typeListContains edge.target (nodes.map NodeSpec.tag)

/-- `graph_schema::has_allowed_layer_relation`: an edge with an unknown endpoint passes, since
another assertion rejects it. -/
def hasAllowedLayerRelation (nodes : List (NodeSpec C)) (relationRules : RelationRules C)
    (edge : EdgeSpec C) : Bool :=
  match findNode edge.source nodes, findNode edge.target nodes with
  | some sourceNode, some targetNode =>
    relationRules.allows edge.relation sourceNode.layer targetNode.layer
  | _, _ => true

/-- `graph_schema<Nodes, Edges, RelationRules>` with its four static assertions; the size of a type
list is a `std::size_t`. -/
structure GraphSchema (C : TypeSystem) where
  nodes : List (NodeSpec C)
  edges : List (EdgeSpec C)
  relationRules : RelationRules C
  nodeTagsUnique : typeListIsUnique (nodes.map NodeSpec.tag) = true
  edgeSignaturesUnique : typeListIsUnique (edges.map EdgeSpec.signature) = true
  endpointsKnown : edges.all (hasKnownEndpoints nodes) = true
  layersAllowed : edges.all (hasAllowedLayerRelation nodes relationRules) = true
  nodes_length_lt : nodes.length < UInt64.size
  edges_length_lt : edges.length < UInt64.size

namespace GraphSchema

variable (S : GraphSchema C)

/-- `schema_has_node_v`. -/
def hasNode (tag : C.Name) : Bool := (findNode tag S.nodes).isSome

/-- `schema_has_edge_v`. -/
def hasEdge (signature : EdgeSignature C) : Bool := (findEdge signature S.edges).isSome

/-- The tags with `schema_has_node_v`. -/
abbrev Tag := { tag : C.Name // S.hasNode tag = true }

/-- The signatures with `schema_has_edge_v`. -/
abbrev Edge := { signature : EdgeSignature C // S.hasEdge signature = true }

variable {S}

/-- `schema_node_t`. -/
def node (tag : S.Tag) : NodeSpec C := (findNode tag.1 S.nodes).get tag.2

/-- `schema_edge_t`. -/
def edge (signature : S.Edge) : EdgeSpec C := (findEdge signature.1 S.edges).get signature.2

theorem hasNode_iff {tag : C.Name} : S.hasNode tag = true ↔ tag ∈ S.nodes.map NodeSpec.tag := by
  rw [hasNode, findNode, typeListFindIf_eq_find?, List.find?_isSome]
  simp only [beq_iff_eq, List.mem_map]
  exact exists_congr fun node => and_congr_right fun _ => eq_comm

/-- The endpoints of a declared edge are declared tags: the third static assertion. -/
theorem hasNode_of_hasEdge {signature : EdgeSignature C} (h : S.hasEdge signature = true) :
    S.hasNode signature.source = true ∧ S.hasNode signature.target = true := by
  obtain ⟨found, hfound⟩ := Option.isSome_iff_exists.mp h
  rw [findEdge, typeListFindIf_eq_find?] at hfound
  have hsignature : signature = found.signature := by simpa using List.find?_some hfound
  have hknown := List.all_eq_true.mp S.endpointsKnown found (List.mem_of_find?_eq_some hfound)
  rw [hasKnownEndpoints, Bool.and_eq_true, typeListContains_iff, typeListContains_iff] at hknown
  rw [hasNode_iff, hasNode_iff, hsignature]
  exact hknown

theorem hasEdge_iff {signature : EdgeSignature C} :
    S.hasEdge signature = true ↔ signature ∈ S.edges.map EdgeSpec.signature := by
  rw [hasEdge, findEdge, typeListFindIf_eq_find?, List.find?_isSome]
  simp only [beq_iff_eq, List.mem_map]
  exact exists_congr fun edge => and_congr_right fun _ => eq_comm

/-- The declared tags, in order: the pack that `meta::type_list<Nodes...>` unfolds to. -/
def tags (S : GraphSchema C) : List S.Tag :=
  (S.nodes.map NodeSpec.tag).attach.map (fun tag => ⟨tag.1, hasNode_iff.mpr tag.2⟩)

/-- The declared edge signatures, in order. -/
def signatures (S : GraphSchema C) : List S.Edge :=
  (S.edges.map EdgeSpec.signature).attach.map (fun edge => ⟨edge.1, hasEdge_iff.mpr edge.2⟩)

theorem mem_tags (tag : S.Tag) : tag ∈ S.tags :=
  List.mem_map.mpr ⟨⟨tag.1, hasNode_iff.mp tag.2⟩, List.mem_attach _ _, rfl⟩

theorem mem_signatures (edge : S.Edge) : edge ∈ S.signatures :=
  List.mem_map.mpr ⟨⟨edge.1, hasEdge_iff.mp edge.2⟩, List.mem_attach _ _, rfl⟩

/-- The node kind an edge kind starts from. -/
def source (signature : S.Edge) : S.Tag :=
  ⟨signature.1.source, (hasNode_of_hasEdge signature.2).1⟩

/-- The node kind an edge kind leads to. -/
def target (signature : S.Edge) : S.Tag :=
  ⟨signature.1.target, (hasNode_of_hasEdge signature.2).2⟩

/-- The keys available on a node kind. -/
abbrev Key (tag : S.Tag) := PropertyKey (node tag).properties

/-- The values of a property of a node kind. -/
abbrev Value (tag : S.Tag) (key : Key tag) : Type :=
  PropertyValue (node tag).properties key.index

end GraphSchema

end Memorial
