import Memorial.Schema.CppTypes
import Memorial.Schema.JournalSchema

/-!
# The domain schema

`memorial_schema`: the twelve node kinds, twelve edge kinds and twelve relation rules that the
library ships with.  Its properties are `float` and `double` columns, and an append takes any value
of the type.
-/

namespace Memorial.Domain

open Journal (ascii)

/-- The layers, tags and relations. -/
inductive DomainName
  | worldLayer
  | perceptionLayer
  | cognitionLayer
  | affectBodyLayer
  | actionLayer
  | memoryLayer
  | latentGhostLayer
  | experienceTag
  | perceptionTag
  | thoughtTag
  | beliefTag
  | goalTag
  | emotionTag
  | bodyStateTag
  | decisionTag
  | actionTag
  | outcomeTag
  | memoryTag
  | ghostTag
  | temporalNextRelation
  | generatesRelation
  | activatesRelation
  | inhibitsRelation
  | biasesRelation
  | selectsRelation
  | rejectsRelation
  | causesRelation
  | encodesRelation
  | recallsRelation
  | reinterpretsRelation
  | evidenceForRelation
deriving DecidableEq

/-- The program of the domain schema stores no class types. -/
def domainProgram : ProgramTypes where
  Name := DomainName
  nameDecidableEq := inferInstance
  Object := Empty
  objectDecidableEq := inferInstance
  values := Empty.elim
  greaterThan _ _ := false
  greaterEqual _ _ := false
  lessThan _ _ := false
  lessEqual _ _ := false
  equalTo _ _ := false
  rangesSort := Library.stableSortAlgorithm

abbrev domainTypes : TypeSystem := cppTypes domainProgram

def float : domainTypes.ValueType := .arithmetic (.floating .float)

def double : domainTypes.ValueType := .arithmetic (.floating .double)

/-! ### Properties -/

def activationProperty : PropertySpec domainTypes where
  key := ascii ['a', 'c', 't', 'i', 'v', 'a', 't', 'i', 'o', 'n']
  valueType := float
  key_ne_nil := by decide

def confidenceProperty : PropertySpec domainTypes where
  key := ascii ['c', 'o', 'n', 'f', 'i', 'd', 'e', 'n', 'c', 'e']
  valueType := float
  key_ne_nil := by decide

def valenceProperty : PropertySpec domainTypes where
  key := ascii ['v', 'a', 'l', 'e', 'n', 'c', 'e']
  valueType := float
  key_ne_nil := by decide

def existenceProbabilityProperty : PropertySpec domainTypes where
  key := ascii
    ['e', 'x', 'i', 's', 't', 'e', 'n', 'c', 'e', '_', 'p', 'r', 'o',
      'b', 'a', 'b', 'i', 'l', 'i', 't', 'y']
  valueType := double
  key_ne_nil := by decide

def strengthProperty : PropertySpec domainTypes where
  key := ascii ['s', 't', 'r', 'e', 'n', 'g', 't', 'h']
  valueType := double
  key_ne_nil := by decide

/-! ### Nodes -/

def experienceNode : NodeSpec domainTypes :=
  ⟨.experienceTag, .worldLayer, [confidenceProperty], by decide⟩

def perceptionNode : NodeSpec domainTypes :=
  ⟨.perceptionTag, .perceptionLayer, [confidenceProperty], by decide⟩

def thoughtNode : NodeSpec domainTypes :=
  ⟨.thoughtTag, .cognitionLayer, [activationProperty, confidenceProperty], by decide⟩

def beliefNode : NodeSpec domainTypes :=
  ⟨.beliefTag, .cognitionLayer, [confidenceProperty], by decide⟩

def goalNode : NodeSpec domainTypes :=
  ⟨.goalTag, .cognitionLayer, [activationProperty], by decide⟩

def emotionNode : NodeSpec domainTypes :=
  ⟨.emotionTag, .affectBodyLayer, [activationProperty, valenceProperty], by decide⟩

def bodyStateNode : NodeSpec domainTypes :=
  ⟨.bodyStateTag, .affectBodyLayer, [activationProperty], by decide⟩

def decisionNode : NodeSpec domainTypes :=
  ⟨.decisionTag, .actionLayer, [confidenceProperty], by decide⟩

def actionNode : NodeSpec domainTypes :=
  ⟨.actionTag, .actionLayer, [confidenceProperty], by decide⟩

def outcomeNode : NodeSpec domainTypes :=
  ⟨.outcomeTag, .worldLayer, [confidenceProperty], by decide⟩

def memoryNode : NodeSpec domainTypes :=
  ⟨.memoryTag, .memoryLayer, [activationProperty, confidenceProperty], by decide⟩

def ghostNode : NodeSpec domainTypes :=
  ⟨.ghostTag, .latentGhostLayer,
    [activationProperty, confidenceProperty, existenceProbabilityProperty], by decide⟩

/-! ### Edges -/

def experienceTemporalNextExperience : EdgeSpec domainTypes :=
  ⟨.experienceTag, .temporalNextRelation, .experienceTag,
    [existenceProbabilityProperty], by decide⟩

def experienceGeneratesPerception : EdgeSpec domainTypes :=
  ⟨.experienceTag, .generatesRelation, .perceptionTag,
    [existenceProbabilityProperty], by decide⟩

def perceptionActivatesThought : EdgeSpec domainTypes :=
  ⟨.perceptionTag, .activatesRelation, .thoughtTag,
    [existenceProbabilityProperty, strengthProperty], by decide⟩

def emotionInhibitsThought : EdgeSpec domainTypes :=
  ⟨.emotionTag, .inhibitsRelation, .thoughtTag,
    [existenceProbabilityProperty, strengthProperty], by decide⟩

def ghostBiasesAction : EdgeSpec domainTypes :=
  ⟨.ghostTag, .biasesRelation, .actionTag,
    [existenceProbabilityProperty, strengthProperty], by decide⟩

def decisionSelectsAction : EdgeSpec domainTypes :=
  ⟨.decisionTag, .selectsRelation, .actionTag,
    [existenceProbabilityProperty], by decide⟩

def decisionRejectsAction : EdgeSpec domainTypes :=
  ⟨.decisionTag, .rejectsRelation, .actionTag,
    [existenceProbabilityProperty], by decide⟩

def actionCausesOutcome : EdgeSpec domainTypes :=
  ⟨.actionTag, .causesRelation, .outcomeTag,
    [existenceProbabilityProperty, strengthProperty], by decide⟩

def outcomeEncodesMemory : EdgeSpec domainTypes :=
  ⟨.outcomeTag, .encodesRelation, .memoryTag,
    [existenceProbabilityProperty, strengthProperty], by decide⟩

def memoryRecallsExperience : EdgeSpec domainTypes :=
  ⟨.memoryTag, .recallsRelation, .experienceTag,
    [existenceProbabilityProperty, strengthProperty], by decide⟩

def memoryReinterpretsMemory : EdgeSpec domainTypes :=
  ⟨.memoryTag, .reinterpretsRelation, .memoryTag,
    [existenceProbabilityProperty, strengthProperty], by decide⟩

def actionEvidenceForGhost : EdgeSpec domainTypes :=
  ⟨.actionTag, .evidenceForRelation, .ghostTag,
    [existenceProbabilityProperty, strengthProperty], by decide⟩

/-! ### The schema -/

def memorialRelationRules : RelationRules domainTypes :=
  .rules
    [ ⟨.temporalNextRelation, .worldLayer, .worldLayer⟩,
      ⟨.generatesRelation, .worldLayer, .perceptionLayer⟩,
      ⟨.activatesRelation, .perceptionLayer, .cognitionLayer⟩,
      ⟨.inhibitsRelation, .affectBodyLayer, .cognitionLayer⟩,
      ⟨.biasesRelation, .latentGhostLayer, .actionLayer⟩,
      ⟨.selectsRelation, .actionLayer, .actionLayer⟩,
      ⟨.rejectsRelation, .actionLayer, .actionLayer⟩,
      ⟨.causesRelation, .actionLayer, .worldLayer⟩,
      ⟨.encodesRelation, .worldLayer, .memoryLayer⟩,
      ⟨.recallsRelation, .memoryLayer, .worldLayer⟩,
      ⟨.reinterpretsRelation, .memoryLayer, .memoryLayer⟩,
      ⟨.evidenceForRelation, .actionLayer, .latentGhostLayer⟩ ]
    (by decide)

def memorialSchema : GraphSchema domainTypes where
  nodes :=
    [ experienceNode, perceptionNode, thoughtNode, beliefNode, goalNode, emotionNode,
      bodyStateNode, decisionNode, actionNode, outcomeNode, memoryNode, ghostNode ]
  edges :=
    [ experienceTemporalNextExperience, experienceGeneratesPerception, perceptionActivatesThought,
      emotionInhibitsThought, ghostBiasesAction, decisionSelectsAction, decisionRejectsAction,
      actionCausesOutcome, outcomeEncodesMemory, memoryRecallsExperience,
      memoryReinterpretsMemory, actionEvidenceForGhost ]
  relationRules := memorialRelationRules
  nodeTagsUnique := by decide
  edgeSignaturesUnique := by decide
  endpointsKnown := by decide
  layersAllowed := by decide
  nodes_length_lt := by decide
  edges_length_lt := by decide

def thought : memorialSchema.Tag := ⟨DomainName.thoughtTag, by decide⟩

def activation : GraphSchema.Key thought := ⟨activationProperty.key, ⟨0, by decide⟩, by decide⟩

/-- The values of a thought. -/
def thoughtValues (activation confidence : Library.Floating binary32) :
    PropertyValues (GraphSchema.node thought).properties
  | ⟨0, _⟩ => activation
  | ⟨1, _⟩ => confidence

end Memorial.Domain
