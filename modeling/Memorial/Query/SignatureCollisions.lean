import Memorial.Query.SignatureReading
import Memorial.Schema.MemorialSchema

/-!
# Colliding signatures

No length and no terminator stands between the keys of a projection, so `project<"a", "bc">` and
`project<"ab", "c">` feed the same bytes; and a count is any eight bytes, which a longer key can
spell.

* `SignaturesSeparate` — optimized queries that feed the same bytes have the same shape;
* `splits_of_separate`, `eight_of_separate`, `nine_of_separate` — **PROVED**: what keys without
  NUL characters have to be for that, each by two queries that collide;
* `signatures_separate` — **PROVED**: it holds of schemas whose keys can be read, and of no others
  if no key has a NUL character.
-/

namespace Memorial.Query

open Library Meta TypedQuery

variable {C : TypeSystem} {S : GraphSchema C}

/-- Optimized queries whose signatures are fed the same bytes have the same shape. -/
def SignaturesSeparate (S : GraphSchema C) : Prop :=
  ∀ query other : TypedQuery S, query.Rebuilt → other.Rebuilt →
    expressionBytes (optimize query).expression = expressionBytes (optimize other).expression →
      SameShape (optimize query).expression (optimize other).expression

/-- Keys of every node kind that can be read: texts that are separate, or any bytes that delimit
themselves. -/
def KeysReadable (S : GraphSchema C) : Prop :=
  ∀ tag : S.Tag, (KeysAreText tag ∧ KeysSeparate tag) ∨ KeysSelfDelimit tag

/-! ### Queries that collide -/

section Collisions

variable {tag : S.Tag}

theorem hasProperty_of_unprojected (query : TypedQuery S) (h : query.projection = none)
    (key : GraphSchema.Key query.current) : query.HasProperty key := by
  intro keys hkeys
  rw [h] at hkeys
  cases hkeys

/-- A ranking of a node kind, as a query. -/
abbrev rankedQuery (ranking : TopK tag) : TypedQuery S :=
  (TypedQuery.from tag).topK ranking (hasProperty_of_unprojected (.from tag) rfl ranking.key)

theorem rebuilt_rankedQuery (ranking : TopK tag) : (rankedQuery ranking).Rebuilt :=
  .topK (.from tag) ranking _

/-- Of queries from one source the stages tell whether they collide. -/
theorem stages_of_separate (h : SignaturesSeparate S) {stages stages' : List (StageShape S)}
    (hstages : stagesBytes stages = stagesBytes stages') {query other : TypedQuery S}
    (hquery : query.Rebuilt) (hother : other.Rebuilt)
    (hsource : (optimize query).expression.sourceTag = (optimize other).expression.sourceTag)
    (hshapes : (optimize query).expression.stageShapes = stages)
    (hshapes' : (optimize other).expression.stageShapes = stages') : stages = stages' := by
  rw [← hshapes, ← hshapes']
  refine (h query other hquery hother ?_).stageShapes
  rw [expressionBytes_eq, expressionBytes_eq, hsource, hshapes, hshapes', hstages]

theorem flatMap_key_eq_nil {keys : List (GraphSchema.Key tag)}
    (h : keys.flatMap PropertyKey.key = []) : keys = [] := by
  cases keys with
  | nil => rfl
  | cons key keys =>
    rw [List.flatMap_cons] at h
    exact absurd (List.append_eq_nil_iff.mp h).1 (key_ne_nil key)

/-- **Different lists of keys that spell the same text collide** as projections. -/
theorem splits_of_separate (h : SignaturesSeparate S) (keys keys' : List (GraphSchema.Key tag))
    (heq : keys.flatMap PropertyKey.key = keys'.flatMap PropertyKey.key) : keys = keys' := by
  by_cases hne : keys = []
  · rw [hne] at heq ⊢
    exact (flatMap_key_eq_nil heq.symm).symm
  · have hne' : keys' ≠ [] := by
      intro hnil
      rw [hnil] at heq
      exact hne (flatMap_key_eq_nil heq)
    have hstages : stagesBytes (S := S) [.project (keys.map PropertyKey.key)] =
        stagesBytes (S := S) [.project (keys'.map PropertyKey.key)] := by
      rw [stagesBytes_cons, stagesBytes_cons, StageShape.bodyBytes, StageShape.bodyBytes,
        ← List.flatMap_def, ← List.flatMap_def, heq]
      rfl
    have hshapes := stages_of_separate h hstages (.project (.from tag) keys hne rfl)
      (.project (.from tag) keys' hne' rfl) rfl rfl rfl
    have hspelled : keys.map PropertyKey.key = keys'.map PropertyKey.key :=
      StageShape.project.inj (List.cons_eq_cons.mp hshapes).1
    refine List.map_injective_iff.mpr ?_ hspelled
    exact fun _ _ => PropertyKey.ext_key

/-- Eight bytes that are not all zero are those of a count. -/
theorem exists_count {bytes : List UInt8} (hlength : bytes.length = 8) {byte : UInt8}
    (hbyte : byte ∈ bytes) (hne : byte ≠ 0) :
    ∃ count, 0 < count ∧ count < UInt64.size ∧ mixBytes (.ofNat count) = bytes := by
  obtain ⟨value, -, hvalue⟩ := exists_unsignedBytes bytes (Nat.le_of_eq hlength)
  rw [hlength] at hvalue
  refine ⟨value.toNat, ?_, value.toNat_lt, by rw [UInt64.ofNat_toNat]; exact hvalue⟩
  refine Nat.pos_of_ne_zero fun hzero => hne ?_
  obtain rfl : value = 0 := UInt64.toNat_inj.mp hzero
  have hzeros : unsignedBytes 8 0 = List.replicate 8 0 := by decide
  rw [← hvalue, hzeros] at hbyte
  exact List.eq_of_mem_replicate hbyte

/-- What a key leaves of a longer one without NUL, as the bytes of a count. -/
theorem exists_count_of_longer (htext : KeysAreText tag) {key longer : GraphSchema.Key tag}
    {bytes more : List UInt8} (hlength : bytes.length = 8)
    (hlonger : longer.key = key.key ++ (bytes ++ more)) :
    ∃ count, 0 < count ∧ count < UInt64.size ∧ mixBytes (.ofNat count) = bytes := by
  obtain ⟨byte, hbyte⟩ := List.exists_mem_of_length_pos (by omega : 0 < bytes.length)
  refine exists_count hlength hbyte ?_
  rintro rfl
  exact htext longer (by rw [hlonger]; simp [hbyte])

/-- Seven zero bytes and a key of one byte are those of a count. -/
theorem exists_count_of_single (htext : KeysAreText tag) {single : GraphSchema.Key tag}
    (hsingle : single.key.length = 1) :
    ∃ count, 0 < count ∧ count < UInt64.size ∧
      mixBytes (.ofNat count) = List.replicate 7 0 ++ single.key := by
  obtain ⟨symbol, hsymbol⟩ := List.length_eq_one_iff.mp hsingle
  have hmem : symbol ∈ single.key := by
    rw [hsymbol]
    exact List.mem_singleton_self symbol
  refine exists_count (by simp [hsingle]) (List.mem_append_right _ hmem) ?_
  rintro rfl
  exact htext single hmem

/-- **A key that is another one and a count collides**: the count of the longer key is a limit. -/
theorem eight_of_separate (htext : KeysAreText tag) (h : SignaturesSeparate S)
    (key longer : GraphSchema.Key tag) (bytes : List UInt8) (hlength : bytes.length = 8) :
    longer.key ≠ key.key ++ bytes := by
  intro hlonger
  have hcovers : longer.key = key.key ++ (bytes ++ []) := by rw [hlonger, List.append_nil]
  obtain ⟨count, hpos, hlt, hcount⟩ := exists_count_of_longer htext hlength hcovers
  have hstages : stagesBytes (S := S) [.topK key.key count, .limit] =
      stagesBytes (S := S) [.topK longer.key 8] := by
    have hlimit : (StageShape.limit : StageShape S).bodyBytes = [] := rfl
    rw [stagesBytes_cons, stagesBytes_cons, stagesBytes_cons, StageShape.bodyBytes, hlimit,
      StageShape.bodyBytes, hcount, hlonger]
    simp only [List.append_assoc]
    rfl
  have hquery := rebuilt_rankedQuery ⟨count, key, .ascending, hpos, hlt⟩
  have hother := rebuilt_rankedQuery ⟨8, longer, .ascending, by decide, by decide⟩
  have hshapes := stages_of_separate h hstages (.limit hquery 0) hother rfl rfl rfl
  exact Nat.succ_ne_self 1 (congrArg List.length hshapes)

/-- Where a longer key spells a count and the kind of the next stage, its own count spells the rest
of that kind and a key of one byte. -/
theorem stagesBytes_nine {key longer single : GraphSchema.Key tag} {bytes : List UInt8}
    {kind : PlanOperationKind} (hlonger : longer.key = key.key ++ (bytes ++ [kind.code]))
    {count count' : ℕ} (hcount : mixBytes (.ofNat count) = bytes)
    (hcount' : mixBytes (.ofNat count') = List.replicate 7 0 ++ single.key)
    {stage : StageShape S} {rest rest' : List (StageShape S)}
    (hrest : stage.bodyBytes ++ stagesBytes rest = single.key ++ stagesBytes rest')
    (hkind : stage.kind = kind) :
    stagesBytes (.topK key.key count :: stage :: rest) =
      stagesBytes (.topK longer.key count' :: rest') := by
  rw [stagesBytes_cons, stagesBytes_cons, stagesBytes_cons, StageShape.bodyBytes,
    StageShape.bodyBytes, hcount, hcount', hlonger, hrest, hkind]
  simp only [List.append_assoc, List.cons_append, List.nil_append]
  rfl

/-- **A key that is another one, a count and a kind collides** where there is a key of one byte. -/
theorem nine_of_separate (htext : KeysAreText tag) (h : SignaturesSeparate S)
    (key longer single : GraphSchema.Key tag) (bytes : List UInt8) (kind : PlanOperationKind)
    (hlength : bytes.length = 8) (hsingle : single.key.length = 1) (hnames : NamesKey tag kind) :
    longer.key ≠ key.key ++ (bytes ++ [kind.code]) := by
  intro hlonger
  obtain ⟨count, hpos, hlt, hcount⟩ := exists_count_of_longer htext hlength hlonger
  obtain ⟨count', hpos', hlt', hcount'⟩ := exists_count_of_single htext hsingle
  have hquery := rebuilt_rankedQuery ⟨count, key, .ascending, hpos, hlt⟩
  have hother := rebuilt_rankedQuery ⟨count', longer, .ascending, hpos', hlt'⟩
  have havailable := hasProperty_of_unprojected
    (rankedQuery ⟨count, key, .ascending, hpos, hlt⟩) rfl single
  cases kind with
  | predicateFilter =>
    obtain ⟨comparison⟩ := hnames
    have hrest : (StageShape.filter [(single.key, .greaterThan)] : StageShape S).bodyBytes ++
        stagesBytes (S := S) [] = single.key ++ stagesBytes (S := S) [.activeAt] := by
      simp only [StageShape.bodyBytes, stagesBytes, List.flatMap_cons, List.flatMap_nil,
        List.append_nil, StageShape.predicateBytes]
      rfl
    have hshapes := stages_of_separate h (stagesBytes_nine hlonger hcount hcount' hrest rfl)
      (.where_ hquery ⟨single, .greaterThan, comparison.valueType, comparison.value⟩ havailable)
      (.activeAt hother 0) rfl rfl rfl
    cases (List.cons_eq_cons.mp hshapes).2
  | projection =>
    have hrest : (StageShape.project [single.key] : StageShape S).bodyBytes ++
        stagesBytes (S := S) [] = single.key ++ stagesBytes (S := S) [] := by
      rw [StageShape.bodyBytes, List.flatten_singleton]
    have hshapes := stages_of_separate h (stagesBytes_nine hlonger hcount hcount' hrest rfl)
      (.project hquery [single] (List.cons_ne_nil single []) rfl) hother rfl rfl rfl
    exact Nat.succ_ne_self 1 (congrArg List.length hshapes)
  | topK =>
    have hrest : (StageShape.topK single.key 8 : StageShape S).bodyBytes ++
        stagesBytes (S := S) [] = single.key ++ stagesBytes (S := S) [.limit] := by
      simp only [StageShape.bodyBytes, stagesBytes, List.flatMap_cons, List.flatMap_nil,
        List.append_nil]
      rfl
    have hshapes := stages_of_separate h (stagesBytes_nine hlonger hcount hcount' hrest rfl)
      (.topK hquery ⟨8, single, .ascending, by decide, by decide⟩ havailable)
      (.limit hother 0) rfl rfl rfl
    cases (List.cons_eq_cons.mp hshapes).2
  | _ => exact hnames

end Collisions

/-! ### Signatures that separate -/

/-- **Signatures separate the shapes of queries where the keys can be read**, and where no key has a
NUL character, nowhere else. -/
theorem signatures_separate (S : GraphSchema C) :
    (KeysReadable S → SignaturesSeparate S) ∧
      ((∀ tag : S.Tag, KeysAreText tag) → SignaturesSeparate S → KeysReadable S) := by
  constructor
  · intro hkeys query other _ _ hbytes
    refine sameShape_of_bytes (fun tag => ?_) hbytes
    rcases hkeys tag with ⟨htext, hseparate⟩ | hdelimit
    · exact hseparate.readsKeys htext
    · exact hdelimit.readsKeys
  · intro htext hseparate tag
    exact Or.inl ⟨htext tag,
      { splits := splits_of_separate hseparate
        eight := eight_of_separate (htext tag) hseparate
        nine := nine_of_separate (htext tag) hseparate }⟩

/-! ### Schemas -/

/-- No key of a property list begins another one, and none begins with the byte of a stage. -/
def propertiesSelfDelimit (properties : List (PropertySpec C)) : Bool :=
  properties.all (fun property =>
    properties.all (fun longer =>
      !property.key.isPrefixOf longer.key || property.key == longer.key) &&
    property.key.head?.all (fun first => first == 0 || decide (8 < first)))

/-- A check that the author of a schema can run. -/
theorem keysReadable_of_properties
    (h : S.nodes.all (fun node => propertiesSelfDelimit node.properties) = true) :
    KeysReadable S := by
  intro tag
  have hproperties := List.all_eq_true.mp
    (List.all_eq_true.mp h (GraphSchema.node tag) (node_mem tag))
  refine Or.inr { prefixFree := ?_, start := ?_ }
  · intro key longer hprefix
    obtain ⟨property, hproperty, hkey⟩ := exists_property key
    obtain ⟨other, hother, hlonger⟩ := exists_property longer
    rw [← hkey, ← hlonger] at hprefix ⊢
    have hall := (Bool.and_eq_true_iff.mp (hproperties property hproperty)).1
    have hpair := List.all_eq_true.mp hall other hother
    rw [List.isPrefixOf_iff_prefix.mpr hprefix, Bool.not_true, Bool.false_or] at hpair
    exact eq_of_beq hpair
  · intro key first hfirst
    obtain ⟨property, hproperty, hkey⟩ := exists_property key
    have hall := (Bool.and_eq_true_iff.mp (hproperties property hproperty)).2
    rw [hkey, hfirst, Option.all_some, Bool.or_eq_true, beq_iff_eq, decide_eq_true_iff] at hall
    exact hall

theorem keysAreText_of_properties
    (h : S.nodes.all (fun node => node.properties.all (fun property => !property.key.contains 0)) =
      true) (tag : S.Tag) : KeysAreText tag := by
  intro key hzero
  obtain ⟨property, hproperty, hkey⟩ := exists_property key
  have hnode := List.all_eq_true.mp h (GraphSchema.node tag) (node_mem tag)
  have htext := List.all_eq_true.mp hnode property hproperty
  rw [hkey, List.contains_iff_mem.mpr hzero] at htext
  cases htext

/-- The domain schema: no property of a node kind begins another one. -/
theorem signatures_separate_memorialSchema :
    SignaturesSeparate Domain.memorialSchema ∧ KeysReadable Domain.memorialSchema := by
  have hseparate := (signatures_separate Domain.memorialSchema).1
    (keysReadable_of_properties (by decide))
  exact ⟨hseparate, (signatures_separate Domain.memorialSchema).2
    (keysAreText_of_properties (by decide)) hseparate⟩

/-- A thought with the properties `a`, `ab`, `bc` and `c`. -/
def splitNode : NodeSpec Journal.journalTypes where
  tag := Journal.JournalName.thought
  layer := Journal.JournalName.cognitionLayer
  properties :=
    [ { key := Journal.ascii ['a'], valueType := Journal.JournalValue.int32,
        key_ne_nil := by decide },
      { key := Journal.ascii ['a', 'b'], valueType := Journal.JournalValue.int32,
        key_ne_nil := by decide },
      { key := Journal.ascii ['b', 'c'], valueType := Journal.JournalValue.int32,
        key_ne_nil := by decide },
      { key := Journal.ascii ['c'], valueType := Journal.JournalValue.int32,
        key_ne_nil := by decide } ]
  keysUnique := by decide

def splitSchema : GraphSchema Journal.journalTypes where
  nodes := [splitNode]
  edges := []
  relationRules := .unrestricted
  nodeTagsUnique := by decide
  edgeSignaturesUnique := by decide
  endpointsKnown := by decide
  layersAllowed := by decide
  nodes_length_lt := by decide
  edges_length_lt := by decide

/-- The only node kind of the schema. -/
def splitTag : splitSchema.Tag := ⟨Journal.JournalName.thought, by decide⟩

def splitKey (index : Fin (GraphSchema.node splitTag).properties.length)
    (found : findProperty ((GraphSchema.node splitTag).properties.get index).key
      (GraphSchema.node splitTag).properties = some index) : GraphSchema.Key splitTag :=
  ⟨((GraphSchema.node splitTag).properties.get index).key, index, found⟩

/-- `project<"a", "bc">` and `project<"ab", "c">` feed the same bytes. -/
theorem signatures_collide : ¬ SignaturesSeparate splitSchema := by
  intro h
  have hsame := h
    ((TypedQuery.from splitTag).project
      [splitKey ⟨0, by decide⟩ (by decide), splitKey ⟨2, by decide⟩ (by decide)] (by simp) rfl)
    ((TypedQuery.from splitTag).project
      [splitKey ⟨1, by decide⟩ (by decide), splitKey ⟨3, by decide⟩ (by decide)] (by simp) rfl)
    (.project (.from splitTag) _ _ _) (.project (.from splitTag) _ _ _) (by decide)
  have hspelled := StageShape.project.inj (List.cons_eq_cons.mp hsame.stageShapes).1
  exact absurd hspelled (by decide)

end Memorial.Query
