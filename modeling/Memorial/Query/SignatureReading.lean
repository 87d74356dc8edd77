import Memorial.Query.Signature

/-!
# Reading a signature

Whether the bytes of a query can be read back depends on the keys of the schema alone, since only
keys are of no fixed length.  Characters that are not NUL end where the first eight-byte integer
starts, whose second byte is NUL, unless a count follows the key: its bytes can be any.

* `KeysSeparate`, `KeysSelfDelimit` — what the keys of a node kind have to be for that;
* `Fits` — the stages of a pipeline name keys of the node kind that it has reached;
* `late_reading` — **PROVED**: where a reading has fallen one byte behind;
* `stage_reading`, `stagesBytes_injective` — **PROVED**: one stage, and the stages of a pipeline;
* `sameShape_of_bytes` — **PROVED**: pipelines with the same bytes have the same shape.
-/

namespace Memorial.Query

open Library Meta

variable {C : TypeSystem} {S : GraphSchema C}

/-! ### What the keys have to be -/

/-- The byte of a kind, which seven zero bytes follow. -/
def PlanOperationKind.code (kind : PlanOperationKind) : UInt8 := kind.value.toUInt8

/-- The kinds of the stages that name a key; a filter needs a value to compare with. -/
def NamesKey (tag : S.Tag) : PlanOperationKind → Prop
  | .predicateFilter => Nonempty (Comparison tag)
  | .projection => True
  | .topK => True
  | _ => False

/-- No key has a NUL character in its literal. -/
def KeysAreText (tag : S.Tag) : Prop := ∀ key : GraphSchema.Key tag, 0 ∉ key.key

/-- Different lists of keys spell different texts; no key is another one and eight bytes more; nor,
where there is a key of one byte, is it another one, eight bytes and the byte of a kind that names
a key. -/
structure KeysSeparate (tag : S.Tag) : Prop where
  splits : ∀ keys keys' : List (GraphSchema.Key tag),
    keys.flatMap PropertyKey.key = keys'.flatMap PropertyKey.key → keys = keys'
  eight : ∀ (key longer : GraphSchema.Key tag) (count : List UInt8), count.length = 8 →
    longer.key ≠ key.key ++ count
  nine : ∀ (key longer single : GraphSchema.Key tag) (count : List UInt8)
    (kind : PlanOperationKind), count.length = 8 → single.key.length = 1 → NamesKey tag kind →
      longer.key ≠ key.key ++ (count ++ [kind.code])

/-- No key begins another one, and none begins with the byte of a stage. -/
structure KeysSelfDelimit (tag : S.Tag) : Prop where
  prefixFree : ∀ key longer : GraphSchema.Key tag, key.key <+: longer.key → key.key = longer.key
  start : ∀ (key : GraphSchema.Key tag) (first : UInt8), key.key.head? = some first →
    first = 0 ∨ 8 < first

theorem isPrefixCode_of_prefixFree {tag : S.Tag}
    (h : ∀ key longer : GraphSchema.Key tag, key.key <+: longer.key → key.key = longer.key) :
    IsPrefixCode (fun key : GraphSchema.Key tag => key.key) where
  injective _ _ hkeys := PropertyKey.ext_key hkeys
  prefixFree := h

theorem exists_property {tag : S.Tag} (key : GraphSchema.Key tag) :
    ∃ property ∈ (GraphSchema.node tag).properties, property.key = key.key := by
  obtain ⟨hmatch, -⟩ := List.findFinIdx?_eq_some_iff.mp key.found
  exact ⟨_, List.getElem_mem _, eq_of_beq hmatch⟩

theorem key_ne_nil {tag : S.Tag} (key : GraphSchema.Key tag) : key.key ≠ [] := by
  obtain ⟨property, -, hkey⟩ := exists_property key
  rw [← hkey]
  exact property.key_ne_nil

theorem node_mem (tag : S.Tag) : GraphSchema.node tag ∈ S.nodes := by
  have hfound : findNode tag.1 S.nodes = some (GraphSchema.node tag) := (Option.some_get tag.2).symm
  rw [findNode, typeListFindIf_eq_find?] at hfound
  exact List.mem_of_find?_eq_some hfound

/-! ### Stages that a pipeline can have -/

/-- A stage at a node kind names keys of it. -/
def StageShape.On (tag : S.Tag) : StageShape S → Prop
  | .filter predicates =>
    ∀ predicate ∈ predicates, ∃ comparison : Comparison tag, comparison.shape = predicate
  | .traverse edge => GraphSchema.source edge = tag
  | .project keys => ∃ declared : List (GraphSchema.Key tag), declared.map PropertyKey.key = keys
  | .topK key count => (∃ declared : GraphSchema.Key tag, declared.key = key) ∧ count < UInt64.size
  | _ => True

/-- The node kind that a stage leads to. -/
def StageShape.next (tag : S.Tag) : StageShape S → S.Tag
  | .traverse edge => GraphSchema.target edge
  | _ => tag

/-- Every stage is at the node kind that the ones before it lead to. -/
def Fits : S.Tag → List (StageShape S) → Prop
  | _, [] => True
  | tag, stage :: rest => stage.On tag ∧ Fits (stage.next tag) rest

theorem fits_append {tag : S.Tag} {stages : List (StageShape S)} {last : StageShape S} :
    Fits tag (stages ++ [last]) ↔
      Fits tag stages ∧ last.On (stages.foldl StageShape.next tag) := by
  induction stages generalizing tag with
  | nil => simp only [List.nil_append, Fits, List.foldl_nil, and_true, true_and]
  | cons stage stages ih => rw [List.cons_append, Fits, ih, Fits, List.foldl_cons, and_assoc]

/-- The shape of an operation is at the node kind that it starts from. -/
theorem Operation.shape_on {current next : S.Tag} (operation : Operation S current next) :
    operation.shape.On current ∧ operation.shape.next current = next := by
  cases operation with
  | where_ predicate =>
    refine ⟨?_, rfl⟩
    intro shape hshape
    exact ⟨predicate, (List.mem_singleton.mp hshape).symm⟩
  | fusedWhere predicates =>
    refine ⟨?_, rfl⟩
    intro shape hshape
    obtain ⟨predicate, -, hpredicate⟩ := List.mem_map.mp hshape
    exact ⟨predicate, hpredicate⟩
  | traverse edge => exact ⟨rfl, rfl⟩
  | project keys => exact ⟨⟨keys, rfl⟩, rfl⟩
  | topK ranking => exact ⟨⟨⟨ranking.key, rfl⟩, ranking.count_lt⟩, rfl⟩
  | _ => exact ⟨trivial, rfl⟩

/-- **The stages of a pipeline fit**, and lead to its node kind. -/
theorem fits_stageShapes {tag : S.Tag} (expression : Expression S tag) :
    Fits expression.sourceTag expression.stageShapes ∧
      expression.stageShapes.foldl StageShape.next expression.sourceTag = tag := by
  induction expression with
  | source tag => exact ⟨trivial, rfl⟩
  | pipeline previous operation ih =>
    obtain ⟨hfits, htag⟩ := ih
    obtain ⟨hon, hnext⟩ := operation.shape_on
    rw [Expression.stageShapes, Expression.sourceTag, fits_append, List.foldl_append, htag]
    exact ⟨⟨hfits, hon⟩, hnext⟩

/-! ### Integers and stages, byte by byte -/

theorem mixBytes_length (value : UInt64) : (mixBytes value).length = 8 :=
  unsignedBytes_length 8 value

theorem mixBytes_injective {x y : ℕ} (hx : x < UInt64.size) (hy : y < UInt64.size)
    (h : mixBytes (.ofNat x) = mixBytes (.ofNat y)) : x = y :=
  unsignedBytes_injective (Nat.le_refl 8) hx hy h

theorem mixBytes_kind (kind : PlanOperationKind) :
    mixBytes kind.value = kind.code :: List.replicate 7 0 := by
  cases kind <;> decide

theorem mixBytes_signature (operator : ComparisonOp) :
    mixBytes operator.signature = operator.signature.toUInt8 :: List.replicate 7 0 := by
  cases operator <;> decide

theorem StageShape.code_ne_zero (stage : StageShape S) : stage.kind.code ≠ 0 := by
  have hcode : ∀ kind : PlanOperationKind, kind ≠ .sourceScan → kind.code ≠ 0 := by
    intro kind
    cases kind <;> decide
  refine hcode _ ?_
  cases stage <;> exact nofun

theorem code_le (kind : PlanOperationKind) : kind.code ≤ 8 := by
  cases kind <;> decide

theorem code_injective {kind kind' : PlanOperationKind} (h : kind.code = kind'.code) :
    kind = kind' := by
  cases kind <;> cases kind' <;> first | rfl | exact absurd h (by decide)

theorem stagesBytes_cons (stage : StageShape S) (rest : List (StageShape S)) :
    stagesBytes (stage :: rest) =
      stage.kind.code :: (List.replicate 7 0 ++ (stage.bodyBytes ++ stagesBytes rest)) := by
  rw [stagesBytes, List.flatMap_cons, mixBytes_kind, List.append_assoc]
  rfl

theorem stagesBytes_getElem? (stage : StageShape S) (rest : List (StageShape S)) {i : ℕ}
    (hpos : 0 < i) (hi : i < 8) : (stagesBytes (stage :: rest))[i]? = some 0 := by
  obtain ⟨i, rfl⟩ : ∃ j, i = j + 1 := ⟨i - 1, by omega⟩
  rw [stagesBytes_cons, List.getElem?_cons_succ,
    List.getElem?_append_left (by rw [List.length_replicate]; omega),
    List.getElem?_replicate, if_pos (by omega)]

theorem startsMarked_stagesBytes (stages : List (StageShape S)) :
    StartsMarked 0 (stagesBytes stages) := by
  cases stages with
  | nil => exact Or.inl rfl
  | cons stage stages =>
    refine Or.inr ⟨stage.kind.code,
      List.replicate 6 0 ++ (stage.bodyBytes ++ stagesBytes stages), stage.code_ne_zero, ?_⟩
    rw [stagesBytes_cons]
    rfl

/-- No stage starts with a zero byte. -/
theorem stagesBytes_ne_zero_cons (stages : List (StageShape S)) (rest : List UInt8) :
    stagesBytes stages ≠ 0 :: rest :=
  (startsMarked_stagesBytes stages).ne_mark_cons rest

/-- The second byte of a stage is zero. -/
theorem stagesBytes_second {stages : List (StageShape S)} {first : UInt8} {rest : List UInt8}
    (h : stagesBytes stages = first :: rest) : ∃ more, rest = 0 :: more := by
  have hmarked := startsMarked_stagesBytes stages
  rw [h] at hmarked
  exact hmarked.second

theorem startsMarked_signature (operator : ComparisonOp) (rest : List UInt8) :
    StartsMarked 0 (mixBytes operator.signature ++ rest) := by
  refine Or.inr ⟨operator.signature.toUInt8, List.replicate 6 0 ++ rest, ?_, ?_⟩
  · cases operator <;> decide
  · rw [mixBytes_signature]
    rfl

/-! ### A reading that has fallen behind -/

/-- Of two ways to cut a list, one is a symbol further. -/
theorem append_eq_append_succ {α : Type} {first second rest rest' : List α}
    (h : first ++ rest = second ++ rest') (hlength : second.length = first.length + 1) :
    ∃ last, second = first ++ [last] ∧ rest = last :: rest' := by
  rcases List.append_eq_append_iff.mp h with ⟨middle, hsecond, hrest⟩ | ⟨middle, hfirst, -⟩
  · have hmiddle : middle.length = 1 := by
      rw [hsecond, List.length_append] at hlength
      omega
    obtain ⟨last, rfl⟩ := List.length_eq_one_iff.mp hmiddle
    exact ⟨last, hsecond, hrest⟩
  · rw [hfirst, List.length_append] at hlength
    omega

/-- No stage starts within the first eight bytes of another. -/
theorem length_ge_of_stagesBytes {stages rest : List (StageShape S)} {front : List UInt8}
    (hfront : front ≠ []) (h : stagesBytes stages = front ++ stagesBytes rest) :
    8 ≤ front.length := by
  by_contra hlength
  cases stages with
  | nil => exact hfront (List.append_eq_nil_iff.mp h.symm).1
  | cons stage stages =>
    have hzero : (front ++ stagesBytes rest)[front.length]? = some 0 := by
      rw [← h]
      exact stagesBytes_getElem? stage stages (List.length_pos_iff.mpr hfront) (by omega)
    rw [List.getElem?_append_right (Nat.le_refl _), Nat.sub_self] at hzero
    cases hrest : stagesBytes rest with
    | nil =>
      rw [hrest] at hzero
      cases hzero
    | cons first more =>
      rw [hrest] at hzero
      obtain rfl : first = 0 := Option.some.inj hzero
      exact stagesBytes_ne_zero_cons rest more hrest

/-- A stage is not one byte in front of another. -/
theorem stagesBytes_ne_cons (rest ahead : List (StageShape S)) (last : UInt8) :
    stagesBytes rest ≠ last :: stagesBytes ahead := by
  intro h
  have hlength := length_ge_of_stagesBytes (List.cons_ne_nil last []) h
  exact absurd hlength (by simp)

/-- Nor is an integer, and then a stage. -/
theorem mixBytes_append_ne_cons (value : UInt64) (rest ahead : List (StageShape S))
    (last : UInt8) : mixBytes value ++ stagesBytes rest ≠ last :: stagesBytes ahead := by
  intro h
  have hlength := mixBytes_length value
  cases hbytes : mixBytes value with
  | nil =>
    rw [hbytes] at hlength
    cases hlength
  | cons first front =>
    rw [hbytes] at h hlength
    obtain ⟨-, hahead⟩ := List.cons_eq_cons.mp h
    rw [List.length_cons] at hlength
    have hfront : front ≠ [] := by
      rintro rfl
      cases hlength
    have hge := length_ge_of_stagesBytes hfront hahead.symm
    omega

/-- A key that starts one byte in front of a stage is that byte alone, or one more symbol with a
zero byte after it. -/
theorem key_behind {key more : List UInt8} {ahead : List (StageShape S)} {last : UInt8}
    (hkey : key ≠ []) (htext : 0 ∉ key) (h : key ++ more = last :: stagesBytes ahead) :
    key.length = 1 ∨
      ∃ first rest, more = 0 :: rest ∧ stagesBytes ahead = first :: more := by
  cases key with
  | nil => exact absurd rfl hkey
  | cons symbol key =>
    obtain ⟨-, htail⟩ := List.cons_eq_cons.mp h
    cases key with
    | nil => exact Or.inl rfl
    | cons first key =>
      obtain ⟨rest, hrest⟩ := stagesBytes_second htail.symm
      cases key with
      | nil => exact Or.inr ⟨first, rest, hrest, htail.symm⟩
      | cons second key =>
        obtain ⟨rfl, -⟩ := List.cons_eq_cons.mp hrest
        exact absurd (by simp) htext

/-- Keys without NUL spell a text without NUL. -/
theorem zero_notMem_flatten {tag : S.Tag} (htext : KeysAreText tag)
    (keys : List (GraphSchema.Key tag)) : 0 ∉ (keys.map PropertyKey.key).flatten := by
  intro hzero
  obtain ⟨key, hkey, hmem⟩ := List.mem_flatten.mp hzero
  obtain ⟨declared, -, rfl⟩ := List.mem_map.mp hkey
  exact htext declared hmem

theorem text_append_ne_zero_cons {tag : S.Tag} (htext : KeysAreText tag)
    (keys : List (GraphSchema.Key tag)) (stages : List (StageShape S)) (rest : List UInt8) :
    (keys.map PropertyKey.key).flatten ++ stagesBytes stages ≠ 0 :: rest := by
  have hzero := zero_notMem_flatten htext keys
  intro h
  cases hkeys : (keys.map PropertyKey.key).flatten with
  | nil =>
    rw [hkeys] at h
    exact stagesBytes_ne_zero_cons stages rest h
  | cons symbol word =>
    rw [hkeys] at h hzero
    obtain ⟨rfl, -⟩ := List.cons_eq_cons.mp h
    exact hzero List.mem_cons_self

/-- A filter one byte behind starts with a key of one byte. -/
theorem late_filter {tag : S.Tag} (htext : KeysAreText tag)
    {predicates : List (FixedString × ComparisonOp)}
    (hon : (StageShape.filter predicates : StageShape S).On tag)
    {rest ahead : List (StageShape S)} {last : UInt8}
    (h : predicates.flatMap StageShape.predicateBytes ++ stagesBytes rest =
      last :: stagesBytes ahead) :
    Nonempty (Comparison tag) ∧ ∃ single : GraphSchema.Key tag, single.key.length = 1 := by
  cases predicates with
  | nil => exact absurd h (stagesBytes_ne_cons rest ahead last)
  | cons predicate predicates =>
    obtain ⟨comparison, rfl⟩ := hon predicate List.mem_cons_self
    simp only [List.flatMap_cons, StageShape.predicateBytes, List.append_assoc] at h
    rcases key_behind (key_ne_nil comparison.key) (htext comparison.key) h with
      hsingle | ⟨_, more, hmore, -⟩
    · exact ⟨⟨comparison⟩, comparison.key, hsingle⟩
    · exact absurd hmore ((startsMarked_signature _ _).ne_mark_cons more)

/-- And so does a projection. -/
theorem late_project {tag : S.Tag} (htext : KeysAreText tag) {keys : List (GraphSchema.Key tag)}
    {rest ahead : List (StageShape S)} {last : UInt8}
    (h : (keys.map PropertyKey.key).flatten ++ stagesBytes rest = last :: stagesBytes ahead) :
    ∃ single : GraphSchema.Key tag, single.key.length = 1 := by
  cases keys with
  | nil => exact absurd h (stagesBytes_ne_cons rest ahead last)
  | cons key keys =>
    simp only [List.map_cons, List.flatten_cons, List.append_assoc] at h
    rcases key_behind (key_ne_nil key) (htext key) h with hsingle | ⟨_, more, hmore, -⟩
    · exact ⟨key, hsingle⟩
    · exact absurd hmore (text_append_ne_zero_cons htext keys rest more)

/-- A key of two bytes in front of a count takes the kind of the stage ahead, and the count the
rest of it and one byte more: now the stage ahead is behind. -/
theorem late_topK {tag : S.Tag} (htext : KeysAreText tag) {key : GraphSchema.Key tag}
    {count : UInt64} {rest ahead : List (StageShape S)} {last : UInt8}
    (h : key.key ++ (mixBytes count ++ stagesBytes rest) = last :: stagesBytes ahead) :
    key.key.length = 1 ∨ ∃ stage later byte, ahead = stage :: later ∧
      stage.bodyBytes ++ stagesBytes later = byte :: stagesBytes rest := by
  rcases key_behind (key_ne_nil key) (htext key) h with hsingle | ⟨first, _, -, hfirst⟩
  · exact Or.inl hsingle
  · cases ahead with
    | nil => cases hfirst
    | cons stage later =>
      rw [stagesBytes_cons] at hfirst
      obtain ⟨byte, -, hbehind⟩ := append_eq_append_succ (List.cons_eq_cons.mp hfirst).2
        (by rw [mixBytes_length, List.length_replicate])
      exact Or.inr ⟨stage, later, byte, rfl, hbehind⟩

/-- **A reading one byte behind.**  Where the rest of a stage and the ones after it are one byte
more than other stages of the same node kind, the stage names a key, and there is a key of one
byte.  By induction on the stages that are left; after a key of two bytes, a count changes which
reading is behind. -/
theorem late_reading {tag : S.Tag} (htext : KeysAreText tag) {stage : StageShape S}
    {rest ahead : List (StageShape S)} {last : UInt8} (hstage : stage.On tag)
    (hrest : Fits (stage.next tag) rest) (hahead : Fits tag ahead)
    (h : stage.bodyBytes ++ stagesBytes rest = last :: stagesBytes ahead) :
    NamesKey tag stage.kind ∧ ∃ single : GraphSchema.Key tag, single.key.length = 1 := by
  induction hleft : rest.length + ahead.length using Nat.strong_induction_on
    generalizing stage rest ahead last with
  | _ left ih =>
    cases stage with
    | filter predicates => exact late_filter htext hstage h
    | project keys =>
      obtain ⟨declared, rfl⟩ := hstage
      exact ⟨trivial, late_project htext h⟩
    | topK key count =>
      obtain ⟨⟨declared, rfl⟩, -⟩ := hstage
      simp only [StageShape.bodyBytes, List.append_assoc] at h
      rcases late_topK htext h with hsingle | ⟨stage, later, byte, rfl, hbehind⟩
      · exact ⟨trivial, declared, hsingle⟩
      · have hfewer : later.length + rest.length < left := by
          rw [← hleft, List.length_cons]
          omega
        exact ⟨trivial, (ih _ hfewer hahead.1 hahead.2 hrest hbehind rfl).2⟩
    | traverse edge => exact absurd h (mixBytes_append_ne_cons _ rest ahead last)
    | _ => exact absurd h (stagesBytes_ne_cons rest ahead last)

/-! ### Reading keys -/

/-- What is read of the keys of a node kind in front of an operator, a stage and a count. -/
structure ReadsKeys (tag : S.Tag) : Prop where
  operator : ∀ (key key' : GraphSchema.Key tag) (operator operator' : ComparisonOp)
    (rest rest' : List UInt8),
    key.key ++ (mixBytes operator.signature ++ rest) =
        key'.key ++ (mixBytes operator'.signature ++ rest') → key.key = key'.key
  noStage : ∀ (key : GraphSchema.Key tag) (operator : ComparisonOp) (rest : List UInt8)
    (stages : List (StageShape S)),
    key.key ++ (mixBytes operator.signature ++ rest) ≠ stagesBytes stages
  keys : ∀ (keys keys' : List (GraphSchema.Key tag)) (stages stages' : List (StageShape S)),
    keys.flatMap PropertyKey.key ++ stagesBytes stages =
        keys'.flatMap PropertyKey.key ++ stagesBytes stages' →
      keys = keys' ∧ stagesBytes stages = stagesBytes stages'
  count : ∀ (key key' : GraphSchema.Key tag) (count count' : UInt64)
    (stages stages' : List (StageShape S)), Fits tag stages → Fits tag stages' →
    key.key ++ (mixBytes count ++ stagesBytes stages) =
        key'.key ++ (mixBytes count' ++ stagesBytes stages') → key.key = key'.key

/-- A key that ends inside the count of another one would put a stage inside another. -/
theorem not_longer_within_count {more left : List UInt8} {count count' : UInt64}
    {stages stages' : List (StageShape S)} (hmore : more ≠ []) (hleft : left ≠ [])
    (hcount : mixBytes count = more ++ left)
    (h : mixBytes count' ++ stagesBytes stages' = left ++ stagesBytes stages) : False := by
  have hlength := congrArg List.length hcount
  rw [mixBytes_length, List.length_append] at hlength
  have hpos := List.length_pos_iff.mpr hmore
  have hleftpos := List.length_pos_iff.mpr hleft
  rcases List.append_eq_append_iff.mp h with ⟨front, hcover, -⟩ | ⟨front, hcover, hrest⟩
  · have hcovered := congrArg List.length hcover
    rw [List.length_append, mixBytes_length] at hcovered
    omega
  · have hcovered := congrArg List.length hcover
    rw [List.length_append, mixBytes_length] at hcovered
    have hfront : front ≠ [] := by
      rintro rfl
      rw [List.length_nil] at hcovered
      omega
    have hge := length_ge_of_stagesBytes hfront hrest
    omega

/-- A key that goes on over the count of another one is eight or nine bytes longer. -/
theorem not_longer_over_count {tag : S.Tag} (htext : KeysAreText tag)
    (hseparate : KeysSeparate tag) {key longer : GraphSchema.Key tag} {left : List UInt8}
    {count count' : UInt64} (hlonger : longer.key = key.key ++ (mixBytes count ++ left))
    {stages stages' : List (StageShape S)} (hstages : Fits tag stages)
    (hstages' : Fits tag stages')
    (h : stagesBytes stages = left ++ (mixBytes count' ++ stagesBytes stages')) : False := by
  cases left with
  | nil =>
    rw [List.append_nil] at hlonger
    exact hseparate.eight key longer (mixBytes count) (mixBytes_length count) hlonger
  | cons first left =>
    cases left with
    | nil =>
      cases stages with
      | nil => cases h
      | cons stage stages =>
        rw [stagesBytes_cons, List.cons_append, List.nil_append] at h
        obtain ⟨rfl, hbehind⟩ := List.cons_eq_cons.mp h
        obtain ⟨last, -, hlate⟩ := append_eq_append_succ hbehind
          (by rw [mixBytes_length, List.length_replicate])
        obtain ⟨hnames, single, hsingle⟩ := late_reading htext hstages.1 hstages.2 hstages' hlate
        exact hseparate.nine key longer single (mixBytes count) stage.kind
          (mixBytes_length count) hsingle hnames hlonger
    | cons second left =>
      obtain ⟨_, hsecond⟩ := stagesBytes_second h
      obtain ⟨rfl, -⟩ := List.cons_eq_cons.mp hsecond
      exact htext longer (by rw [hlonger]; simp)

/-- A key in front of a count ends where the key of the same bytes ends. -/
theorem not_longer {tag : S.Tag} (htext : KeysAreText tag) (hseparate : KeysSeparate tag)
    {key longer : GraphSchema.Key tag} {more : List UInt8} (hlonger : longer.key = key.key ++ more)
    {count count' : UInt64} {stages stages' : List (StageShape S)} (hstages : Fits tag stages)
    (hstages' : Fits tag stages')
    (h : mixBytes count ++ stagesBytes stages = more ++ (mixBytes count' ++ stagesBytes stages')) :
    key.key = longer.key := by
  by_contra hne
  have hmore : more ≠ [] := by
    rintro rfl
    exact hne (by rw [hlonger, List.append_nil])
  rcases List.append_eq_append_iff.mp h with ⟨left, rfl, hrest⟩ | ⟨left, hcount, hrest⟩
  · exact not_longer_over_count htext hseparate hlonger hstages hstages' hrest
  · cases left with
    | nil =>
      rw [List.append_nil] at hcount
      exact hseparate.eight key longer more (by rw [← hcount, mixBytes_length]) hlonger
    | cons first left =>
      exact not_longer_within_count hmore (List.cons_ne_nil first left) hcount hrest

/-- **Text that is separate can be read.** -/
theorem KeysSeparate.readsKeys {tag : S.Tag} (htext : KeysAreText tag)
    (hseparate : KeysSeparate tag) : ReadsKeys tag where
  operator key key' operator operator' rest rest' h :=
    (word_unique (htext key) (htext key') (startsMarked_signature operator rest)
      (startsMarked_signature operator' rest') h).1
  noStage key operator rest stages h :=
    key_ne_nil key (word_unique (htext key) List.not_mem_nil (startsMarked_signature operator rest)
      (startsMarked_stagesBytes stages) h).1
  keys keys keys' stages stages' h := by
    obtain ⟨hkeys, hstages⟩ := word_unique (zero_notMem_flatten htext keys)
      (zero_notMem_flatten htext keys') (startsMarked_stagesBytes stages)
      (startsMarked_stagesBytes stages') h
    exact ⟨hseparate.splits keys keys' hkeys, hstages⟩
  count key key' count count' stages stages' hstages hstages' h := by
    rcases List.append_eq_append_iff.mp h with ⟨more, hlonger, hrest⟩ | ⟨more, hlonger, hrest⟩
    · exact not_longer htext hseparate hlonger hstages hstages' hrest
    · exact (not_longer htext hseparate hlonger hstages' hstages hrest).symm

namespace KeysSelfDelimit

variable {tag : S.Tag}

/-- What starts with a key is no stage. -/
theorem ne_stagesBytes (h : KeysSelfDelimit tag) (key : GraphSchema.Key tag) (rest : List UInt8)
    (stages : List (StageShape S)) : key.key ++ rest ≠ stagesBytes stages := by
  intro heq
  cases hkey : key.key with
  | nil => exact key_ne_nil key hkey
  | cons first word =>
    rw [hkey, List.cons_append] at heq
    cases stages with
    | nil => cases heq
    | cons stage stages =>
      rw [stagesBytes_cons] at heq
      obtain ⟨rfl, -⟩ := List.cons_eq_cons.mp heq
      rcases h.start key stage.kind.code (by rw [hkey]; rfl) with hzero | hlarge
      · exact stage.code_ne_zero hzero
      · exact absurd (code_le stage.kind) (UInt8.not_le.mpr hlarge)

/-- By induction on the keys. -/
theorem keys_unique (h : KeysSelfDelimit tag) (keys keys' : List (GraphSchema.Key tag))
    (stages stages' : List (StageShape S))
    (heq : keys.flatMap PropertyKey.key ++ stagesBytes stages =
      keys'.flatMap PropertyKey.key ++ stagesBytes stages') :
    keys = keys' ∧ stagesBytes stages = stagesBytes stages' := by
  induction keys generalizing keys' with
  | nil =>
    cases keys' with
    | nil => exact ⟨rfl, heq⟩
    | cons key' keys' =>
      rw [List.flatMap_cons, List.append_assoc] at heq
      exact absurd heq.symm (h.ne_stagesBytes key' _ stages)
  | cons key keys ih =>
    rw [List.flatMap_cons, List.append_assoc] at heq
    cases keys' with
    | nil => exact absurd heq (h.ne_stagesBytes key _ stages')
    | cons key' keys' =>
      rw [List.flatMap_cons, List.append_assoc] at heq
      obtain ⟨hkey, hrest⟩ := (isPrefixCode_of_prefixFree h.prefixFree).unique heq
      obtain ⟨hkeys, hstages⟩ := ih keys' hrest
      exact ⟨by rw [hkey, hkeys], hstages⟩

/-- **Keys that delimit themselves can be read.** -/
theorem readsKeys (h : KeysSelfDelimit tag) : ReadsKeys tag where
  operator _ _ _ _ _ _ heq :=
    congrArg PropertyKey.key ((isPrefixCode_of_prefixFree h.prefixFree).unique heq).1
  noStage key _ _ stages := h.ne_stagesBytes key _ stages
  keys := h.keys_unique
  count _ _ _ _ _ _ _ _ heq :=
    congrArg PropertyKey.key ((isPrefixCode_of_prefixFree h.prefixFree).unique heq).1

end KeysSelfDelimit

/-! ### Reading stages -/

/-- Listed types are told apart by the bytes of their indices. -/
theorem eq_of_indexBytes {α : Type} [DecidableEq α] {a b : α} {types : List α}
    (hlength : types.length < UInt64.size) (ha : a ∈ types) (hb : b ∈ types)
    (h : mixBytes (.ofNat (typeListIndex a types)) = mixBytes (.ofNat (typeListIndex b types))) :
    a = b := by
  obtain ⟨halt, -⟩ := typeListIndex_of_mem ha
  obtain ⟨hblt, -⟩ := typeListIndex_of_mem hb
  exact eq_of_typeListIndex ha hb
    (mixBytes_injective (Nat.lt_trans halt hlength) (Nat.lt_trans hblt hlength) h)

theorem edge_of_indexBytes {edge edge' : S.Edge}
    (h : mixBytes (.ofNat (typeListIndex edge S.signatures)) =
      mixBytes (.ofNat (typeListIndex edge' S.signatures))) : edge = edge' := by
  refine eq_of_indexBytes ?_ (GraphSchema.mem_signatures edge) (GraphSchema.mem_signatures edge') h
  rw [GraphSchema.signatures, List.length_map, List.length_attach, List.length_map]
  exact S.edges_length_lt

theorem tag_of_indexBytes {tag tag' : S.Tag}
    (h : mixBytes (.ofNat (typeListIndex tag S.tags)) =
      mixBytes (.ofNat (typeListIndex tag' S.tags))) : tag = tag' := by
  refine eq_of_indexBytes ?_ (GraphSchema.mem_tags tag) (GraphSchema.mem_tags tag') h
  rw [GraphSchema.tags, List.length_map, List.length_attach, List.length_map]
  exact S.nodes_length_lt

/-- Integers are read before what follows them. -/
theorem mixBytes_append_inj {x y : UInt64} {rest rest' : List UInt8}
    (h : mixBytes x ++ rest = mixBytes y ++ rest') : mixBytes x = mixBytes y ∧ rest = rest' :=
  List.append_inj h (by rw [mixBytes_length, mixBytes_length])

theorem signature_injective {operator operator' : ComparisonOp}
    (h : mixBytes operator.signature = mixBytes operator'.signature) : operator = operator' := by
  cases operator <;> cases operator' <;> first | rfl | exact absurd h (by decide)

/-- The predicates of a filter, one by one: after each of them comes another one or a stage. -/
theorem filter_reading {tag : S.Tag} (hreads : ReadsKeys tag)
    {predicates predicates' : List (FixedString × ComparisonOp)}
    (hon : (StageShape.filter predicates : StageShape S).On tag)
    (hon' : (StageShape.filter predicates' : StageShape S).On tag)
    {rest rest' : List (StageShape S)}
    (h : predicates.flatMap StageShape.predicateBytes ++ stagesBytes rest =
      predicates'.flatMap StageShape.predicateBytes ++ stagesBytes rest') :
    predicates = predicates' ∧ stagesBytes rest = stagesBytes rest' := by
  induction predicates generalizing predicates' with
  | nil =>
    cases predicates' with
    | nil => exact ⟨rfl, h⟩
    | cons predicate' predicates' =>
      obtain ⟨comparison, rfl⟩ := hon' predicate' List.mem_cons_self
      simp only [List.flatMap_cons, StageShape.predicateBytes, List.append_assoc] at h
      exact absurd h.symm (hreads.noStage comparison.key _ _ rest)
  | cons predicate predicates ih =>
    obtain ⟨comparison, rfl⟩ := hon predicate List.mem_cons_self
    simp only [List.flatMap_cons, StageShape.predicateBytes, List.append_assoc] at h
    cases predicates' with
    | nil => exact absurd h (hreads.noStage comparison.key _ _ rest')
    | cons predicate' predicates' =>
      obtain ⟨comparison', rfl⟩ := hon' predicate' List.mem_cons_self
      simp only [List.flatMap_cons, StageShape.predicateBytes, List.append_assoc] at h
      have hkey : comparison.key.key = comparison'.key.key := hreads.operator _ _ _ _ _ _ h
      simp only [Comparison.shape, hkey, List.append_cancel_left_eq] at h
      obtain ⟨hoperator, hmore⟩ := mixBytes_append_inj h
      obtain ⟨hpredicates, hrest⟩ := ih (fun shape hshape => hon shape (.tail _ hshape))
        (fun shape hshape => hon' shape (.tail _ hshape)) hmore
      refine ⟨?_, hrest⟩
      rw [hpredicates, Comparison.shape, Comparison.shape, hkey, signature_injective hoperator]

/-- **One stage is read back**, and the bytes after it are left. -/
theorem stage_reading {tag : S.Tag} (hreads : ReadsKeys tag) {stage stage' : StageShape S}
    (hkind : stage.kind = stage'.kind) (hstage : stage.On tag) (hstage' : stage'.On tag)
    {rest rest' : List (StageShape S)} (hrest : Fits (stage.next tag) rest)
    (hrest' : Fits (stage'.next tag) rest')
    (h : stage.bodyBytes ++ stagesBytes rest = stage'.bodyBytes ++ stagesBytes rest') :
    stage = stage' ∧ stagesBytes rest = stagesBytes rest' := by
  cases stage with
  | filter predicates =>
    cases stage' with
    | filter predicates' =>
      obtain ⟨rfl, hbytes⟩ := filter_reading hreads hstage hstage' h
      exact ⟨rfl, hbytes⟩
    | _ => cases hkind
  | traverse edge =>
    cases stage' with
    | traverse edge' =>
      obtain ⟨hedge, hbytes⟩ := mixBytes_append_inj h
      exact ⟨congrArg StageShape.traverse (edge_of_indexBytes hedge), hbytes⟩
    | _ => cases hkind
  | project keys =>
    cases stage' with
    | project keys' =>
      obtain ⟨declared, rfl⟩ := hstage
      obtain ⟨declared', rfl⟩ := hstage'
      obtain ⟨rfl, hbytes⟩ := hreads.keys declared declared' rest rest' h
      exact ⟨rfl, hbytes⟩
    | _ => cases hkind
  | topK key count =>
    cases stage' with
    | topK key' count' =>
      obtain ⟨⟨declared, rfl⟩, hcount⟩ := hstage
      obtain ⟨⟨declared', rfl⟩, hcount'⟩ := hstage'
      simp only [StageShape.bodyBytes, List.append_assoc] at h
      have hkey : declared.key = declared'.key := hreads.count _ _ _ _ rest rest' hrest hrest' h
      rw [hkey, List.append_cancel_left_eq] at h
      obtain ⟨hcounts, hbytes⟩ := mixBytes_append_inj h
      exact ⟨by rw [hkey, mixBytes_injective hcount hcount' hcounts], hbytes⟩
    | _ => cases hkind
  | _ =>
    cases stage' <;> first | exact ⟨rfl, h⟩ | cases hkind

/-- **Stages are read back from their bytes**, one after another. -/
theorem stagesBytes_injective (hreads : ∀ tag : S.Tag, ReadsKeys tag) {tag : S.Tag}
    {stages stages' : List (StageShape S)} (hfits : Fits tag stages) (hfits' : Fits tag stages')
    (h : stagesBytes stages = stagesBytes stages') : stages = stages' := by
  induction stages generalizing tag stages' with
  | nil =>
    cases stages' with
    | nil => rfl
    | cons stage' stages' =>
      rw [stagesBytes_cons] at h
      cases h
  | cons stage stages ih =>
    cases stages' with
    | nil =>
      rw [stagesBytes_cons] at h
      cases h
    | cons stage' stages' =>
      rw [stagesBytes_cons, stagesBytes_cons] at h
      obtain ⟨hcode, hzeros⟩ := List.cons_eq_cons.mp h
      obtain ⟨hstage, hrest⟩ := hfits
      obtain ⟨hstage', hrest'⟩ := hfits'
      obtain ⟨rfl, hbytes⟩ := stage_reading (hreads tag) (code_injective hcode) hstage hstage'
        hrest hrest' (List.append_cancel_left hzeros)
      rw [ih hrest hrest' hbytes]

/-- **Where keys can be read, pipelines with the same bytes have the same shape.** -/
theorem sameShape_of_bytes (hreads : ∀ tag : S.Tag, ReadsKeys tag) {tag tag' : S.Tag}
    {expression : Expression S tag} {other : Expression S tag'}
    (h : expressionBytes expression = expressionBytes other) : SameShape expression other := by
  rw [expressionBytes_eq, expressionBytes_eq] at h
  obtain ⟨hindex, hstages⟩ := mixBytes_append_inj (List.append_cancel_left h)
  have htag : expression.sourceTag = other.sourceTag := tag_of_indexBytes hindex
  have hfits := (fits_stageShapes expression).1
  rw [htag] at hfits
  exact ⟨htag, stagesBytes_injective hreads hfits (fits_stageShapes other).1 hstages⟩

end Memorial.Query
