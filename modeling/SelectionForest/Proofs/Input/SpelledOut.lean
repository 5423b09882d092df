import SelectionForest.Proofs.Input.Objects

/-!
# Literals that are spelled out

A literal is spelled out at a type if the type has nothing to add to it (`Value.isSpelledOut`):
unless it is `null` it is a list wherever the type is one, and its objects write all fields that
have a default. A literal that resolves has a JSON value of its own (`Value.exists_toJson`), which
is made without the type.

* `Value.isLike_resolve_iff`: the two values are alike if and only if the literal is spelled out;
* `Value.coerce_eq_iff`, `Value.isLike_coerce_iff`: and so it is if the JSON value is coerced.
-/

namespace SelectionForest

section SpelledOut

variable (schema : Schema)

mutual

/-- Whether a type adds nothing to a literal: no list of one, and no default of a field. -/
def Value.isSpelledOut : Value → TypeRef → Bool
  | .null, _ => true
  | .list items, .list item _ => itemsSpelledOut items item
  | .object fields, .named name _ =>
    match schema.type? name with
    | some (.inputObject definitions) =>
      (definitions.all fun definition =>
        definition.default.isNone || OrderedMap.has fields definition.name)
        && fieldsSpelledOut fields definitions
    | _ => true
  | _, .named _ _ => true
  | _, .list _ _ => false

/-- Whether the items of a list are spelled out. -/
def itemsSpelledOut : List Value → TypeRef → Bool
  | [], _ => true
  | item :: items, type => item.isSpelledOut type && itemsSpelledOut items type

/-- Whether the fields of an object are spelled out, as far as they are defined. -/
def fieldsSpelledOut : List (Name × Value) → List InputDefinition → Bool
  | [], _ => true
  | (key, value) :: fields, definitions =>
    (match findDefinition? definitions key with
      | some definition => value.isSpelledOut definition.type
      | none => true)
      && fieldsSpelledOut fields definitions

end

variable {schema}

theorem itemsSpelledOut_iff {items : List Value} {type : TypeRef} :
    itemsSpelledOut schema items type = true
      ↔ ∀ item ∈ items, item.isSpelledOut schema type = true := by
  induction items with
  | nil => exact iff_of_true rfl (List.forall_mem_nil _)
  | cons item items ih => rw [itemsSpelledOut, Bool.and_eq_true, ih, List.forall_mem_cons]

theorem fieldsSpelledOut_iff {fields : List (Name × Value)} {definitions : List InputDefinition} :
    fieldsSpelledOut schema fields definitions = true
      ↔ ∀ field ∈ fields, ∀ definition, findDefinition? definitions field.1 = some definition →
        field.2.isSpelledOut schema definition.type = true := by
  induction fields with
  | nil => exact iff_of_true rfl (List.forall_mem_nil _)
  | cons field fields ih =>
    obtain ⟨key, value⟩ := field
    rw [fieldsSpelledOut, Bool.and_eq_true, ih, List.forall_mem_cons]
    cases findDefinition? definitions key <;> simp

/-- Whether an object literal writes a field if that has a default, and spells it out if it writes
it. -/
structure SpellsOut (schema : Schema) (fields : List (Name × Value))
    (definition : InputDefinition) : Prop where
  written : definition.default.isSome = true → OrderedMap.has fields definition.name = true
  spelled : ∀ literal, OrderedMap.get? fields definition.name = some literal →
    literal.isSpelledOut schema definition.type = true

/-- An object literal with the keys of its type is spelled out if it spells out each field. -/
theorem isSpelledOut_object {name : Name} {nonNull : Bool} {definitions : List InputDefinition}
    (htype : schema.type? name = some (.inputObject definitions))
    (hdistinct : (definitions.map (·.name)).Nodup) {fields : List (Name × Value)}
    (hnd : (fields.map (·.1)).Nodup) :
    (Value.object fields).isSpelledOut schema (.named name nonNull) = true
      ↔ ∀ definition ∈ definitions, SpellsOut schema fields definition := by
  have hwritten (definition : InputDefinition) :
      (definition.default.isNone || OrderedMap.has fields definition.name) = true
        ↔ (definition.default.isSome = true → OrderedMap.has fields definition.name = true) := by
    cases definition.default <;> simp
  rw [Value.isSpelledOut, htype]
  dsimp only
  rw [Bool.and_eq_true, List.all_eq_true, fieldsSpelledOut_iff]
  constructor
  · rintro ⟨hall, hfields⟩ definition hmem
    refine ⟨(hwritten definition).1 (hall definition hmem), fun literal hliteral => ?_⟩
    exact hfields _ (OrderedMap.mem_of_get? hliteral) definition (find?_of_nodup hdistinct hmem)
  · intro h
    refine ⟨fun definition hmem => (hwritten definition).2 (h definition hmem).written,
      fun field hfield definition hdefinition => ?_⟩
    have hmem := List.mem_of_find?_eq_some hdefinition
    refine (h definition hmem).spelled field.2 ?_
    rw [name_of_findDefinition? hdefinition]
    exact OrderedMap.get?_of_mem hnd hfield

end SpelledOut

section Literals

variable {schema : Schema} {bindings : Members}

theorem Value.asVariable?_of_constant {literal : Value} (hconstant : literal.variables = []) :
    literal.asVariable? = none := by
  cases literal with
  | «variable» => cases hconstant
  | _ => rfl

/-- A literal without variables that resolves has a JSON value. -/
theorem Value.exists_toJson (hdistinct : schema.hasDistinctInputs = true) {literal : Value}
    (hconstant : literal.variables = []) (hkeys : literal.hasUniqueKeys) {position : Position}
    {type : TypeRef} {value : Json} (h : literal.resolve schema bindings position type = .ok value)
    (place : Position) : ∃ json, literal.toJson place = .ok json := by
  have hleaf {position : Position} {literal : Value} {name : Name} {value : Json}
      (h : resolveLeaf schema position name literal = .ok value) :
      ∃ json, literal.toJson place = .ok json :=
    ⟨value, Value.toJson_at (resolveLeaf_eq_ok h).2⟩
  induction literal using Value.induction generalizing position type value with
  | atom literal hatom =>
    cases literal with
    | list => cases hatom
    | object => cases hatom
    | «variable» => cases hconstant
    | null => exact ⟨.null, rfl⟩
    | _ =>
      obtain ⟨value, hvalue, -⟩ := map_eq_ok.1 h
      exact hleaf hvalue
  | list items ih =>
    cases type with
    | named name nonNull => exact hleaf h
    | list item nonNull =>
      rw [Value.resolve, resolveItems_eq_mapM] at h
      obtain ⟨values, hvalues, -⟩ := map_eq_ok.1 h
      have hitems : ∀ item ∈ items, ∃ json, item.toJson place = .ok json := by
        intro literal hmem
        obtain ⟨value, -, hvalue⟩ := exists_right (mapM_eq_ok.1 hvalues) hmem
        exact ih literal hmem (variables_of_items hconstant literal hmem)
          (hasUniqueKeys_list.1 hkeys literal hmem) hvalue
      obtain ⟨jsons, hjsons⟩ := exists_mapM hitems
      rw [Value.toJson, itemsToJson_eq_mapM]
      exact ⟨_, map_eq_ok.2 ⟨jsons, hjsons, rfl⟩⟩
  | object fields ih =>
    obtain ⟨hnd, hkeys⟩ := hasUniqueKeys_object.1 hkeys
    rw [Value.resolve] at h
    split at h
    · rename_i definitions htype
      have hnames := Schema.inputs_nodup hdistinct htype
      obtain ⟨object, hobject, -⟩ := map_eq_ok.1 h
      obtain ⟨hdeclared, members, hmembers, -⟩ := (resolveFields_eq_ok hnames).1 hobject
      have hfields : ∀ field ∈ fields, ∃ json,
          ((field.2.toJson place).map (field.1, ·) : Outcome (Name × Json)) = .ok json := by
        intro field hfield
        obtain ⟨definition, hmem, hname⟩ :=
          List.mem_map.1 (hdeclared field.1 (List.mem_map_of_mem hfield))
        obtain ⟨taken, htaken⟩ := foldlM_addEntry_each hmembers definition hmem
        have hfieldConstant := variables_of_fields hconstant field hfield
        have hwritten : OrderedMap.get? fields definition.name = some field.2 :=
          hname ▸ OrderedMap.get?_of_mem hnd hfield
        rw [resolveMember_of_some hwritten
          (Value.isUnset_of_literal (Value.asVariable?_of_constant hfieldConstant))] at htaken
        obtain ⟨value, hvalue, -⟩ := map_eq_ok.1 htaken
        obtain ⟨json, hjson⟩ := ih field hfield hfieldConstant (hkeys field hfield) hvalue
        exact ⟨_, map_eq_ok.2 ⟨json, hjson, rfl⟩⟩
      obtain ⟨jsons, hjsons⟩ := exists_mapM hfields
      rw [Value.toJson, fieldsToJson_eq_mapM]
      exact ⟨_, map_eq_ok.2 ⟨jsons, hjsons, rfl⟩⟩
    · obtain ⟨value, hvalue, -⟩ := map_eq_ok.1 h
      exact hleaf hvalue

/-! ## Resolved literals -/

/-- Whether the JSON value of a literal is like its resolved value just if it is spelled out. -/
def Value.LikeIfSpelledOut (schema : Schema) (bindings : Members) (literal : Value) : Prop :=
  ∀ {place position : Position} {type : TypeRef} {json value : Json},
    literal.toJson place = .ok json → literal.resolve schema bindings position type = .ok value →
    (json.IsLike value ↔ literal.isSpelledOut schema type = true)

theorem Json.not_isLike_array {value : Json} (harray : value.asArray? = none) (items : List Json) :
    ¬ value.IsLike (.array items) := by
  intro hlike
  cases hlike with
  | refl => cases harray
  | array => cases harray

/-- A literal without parts that is not `null` is spelled out where its type is no list. -/
theorem Value.isSpelledOut_atom {literal : Value} (hatom : literal.isAtom = true)
    (hnull : literal.isNull = false) (type : TypeRef) :
    literal.isSpelledOut schema type = decide (type.listDepth = 0) := by
  cases literal with
  | list => cases hatom
  | object => cases hatom
  | null => cases hnull
  | _ => cases type <;> rfl

theorem Value.asArray?_of_toJson {literal : Value} (hatom : literal.isAtom = true)
    {position : Position} {json : Json} (h : literal.toJson position = .ok json) :
    json.asArray? = none := by
  cases literal with
  | list => cases hatom
  | object => cases hatom
  | «variable» => cases h
  | int text =>
    obtain ⟨number, -, rfl⟩ := literalNumber_eq_ok.1 h
    rfl
  | float text =>
    obtain ⟨number, -, rfl⟩ := literalNumber_eq_ok.1 h
    rfl
  | _ =>
    obtain rfl := Except.ok.inj h
    rfl

/-- The items of a list have like values if they are spelled out. -/
theorem isLike_items_iff {items : List Value}
    (hitems : ∀ item ∈ items, item.LikeIfSpelledOut schema bindings) {place position : Position}
    {type : TypeRef} {jsons values : List Json}
    (hjsons : List.Forall₂ (fun item json => item.toJson place = .ok json) items jsons)
    (hvalues : List.Forall₂ (fun item value =>
      item.resolve schema bindings position type = .ok value) items values) :
    List.Forall₂ Json.IsLike jsons values ↔ itemsSpelledOut schema items type = true := by
  induction hjsons generalizing values with
  | nil =>
    cases hvalues
    exact iff_of_true .nil rfl
  | cons hjson _ ih =>
    obtain ⟨hitem, hrest⟩ := List.forall_mem_cons.1 hitems
    cases hvalues with
    | cons hvalue hvalues =>
      rw [List.forall₂_cons, itemsSpelledOut, Bool.and_eq_true, hitem hjson hvalue,
        ih hrest hvalues]

/-- A field of an object literal has like values, or none, if the literal spells it out. -/
theorem isLike_member_iff {fields : List (Name × Value)}
    (hfields : ∀ field ∈ fields, field.2.LikeIfSpelledOut schema bindings) {place : Position}
    {given : Members} (hgiven : fieldsToJson place fields = .ok given) {type : Name}
    {definition : InputDefinition} {taken : Option Json}
    (htaken : resolveMember schema bindings type fields definition = .ok taken) :
    Option.Rel Json.IsLike (given.get? definition.name) taken
      ↔ SpellsOut schema fields definition := by
  have hrel := get?_fieldsToJson hgiven definition.name
  cases hwritten : OrderedMap.get? fields definition.name with
  | some literal =>
    rw [hwritten] at hrel
    cases hjson : given.get? definition.name with
    | none =>
      rw [hjson] at hrel
      cases hrel
    | some json =>
      rw [hjson] at hrel
      cases hrel with
      | some hjson =>
        have hliteral := OrderedMap.mem_of_get? hwritten
        have hset : literal.isUnset bindings = false :=
          Bool.eq_false_of_not_eq_true (Value.isUnset_of_toJson hjson)
        rw [resolveMember_of_some hwritten hset] at htaken
        obtain ⟨value, hvalue, rfl⟩ := map_eq_ok.1 htaken
        have hiff := hfields _ hliteral hjson hvalue
        constructor
        · intro hrel
          obtain hlike : json.IsLike value := by
            cases hrel with
            | some hlike => exact hlike
          refine ⟨fun _ => OrderedMap.has_iff_mem.2 (List.mem_map_of_mem hliteral),
            fun literal hfound => ?_⟩
          obtain rfl := Option.some.inj (hwritten.symm.trans hfound)
          exact hiff.1 hlike
        · exact fun hspelled => .some (hiff.2 (hspelled.spelled literal hwritten))
  | none =>
    rw [hwritten] at hrel
    rw [resolveMember_of_none hwritten] at htaken
    have hhas : OrderedMap.has fields definition.name = false := by
      rw [OrderedMap.has, hwritten]
      rfl
    cases hjson : given.get? definition.name with
    | some json =>
      rw [hjson] at hrel
      cases hrel
    | none =>
      cases supplies_of_supply htaken with
      | default hdefault =>
        refine iff_of_false (fun hlike => by cases hlike) fun hspelled => ?_
        rw [hspelled.written (by rw [hdefault]; rfl)] at hhas
        cases hhas
      | absent hdefault =>
        refine iff_of_true .none ⟨fun hsome => ?_, fun literal hfound => ?_⟩
        · rw [hdefault] at hsome
          cases hsome
        · rw [hwritten] at hfound
          cases hfound

/-- The JSON value of an object literal is like its resolved value if the literal is spelled out. -/
theorem isLike_fields_iff {fields : List (Name × Value)} (hnd : (fields.map (·.1)).Nodup)
    (hfields : ∀ field ∈ fields, field.2.LikeIfSpelledOut schema bindings) {place : Position}
    {given : Members} (hgiven : fieldsToJson place fields = .ok given) {name : Name}
    {nonNull : Bool} {definitions : List InputDefinition}
    (htype : schema.type? name = some (.inputObject definitions))
    (hnames : (definitions.map (·.name)).Nodup)
    (hdeclared : ∀ key ∈ fields.map (·.1), key ∈ definitions.map (·.name)) {members : Members}
    (hmembers : definitions.foldlM
      (addEntry (·.name) (resolveMember schema bindings name fields)) [] = .ok members) :
    (Json.object given).IsLike (.object members)
      ↔ (Value.object fields).isSpelledOut schema (.named name nonNull) = true := by
  have hkeys := fieldsToJson_keys hgiven
  have hmember : ∀ definition ∈ definitions,
      Option.Rel Json.IsLike (given.get? definition.name) (members.get? definition.name)
        ↔ SpellsOut schema fields definition := fun definition hmem =>
    isLike_member_iff hfields hgiven (resolveMember_eq_ok hmembers hnames hmem)
  rw [isSpelledOut_object htype hnames hnd,
    Json.isLike_object_iff (hkeys ▸ hnd) (nodup_of_resolveMembers hmembers)]
  constructor
  · exact fun hlike definition hmem => (hmember definition hmem).1 (hlike definition.name)
  · intro hspelled key
    by_cases hkey : key ∈ definitions.map (·.name)
    · obtain ⟨definition, hmem, rfl⟩ := List.mem_map.1 hkey
      exact (hmember definition hmem).2 (hspelled definition hmem)
    · have hgivenKey : ¬ given.has key = true := fun hhas =>
        hkey (hdeclared key (hkeys ▸ OrderedMap.has_iff_mem.1 hhas))
      rw [OrderedMap.has, Option.not_isSome_iff_eq_none] at hgivenKey
      rw [hgivenKey, get?_of_undeclared hmembers hkey]
      exact .none

/-- The JSON value of a literal is like its resolved value if and only if the literal is spelled
out. -/
theorem Value.isLike_resolve_iff (hdistinct : schema.hasDistinctInputs = true) {literal : Value}
    (hkeys : literal.hasUniqueKeys) : literal.LikeIfSpelledOut schema bindings := by
  induction literal using Value.induction with
  | atom literal hatom =>
    intro place position type json value hjson hvalue
    cases hnull : literal.isNull with
    | true =>
      cases literal with
      | null =>
        obtain rfl := Except.ok.inj hjson
        rw [Value.resolve] at hvalue
        split at hvalue
        · cases hvalue
        · obtain rfl := Except.ok.inj hvalue
          exact iff_of_true (.refl _) rfl
      | _ => cases hnull
    | false =>
      have hatomic := Value.toJson_atom schema bindings hatom hjson
      rw [(hatomic.resolve_left fun h => by rw [h.1] at hnull; cases hnull).2] at hvalue
      obtain ⟨leaf, hleaf, rfl⟩ := map_eq_ok.1 hvalue
      obtain rfl : json = leaf :=
        Except.ok.inj ((Value.toJson_at hjson).symm.trans (resolveLeaf_eq_ok hleaf).2)
      rw [Value.isSpelledOut_atom hatom hnull, decide_eq_true_eq]
      cases type with
      | named name nonNull => exact iff_of_true (.refl json) rfl
      | list item nonNull =>
        exact iff_of_false (Json.not_isLike_array (Value.asArray?_of_toJson hatom hjson) _)
          (Nat.succ_ne_zero _)
  | list items ih =>
    intro place position type json value hjson hvalue
    cases type with
    | named name nonNull =>
      obtain rfl : json = value :=
        Except.ok.inj ((Value.toJson_at hjson).symm.trans (resolveLeaf_eq_ok hvalue).2)
      exact iff_of_true (.refl json) rfl
    | list item nonNull =>
      rw [Value.toJson, itemsToJson_eq_mapM] at hjson
      rw [Value.resolve, resolveItems_eq_mapM] at hvalue
      obtain ⟨jsons, hjsons, rfl⟩ := map_eq_ok.1 hjson
      obtain ⟨values, hvalues, rfl⟩ := map_eq_ok.1 hvalue
      have hitems : ∀ literal ∈ items, literal.LikeIfSpelledOut schema bindings :=
        fun literal hmem => ih literal hmem (hasUniqueKeys_list.1 hkeys literal hmem)
      rw [Json.isLike_array_iff,
        isLike_items_iff hitems (mapM_eq_ok.1 hjsons) (mapM_eq_ok.1 hvalues), Value.isSpelledOut]
  | object fields ih =>
    intro place position type json value hjson hvalue
    obtain ⟨hnd, hkeys⟩ := hasUniqueKeys_object.1 hkeys
    have hliteral := hjson
    rw [Value.toJson] at hjson
    obtain ⟨given, hgiven, rfl⟩ := map_eq_ok.1 hjson
    have hgivenKeys := fieldsToJson_keys hgiven
    rw [OrderedMap.ofList_of_nodup (hgivenKeys ▸ hnd)] at hliteral ⊢
    cases type with
    | list item nonNull =>
      have harray : ∃ items, value = .array items := by
        rw [Value.resolve] at hvalue
        split at hvalue <;> obtain ⟨value, -, rfl⟩ := map_eq_ok.1 hvalue <;> exact ⟨_, rfl⟩
      obtain ⟨items, rfl⟩ := harray
      exact iff_of_false (Json.not_isLike_array rfl items) Bool.false_ne_true
    | named name nonNull =>
      by_cases hobject : ∃ definitions, schema.type? name = some (.inputObject definitions)
      · obtain ⟨definitions, htype⟩ := hobject
        have hnames := Schema.inputs_nodup hdistinct htype
        have hfields : ∀ field ∈ fields, field.2.LikeIfSpelledOut schema bindings :=
          fun field hfield => ih field hfield (hkeys field hfield)
        rw [Value.resolve_object htype] at hvalue
        obtain ⟨hdeclared, members, hmembers, rfl⟩ := (resolveFields_eq_ok hnames).1 hvalue
        exact isLike_fields_iff hnd hfields hgiven htype hnames hdeclared hmembers
      · have hleaf : ∀ definitions, schema.type? name ≠ some (.inputObject definitions) :=
          fun definitions htype => hobject ⟨definitions, htype⟩
        rw [Value.resolve_object_leaf hleaf] at hvalue
        obtain rfl : Json.object given = value :=
          Except.ok.inj ((Value.toJson_at hliteral).symm.trans (resolveLeaf_eq_ok hvalue).2)
        refine iff_of_true (.refl _) ?_
        rw [Value.isSpelledOut]
        split
        · rename_i definitions htype
          exact absurd htype (hleaf definitions)
        · rfl

/-! ## Coerced values -/

/-- Whether the JSON value of a literal is left as it is where the literal is spelled out. -/
def Value.StaysIfSpelledOut (schema : Schema) (literal : Value) : Prop :=
  ∀ {place position : Position} {type : TypeRef} {json coerced : Json},
    literal.toJson place = .ok json → json.coerce schema position type = .ok coerced →
    literal.isSpelledOut schema type = true → coerced = json

/-- The items of a list are left as they are if they are spelled out. -/
theorem coerceItems_of_spelledOut {items : List Value}
    (hitems : ∀ item ∈ items, item.StaysIfSpelledOut schema) {place position : Position}
    {type : TypeRef} {jsons values : List Json}
    (hjsons : List.Forall₂ (fun item json => item.toJson place = .ok json) items jsons)
    (hvalues : List.Forall₂ (fun json value => json.coerce schema position type = .ok value)
      jsons values) (hspelled : ∀ item ∈ items, item.isSpelledOut schema type = true) :
    values = jsons := by
  induction hjsons generalizing values with
  | nil =>
    cases hvalues
    rfl
  | cons hjson _ ih =>
    obtain ⟨hitem, hitems⟩ := List.forall_mem_cons.1 hitems
    obtain ⟨hfirst, hspelled⟩ := List.forall_mem_cons.1 hspelled
    cases hvalues with
    | cons hvalue hvalues => rw [hitem hjson hvalue hfirst, ih hitems hvalues hspelled]

/-- A field that an object literal spells out has nothing to take but its own value. -/
theorem supplyField_of_spellsOut {fields : List (Name × Value)}
    (hfields : ∀ field ∈ fields, field.2.StaysIfSpelledOut schema) {place : Position}
    {given : Members} (hgiven : fieldsToJson place fields = .ok given)
    {type : Name} {definition : InputDefinition} {taken : Option Json}
    (htaken : supplyField schema type given definition = .ok taken)
    (hspelled : SpellsOut schema fields definition) : taken = given.get? definition.name := by
  have hrel := get?_fieldsToJson hgiven definition.name
  rw [supplyField] at htaken
  cases hwritten : OrderedMap.get? fields definition.name with
  | some literal =>
    rw [hwritten] at hrel
    cases hjson : given.get? definition.name with
    | none =>
      rw [hjson] at hrel
      cases hrel
    | some json =>
      rw [hjson] at hrel htaken
      cases hrel with
      | some hjson =>
        obtain ⟨coerced, hcoerced, rfl⟩ := map_eq_ok.1 htaken
        exact congrArg some (hfields _ (OrderedMap.mem_of_get? hwritten) hjson hcoerced
          (hspelled.spelled literal hwritten))
  | none =>
    rw [hwritten] at hrel
    cases hjson : given.get? definition.name with
    | some json =>
      rw [hjson] at hrel
      cases hrel
    | none =>
      rw [hjson] at htaken
      cases supplies_of_supply htaken with
      | default hdefault =>
        have hhas := hspelled.written (by rw [hdefault]; rfl)
        rw [OrderedMap.has, hwritten] at hhas
        cases hhas
      | absent => rfl

/-- The JSON value of a literal that is spelled out is left as it is. -/
theorem Value.coerce_of_spelledOut (hdistinct : schema.hasDistinctInputs = true) {literal : Value}
    (hkeys : literal.hasUniqueKeys) : literal.StaysIfSpelledOut schema := by
  induction literal using Value.induction with
  | atom literal hatom =>
    intro place position type json coerced hjson hcoerced hspelled
    cases hnull : literal.isNull with
    | true =>
      cases literal with
      | null =>
        obtain rfl := Except.ok.inj hjson
        rw [Json.coerce] at hcoerced
        split at hcoerced
        · cases hcoerced
        · exact (Except.ok.inj hcoerced).symm
      | _ => cases hnull
    | false =>
      have hatomic := Value.toJson_atom schema [] hatom hjson
      rw [(hatomic.resolve_left fun h => by rw [h.1] at hnull; cases hnull).1] at hcoerced
      obtain ⟨leaf, hleaf, rfl⟩ := map_eq_ok.1 hcoerced
      obtain ⟨rfl, -⟩ := coerceLeaf_eq_ok hleaf
      rw [Value.isSpelledOut_atom hatom hnull, decide_eq_true_eq] at hspelled
      cases type with
      | named name nonNull => rfl
      | list item nonNull => cases hspelled
  | list items ih =>
    intro place position type json coerced hjson hcoerced hspelled
    rw [Value.toJson, itemsToJson_eq_mapM] at hjson
    obtain ⟨jsons, hjsons, rfl⟩ := map_eq_ok.1 hjson
    cases type with
    | named name nonNull => exact (coerceLeaf_eq_ok hcoerced).1
    | list item nonNull =>
      rw [Value.isSpelledOut, itemsSpelledOut_iff] at hspelled
      rw [Json.coerce, coerceItems_eq_mapM] at hcoerced
      obtain ⟨values, hvalues, rfl⟩ := map_eq_ok.1 hcoerced
      exact congrArg Json.array (coerceItems_of_spelledOut (fun literal hmem =>
        ih literal hmem (hasUniqueKeys_list.1 hkeys literal hmem)) (mapM_eq_ok.1 hjsons)
        (mapM_eq_ok.1 hvalues) hspelled)
  | object fields ih =>
    intro place position type json coerced hjson hcoerced hspelled
    obtain ⟨hnd, hkeys⟩ := hasUniqueKeys_object.1 hkeys
    rw [Value.toJson] at hjson
    obtain ⟨given, hgiven, rfl⟩ := map_eq_ok.1 hjson
    rw [OrderedMap.ofList_of_nodup (fieldsToJson_keys hgiven ▸ hnd)] at hcoerced ⊢
    cases type with
    | list item nonNull => cases hspelled
    | named name nonNull =>
      by_cases hobject : ∃ definitions, schema.type? name = some (.inputObject definitions)
      · obtain ⟨definitions, htype⟩ := hobject
        have hnames := Schema.inputs_nodup hdistinct htype
        rw [isSpelledOut_object htype hnames hnd] at hspelled
        rw [Json.coerce_object htype] at hcoerced
        obtain ⟨-, filled, hfilled, rfl⟩ := (fillMembers_eq_ok hnames).1 hcoerced
        have hsame : ∀ definition ∈ definitions, supplyField schema name given definition
            = .ok (OrderedMap.get? given definition.name) := by
          intro definition hmem
          obtain ⟨taken, htaken⟩ := foldlM_addEntry_each hfilled definition hmem
          rw [htaken, supplyField_of_spellsOut (fun field hfield => ih field hfield
            (hkeys field hfield)) hgiven htaken (hspelled definition hmem)]
        rw [foldlM_addEntry_self hsame] at hfilled
        rw [Except.ok.inj hfilled]
      · rw [Json.coerce_named rfl fun fields htype => absurd ⟨fields, htype⟩ hobject] at hcoerced
        exact (coerceLeaf_eq_ok hcoerced).1

/-- Coercion leaves the JSON value of a literal as it is if and only if the literal is spelled out,
and so it does up to the order of keys. -/
theorem Value.isLike_coerce_iff (hdistinct : schema.hasDistinctInputs = true) {literal : Value}
    (hkeys : literal.hasUniqueKeys) {place position : Position} {type : TypeRef}
    {json coerced : Json} (hjson : literal.toJson place = .ok json)
    (hcoerced : json.coerce schema position type = .ok coerced) :
    json.IsLike coerced ↔ literal.isSpelledOut schema type = true := by
  constructor
  · intro hlike
    -- What is coerced is like what the literal resolves to.
    have hresolves : ∃ value, literal.resolve schema [] place type = .ok value
        ∧ coerced.IsLike value := Value.resolve_of_coerce hkeys hjson hcoerced
    obtain ⟨value, hvalue, hlike'⟩ := hresolves
    exact (Value.isLike_resolve_iff hdistinct hkeys hjson hvalue).1 (hlike.trans hlike')
  · intro hspelled
    rw [Value.coerce_of_spelledOut hdistinct hkeys hjson hcoerced hspelled]
    exact .refl json

theorem Value.coerce_eq_iff (hdistinct : schema.hasDistinctInputs = true) {literal : Value}
    (hkeys : literal.hasUniqueKeys) {place position : Position} {type : TypeRef}
    {json coerced : Json} (hjson : literal.toJson place = .ok json)
    (hcoerced : json.coerce schema position type = .ok coerced) :
    json = coerced ↔ literal.isSpelledOut schema type = true := by
  constructor
  · rintro rfl
    exact (Value.isLike_coerce_iff hdistinct hkeys hjson hcoerced).1 (.refl json)
  · exact fun hspelled =>
      (Value.coerce_of_spelledOut hdistinct hkeys hjson hcoerced hspelled).symm

end Literals

end SelectionForest
