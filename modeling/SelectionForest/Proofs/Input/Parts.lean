import SelectionForest.Proofs.Arguments
import SelectionForest.Proofs.Maps

/-!
# Input values part by part

Literals are resolved, and values coerced, by going down a type. Here is what this says of the parts:
what a look-up finds among the outcomes for the fields of an object, what the JSON value of an object
literal has for a key, and which values are let through where a type has no parts.
-/

namespace SelectionForest

theorem exists_findDefinition? {definitions : List InputDefinition} {definition : InputDefinition}
    (h : definition ∈ definitions) : ∃ found, findDefinition? definitions definition.name = some found :=
  Option.isSome_iff_exists.1 (List.find?_isSome.2 ⟨definition, h, decide_eq_true rfl⟩)

section Parts

variable {schema : Schema} {bindings : Members}

/-! ## Lists -/

theorem itemsToJson_eq_mapM (position : Position) (items : List Value) :
    itemsToJson position items = items.mapM (·.toJson position) := by
  induction items with
  | nil => rfl
  | cons item items ih => rw [itemsToJson, List.mapM_cons, ih]

theorem resolveItems_eq_mapM (items : List Value) (position : Position) (type : TypeRef) :
    resolveItems schema bindings items position type
      = items.mapM (·.resolve schema bindings position type) := by
  induction items with
  | nil => rfl
  | cons item items ih => rw [resolveItems, List.mapM_cons, ih]

theorem coerceItems_eq_mapM (items : List Json) (position : Position) (type : TypeRef) :
    coerceItems schema items position type = items.mapM (·.coerce schema position type) := by
  induction items with
  | nil => rfl
  | cons item items ih => rw [coerceItems, List.mapM_cons, ih]

/-! ## Objects -/

theorem get?_resolveEntries (fields : List (Name × Value)) (type key : Name)
    (definitions : List InputDefinition) :
    (resolveEntries schema bindings fields type definitions).get? key
      = (OrderedMap.get? fields key).map fun value =>
        if value.isUnset bindings then none
        else some (match findDefinition? definitions key with
          | some field => value.resolve schema bindings (.inputField type key) field.type
          | none => .error (.argument (.unknownKey key type))) := by
  induction fields with
  | nil => rfl
  | cons field fields ih =>
    obtain ⟨name, value⟩ := field
    rw [resolveEntries, OrderedMap.get?_cons, OrderedMap.get?_cons]
    by_cases hname : name = key
    · subst hname
      rw [if_pos rfl, if_pos rfl]
      rfl
    · rw [if_neg hname, if_neg hname, ih]

theorem get?_coerceMembers (members : List (String × Json)) (type key : Name)
    (definitions : List InputDefinition) :
    (coerceMembers schema members type definitions).get? key
      = (OrderedMap.get? members key).map fun value =>
        match findDefinition? definitions key with
        | some field => value.coerce schema (.inputField type key) field.type
        | none => .error (.variable (.unknownKey key type)) := by
  induction members with
  | nil => rfl
  | cons member members ih =>
    obtain ⟨name, value⟩ := member
    rw [coerceMembers, OrderedMap.get?_cons, OrderedMap.get?_cons]
    by_cases hname : name = key
    · subst hname
      rw [if_pos rfl, if_pos rfl]
      rfl
    · rw [if_neg hname, if_neg hname, ih]

theorem resolveEntries_keys (fields : List (Name × Value)) (type : Name)
    (definitions : List InputDefinition) :
    (resolveEntries schema bindings fields type definitions).map (·.1) = fields.map (·.1) := by
  induction fields with
  | nil => rfl
  | cons field fields ih =>
    obtain ⟨name, value⟩ := field
    rw [resolveEntries, List.map_cons, List.map_cons, ih]

theorem fieldsToJson_eq_mapM (position : Position) (fields : List (Name × Value)) :
    fieldsToJson position fields
      = fields.mapM fun field => (field.2.toJson position).map (field.1, ·) := by
  induction fields with
  | nil => rfl
  | cons field fields ih =>
    obtain ⟨name, value⟩ := field
    rw [fieldsToJson, List.mapM_cons, ih]
    cases value.toJson position <;> rfl

theorem fieldsToJson_keys {position : Position} {fields : List (Name × Value)}
    {members : List (String × Json)} (h : fieldsToJson position fields = .ok members) :
    members.map (·.1) = fields.map (·.1) := by
  rw [fieldsToJson_eq_mapM, mapM_eq_ok] at h
  refine map_eq_of_forall₂ (fun field member hmember => ?_) h
  obtain ⟨value, -, rfl⟩ := map_eq_ok.1 hmember
  rfl

/-- The JSON value of an object literal has the values of its fields. -/
theorem get?_fieldsToJson {position : Position} {fields : List (Name × Value)}
    {members : List (String × Json)} (h : fieldsToJson position fields = .ok members)
    (key : String) : Option.Rel (fun literal value => literal.toJson position = .ok value)
      (OrderedMap.get? fields key) (OrderedMap.get? members key) := by
  rw [fieldsToJson_eq_mapM, mapM_eq_ok] at h
  induction h with
  | nil => exact .none
  | @cons field member _ _ hmember _ ih =>
    obtain ⟨value, hvalue, rfl⟩ := map_eq_ok.1 hmember
    rw [OrderedMap.get?_cons, OrderedMap.get?_cons]
    by_cases hname : field.1 = key
    · rw [if_pos hname, if_pos hname]
      exact .some hvalue
    · rw [if_neg hname, if_neg hname]
      exact ih

/-! ## Leaves -/

theorem resolveLeaf_eq_ok {position : Position} {type : Name} {literal : Value} {json : Json}
    (h : resolveLeaf schema position type literal = .ok json) :
    (∀ definitions, schema.type? type ≠ some (.inputObject definitions))
      ∧ literal.toJson position = .ok json := by
  rw [resolveLeaf] at h
  split at h
  · cases h
  · cases h
  · rename_i definition hno htype
    exact ⟨fun definitions heq => hno definitions (Option.some.inj (htype.symm.trans heq)), h⟩

/-- A value at a named type that has no parts is let through as it is. -/
theorem coerceLeaf_eq_ok {position : Position} {type : Name} {value coerced : Json}
    (h : coerceLeaf schema position type value = .ok coerced) :
    coerced = value ∧ ∃ definition, schema.type? type = some definition
      ∧ definition.isLeaf = true := by
  rw [coerceLeaf] at h
  split at h
  · cases h
  · rename_i htype
    split at h
    · exact ⟨(Except.ok.inj h).symm, _, htype, rfl⟩
    · cases h
  · rename_i htype
    split at h
    · exact ⟨(Except.ok.inj h).symm, _, htype, rfl⟩
    · cases h
  · cases h
  · cases h

/-- A literal at a named type that has no parts is its JSON value. -/
theorem resolveLeaf_of_isLeaf {position : Position} {type : Name} {definition : TypeDefinition}
    (htype : schema.type? type = some definition) (hleaf : definition.isLeaf = true)
    (literal : Value) : resolveLeaf schema position type literal = literal.toJson position := by
  rw [resolveLeaf, htype]
  cases definition with
  | inputObject => cases hleaf
  | _ => rfl

/-! ## Definitions one after the other -/

theorem coerceVariables_eq_foldlM {definitions : List VariableDefinition} {values : Members} :
    coerceVariables schema definitions values
      = definitions.foldlM (addEntry (·.name) (coerceVariable schema values)) [] := by
  refine congrArg (List.foldlM · [] definitions) (funext₂ fun coerced definition => ?_)
  exact bind_congr fun value => by cases value <;> rfl

theorem resolveArguments_eq_foldlM_addEntry {arguments : List Argument}
    {definition : FieldDefinition} :
    resolveArguments schema bindings definition arguments
      = definition.arguments.foldlM
          (addEntry (·.name) (resolveArgument schema bindings arguments)) [] := by
  refine congrArg (List.foldlM · [] definition.arguments) (funext₂ fun resolved argument => ?_)
  exact bind_congr fun value => by cases value <;> rfl

end Parts

/-! ## A sample -/

namespace Sample

/-- The fields of `input Filter { tags: [String!] limit: Int = 10 note: String }`. -/
def filterFields : List InputDefinition :=
  [⟨"tags", .list (.named "String" true) false, none⟩,
    ⟨"limit", .named "Int" false, some (.int "10")⟩, ⟨"note", .named "String" false, none⟩]

/-- A schema with an input object and a scalar that is not built in. -/
def searchSchema : Schema where
  types := [("Int", .scalar), ("String", .scalar), ("ID", .scalar), ("Any", .scalar),
    ("Filter", .inputObject filterFields)]
  query := none
  mutation := none
  subscription := none
  directives := []

/-- `search(filter: [Filter], ids: [ID], any: Any, page: Int = 1, size: Int): Int` -/
def search : FieldDefinition where
  name := "search"
  arguments := [⟨"filter", .list (.named "Filter" false) false, none⟩,
    ⟨"ids", .list (.named "ID" false) false, none⟩, ⟨"any", .named "Any" false, none⟩,
    ⟨"page", .named "Int" false, some (.int "1")⟩, ⟨"size", .named "Int" false, none⟩]
  type := .named "Int" false

end Sample

end SelectionForest
