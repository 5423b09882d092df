import SelectionForest.Proofs.Input.Coercion

/-!
# Object literals field by field

An object literal at an input object type has a value for each field of the type, or none: what is
written for the field, or its default (`resolveMember`). If all fields have one, they are put
together in the order in which the type defines them (`resolveFields_entries`). An argument that is
not written takes its default in the same way (`resolveUnwritten_eq_supply`).
-/

namespace SelectionForest

variable {schema : Schema} {bindings : Members}

theorem resolveUnwritten_eq_supply (schema : Schema) (definition : InputDefinition) :
    resolveUnwritten definition
      = supply schema (.argument definition.name) definition.default definition.type
          (.argument (.missingArgument definition.name)) none := by
  rw [resolveUnwritten]
  cases definition.default <;> rfl

/-- What an object literal has for a field of its type. -/
def resolveMember (schema : Schema) (bindings : Members) (type : Name)
    (fields : List (Name × Value)) (field : InputDefinition) : Outcome (Option Json) :=
  match (OrderedMap.get? fields field.name).filter (!·.isUnset bindings) with
  | some literal =>
    (literal.resolve schema bindings (.inputField type field.name) field.type).map some
  | none =>
    supply schema (.inputField type field.name) field.default field.type
      (.argument (.missingField type field.name)) none

/-! ## Literals at named types -/

section Named

variable {position : Position} {name : Name} {nonNull : Bool} {fields : List (Name × Value)}

theorem Value.resolve_object {definitions : List InputDefinition}
    (htype : schema.type? name = some (.inputObject definitions)) :
    (Value.object fields).resolve schema bindings position (.named name nonNull)
      = resolveFields name definitions
          (resolveEntries schema bindings fields name definitions) := by
  have hname : (TypeRef.named name nonNull).innerName = name := rfl
  rw [Value.resolve, hname, htype]
  exact TypeRef.map_wrap_named _

theorem Value.resolve_object_leaf
    (hleaf : ∀ definitions, schema.type? name ≠ some (.inputObject definitions)) :
    (Value.object fields).resolve schema bindings position (.named name nonNull)
      = resolveLeaf schema position name (.object fields) := by
  have hname : (TypeRef.named name nonNull).innerName = name := rfl
  rw [Value.resolve, hname]
  split
  · rename_i definitions htype
    exact absurd htype (hleaf definitions)
  · exact TypeRef.map_wrap_named _

end Named

/-! ## Fields -/

section Fields

variable {type : Name} {fields : List (Name × Value)} {definitions : List InputDefinition}

theorem resolveMember_of_none {field : InputDefinition}
    (hwritten : OrderedMap.get? fields field.name = none) :
    resolveMember schema bindings type fields field
      = supply schema (.inputField type field.name) field.default field.type
          (.argument (.missingField type field.name)) none := by
  rw [resolveMember, hwritten, Option.filter_none]

theorem resolveMember_of_some {field : InputDefinition} {literal : Value}
    (hwritten : OrderedMap.get? fields field.name = some literal)
    (hset : literal.isUnset bindings = false) :
    resolveMember schema bindings type fields field
      = (literal.resolve schema bindings (.inputField type field.name) field.type).map some := by
  rw [resolveMember, hwritten, Option.filter_some, hset]
  rfl

/-- A field that is bound to a variable without a value counts as not written. -/
theorem resolveMember_of_unset {field : InputDefinition} {literal : Value}
    (hwritten : OrderedMap.get? fields field.name = some literal)
    (hunset : literal.isUnset bindings = true) :
    resolveMember schema bindings type fields field
      = supply schema (.inputField type field.name) field.default field.type
          (.argument (.missingField type field.name)) none := by
  rw [resolveMember, hwritten, Option.filter_some, hunset]
  rfl

/-- The fields of an object literal are filled in one after the other. -/
theorem resolveField_eq_addEntry (hnd : (definitions.map (·.name)).Nodup) {field : InputDefinition}
    (hfield : field ∈ definitions) (filled : Members) :
    resolveField type (resolveEntries schema bindings fields type definitions) filled field
      = addEntry (·.name) (resolveMember schema bindings type fields) filled field := by
  have hfind : findDefinition? definitions field.name = some field := find?_of_nodup hnd hfield
  have hleft (h : resolveMember schema bindings type fields field
      = supply schema (.inputField type field.name) field.default field.type
          (.argument (.missingField type field.name)) none) :
      (match field.default with
        | some default =>
          (default.toJson (.inputField type field.name)).map (filled.insert field.name)
        | none =>
          if field.type.isNonNull then .error (.argument (.missingField type field.name))
          else .ok filled)
        = addEntry (·.name) (resolveMember schema bindings type fields) filled field := by
    cases hdefault : field.default with
    | some literal =>
      refine (addEntry_of_map ?_).symm
      rw [h, hdefault, supply]
    | none =>
      rw [addEntry, h, hdefault, supply]
      cases field.type.isNonNull <;> rfl
  rw [resolveField, get?_resolveEntries, hfind]
  cases hwritten : OrderedMap.get? fields field.name with
  | none => exact hleft (resolveMember_of_none hwritten)
  | some literal =>
    cases hunset : literal.isUnset bindings with
    | true =>
      rw [Option.map_some, if_pos hunset]
      exact hleft (resolveMember_of_unset hwritten hunset)
    | false =>
      rw [Option.map_some, if_neg (ne_true_of_eq_false hunset)]
      exact (addEntry_of_map (resolveMember_of_some hwritten hunset)).symm

/-- The keys of an object literal are looked at first. -/
theorem resolveFields_eq (outcomes : OrderedMap Name (Option (Outcome Json))) :
    resolveFields type definitions outcomes
      = match (outcomes.map (·.1)).find? fun key => (findDefinition? definitions key).isNone with
        | some key => .error (.argument (.unknownKey key type))
        | none => (definitions.foldlM (resolveField type outcomes) []).map .object := by
  have hfind : ((outcomes.map (·.1)).find? fun key => (findDefinition? definitions key).isNone)
      = (outcomes.find? fun entry => (findDefinition? definitions entry.1).isNone).map (·.1) :=
    List.find?_map
  rw [resolveFields, hfind]
  cases outcomes.find? fun entry => (findDefinition? definitions entry.1).isNone <;> rfl

/-- An object literal has the keys of its type only, and each field of the type is filled in. -/
theorem resolveFields_entries (hnd : (definitions.map (·.name)).Nodup) :
    resolveFields type definitions (resolveEntries schema bindings fields type definitions)
      = match (fields.map (·.1)).find? fun key => (findDefinition? definitions key).isNone with
        | some key => .error (.argument (.unknownKey key type))
        | none =>
          (definitions.foldlM (addEntry (·.name) (resolveMember schema bindings type fields))
            []).map .object := by
  rw [resolveFields_eq, resolveEntries_keys,
    foldlM_congr fun field hfield state => resolveField_eq_addEntry hnd hfield state]

/-- An object literal is resolved if its keys are those of fields and all fields are filled in. -/
theorem resolveFields_eq_ok (hnd : (definitions.map (·.name)).Nodup) {out : Json} :
    resolveFields type definitions (resolveEntries schema bindings fields type definitions)
        = .ok out
      ↔ (∀ key ∈ fields.map (·.1), key ∈ definitions.map (·.name))
        ∧ ∃ members, definitions.foldlM
            (addEntry (·.name) (resolveMember schema bindings type fields)) [] = .ok members
          ∧ Json.object members = out := by
  have hdeclared : ((fields.map (·.1)).find? fun key => (findDefinition? definitions key).isNone)
      = none ↔ ∀ key ∈ fields.map (·.1), key ∈ definitions.map (·.name) := by
    rw [List.find?_eq_none]
    refine forall₂_congr fun key _ => ?_
    rw [mem_names_iff, Bool.not_eq_true, Option.isNone_eq_false_iff]
  rw [resolveFields_entries hnd, ← hdeclared, ← map_eq_ok]
  cases (fields.map (·.1)).find? fun key => (findDefinition? definitions key).isNone with
  | none => simp
  | some key => simp

variable {members : Members}
  (h : definitions.foldlM (addEntry (·.name) (resolveMember schema bindings type fields)) []
    = .ok members)

include h

/-- Each field of a resolved object has what the literal has for it. -/
theorem resolveMember_eq_ok (hnd : (definitions.map (·.name)).Nodup) {field : InputDefinition}
    (hfield : field ∈ definitions) :
    resolveMember schema bindings type fields field = .ok (members.get? field.name) := by
  obtain ⟨taken, htaken⟩ := foldlM_addEntry_each h field hfield
  rw [foldlM_addEntry_value hnd h hfield htaken, htaken]
  exact congrArg Except.ok Option.or_none.symm

/-- A resolved object has no key twice. -/
theorem nodup_of_resolveMembers : (members.map (·.1)).Nodup := by
  have hstart : (([] : Members).map (·.1)).Nodup := List.nodup_nil
  exact foldlM_addEntry_nodup hstart h

/-- A resolved object has no other keys than those of its type. -/
theorem get?_of_undeclared {key : Name} (hkey : key ∉ definitions.map (·.name)) :
    members.get? key = none :=
  foldlM_addEntry_other hkey h

end Fields

end SelectionForest
