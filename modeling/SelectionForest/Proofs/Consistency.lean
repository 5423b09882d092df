import SelectionForest.Proofs.Input.Placement

/-!
# Consistent schemas

A composite type is selected on, and objects are what it is executed on. In a consistent schema
(`Schema.IsConsistent`) these fit together: what a type stands for are objects, and an object has the
fields of its interfaces, with types that stand for no more objects than they do there. So a field of
a type is one of every object that the type applies to (`Schema.exists_field_within`), except that an
interface or a union which is the query root has fields for introspection, and its objects have none.

`__typename` returns a `String`, which is a scalar in every schema that is read
(`Schema.type?_string`, `Schema.not_isComposite_string`).
-/

namespace SelectionForest

namespace Schema

/-- The object types that a type stands for; a type without parts stands for none. -/
def runtimeTypes (schema : Schema) (name : Name) : List Name :=
  match schema.type? name with
  | some (.object _ _) => [name]
  | some (.interface _ _) => (schema.objectsImplementing name).names
  | some (.union members) => members
  | _ => []

/-- Whether a type stands for no other object types than another one does. -/
def isWithin (schema : Schema) (lower upper : Name) : Bool :=
  (schema.runtimeTypes lower).all (schema.appliesTo upper)

/-- Whether members of unions and what implements an interface are objects. -/
def standsForObjects (schema : Schema) : Bool :=
  schema.types.all fun (name, _) => (schema.runtimeTypes name).all schema.isObject

/-- Whether objects have the fields of their interfaces, with types that stand for no more. -/
def keepsFields (schema : Schema) : Bool :=
  schema.types.all fun (name, type) =>
    match type with
    | .interface _ fields => fields.all fun field =>
      (schema.objectsImplementing name).names.all fun object =>
        (schema.field? object field.name).any fun own =>
          schema.isWithin own.type.innerName field.type.innerName
    | _ => true

/-- Whether the types of a schema fit together. -/
structure IsConsistent (schema : Schema) : Prop where
  objects : schema.standsForObjects = true
  fields : schema.keepsFields = true
  inputs : schema.hasUsableInputs = true
  /-- The type of `__typename` is the built-in scalar. -/
  builtIn : schema.isComposite "String" = false

instance (schema : Schema) : Decidable schema.IsConsistent :=
  decidable_of_iff (schema.standsForObjects = true ∧ schema.keepsFields = true
      ∧ schema.hasUsableInputs = true ∧ schema.isComposite "String" = false)
    ⟨fun h => ⟨h.1, h.2.1, h.2.2.1, h.2.2.2⟩, fun h => ⟨h.objects, h.fields, h.inputs, h.builtIn⟩⟩

/-- Whether a field is one of the two that the query root has for introspection. -/
def isIntrospection (schema : Schema) (type field : Name) : Bool :=
  schema.query == some type && [schemaField.name, typeField.name].contains field

variable {schema : Schema}

theorem mem_runtimeTypes {name type : Name} :
    type ∈ schema.runtimeTypes name ↔ schema.appliesTo name type = true := by
  have hnone : type ∈ ([] : List Name) ↔ false = true :=
    iff_of_false List.not_mem_nil Bool.false_ne_true
  rw [runtimeTypes, appliesTo]
  cases schema.type? name with
  | none => exact hnone
  | some whole =>
    cases whole with
    | object => exact List.mem_singleton.trans beq_iff_eq.symm
    | interface => exact mem_objectsImplementing
    | union => exact List.contains_iff_mem.symm
    | _ => exact hnone

theorem isWithin_iff {lower upper : Name} : schema.isWithin lower upper = true
    ↔ ∀ object, schema.appliesTo lower object = true → schema.appliesTo upper object = true := by
  simp only [isWithin, List.all_eq_true, mem_runtimeTypes]

theorem isWithin_refl (name : Name) : schema.isWithin name name = true :=
  isWithin_iff.2 fun _ h => h

theorem isComposite_of_isObject {name : Name} (h : schema.isObject name = true) :
    schema.isComposite name = true := by
  rw [isObject] at h
  split at h
  · rename_i htype
    rw [isComposite, htype]
    rfl
  · cases h

/-- A meta-field is `__typename` of a composite type, or is for introspection. -/
theorem mem_metaFields {name : Name} {type : TypeDefinition} {definition : FieldDefinition}
    (h : definition ∈ schema.metaFields name type) :
    type.isComposite = true ∧ definition = typenameField
      ∨ schema.isIntrospection name definition.name = true := by
  rw [metaFields, List.mem_append] at h
  rcases h with h | h
  · split at h
    · exact .inl ⟨‹_›, List.mem_singleton.1 h⟩
    · exact absurd h List.not_mem_nil
  · split at h
    · rename_i hquery
      have hname : definition.name ∈ [schemaField.name, typeField.name] := List.mem_map_of_mem h
      right
      rw [isIntrospection, hquery, beq_self_eq_true, List.contains_iff_mem.2 hname]
      rfl
    · exact absurd h List.not_mem_nil

/-- The fields of a type without parts are for introspection, if there are any. -/
theorem isIntrospection_of_isComposite_false {name fieldName : Name} {definition : FieldDefinition}
    (hleaf : schema.isComposite name = false) (h : schema.field? name fieldName = some definition) :
    schema.isIntrospection name fieldName = true := by
  obtain ⟨type, htype, rfl, hfield⟩ := field?_eq_some h
  rw [isComposite, htype, Option.any_some] at hleaf
  rcases hfield with hfield | hmeta
  · cases type <;> first | exact absurd hfield List.not_mem_nil | cases hleaf
  · refine (mem_metaFields hmeta).resolve_left fun h => ?_
    simp [hleaf] at h

/-- Every object has a field `__typename`, declared or not. -/
theorem exists_typename {name : Name} (h : schema.isObject name = true) :
    ∃ definition, schema.field? name typenameField.name = some definition := by
  rw [isObject] at h
  split at h
  · rename_i interfaces fields htype
    rw [field?, htype]
    have hmem : typenameField ∈ fields ++ schema.metaFields name (.object interfaces fields) :=
      List.mem_append_right _ (List.mem_append_left _ (List.mem_singleton_self _))
    exact Option.isSome_iff_exists.1 (List.find?_isSome.2 ⟨_, hmem, decide_eq_true rfl⟩)
  · cases h

namespace IsConsistent

variable (hschema : schema.IsConsistent)

include hschema

/-- What a type applies to is an object. -/
theorem isObject_of_appliesTo {name object : Name} (h : schema.appliesTo name object = true) :
    schema.isObject object = true := by
  obtain ⟨type, htype⟩ : ∃ type, schema.type? name = some type := by
    rw [appliesTo] at h
    split at h
    · exact ⟨_, ‹_›⟩
    · exact ⟨_, ‹_›⟩
    · exact ⟨_, ‹_›⟩
    · cases h
  have hall := List.all_eq_true.1 hschema.objects _ (mem_of_type? htype)
  exact List.all_eq_true.1 hall object (mem_runtimeTypes.2 h)

/-- An object that implements an interface has its fields, with types that stand for no more. -/
theorem exists_field_of_implements {interface object : Name} {interfaces : List Name}
    {fields : List FieldDefinition}
    (htype : schema.type? interface = some (.interface interfaces fields))
    (h : schema.implements object interface = true) {field : FieldDefinition}
    (hfield : field ∈ fields) :
    ∃ own, schema.field? object field.name = some own
      ∧ schema.isWithin own.type.innerName field.type.innerName = true := by
  have hfields := List.all_eq_true.1 hschema.fields _ (mem_of_type? htype)
  have hobjects := List.all_eq_true.1 hfields field hfield
  exact (Option.any_eq_true _ _).1
    (List.all_eq_true.1 hobjects object (mem_objectsImplementing.2 h))

end IsConsistent

/-- A field of a type is one of all objects that the type applies to, with a type that stands for no
more, or it is `__typename`. -/
theorem exists_field_within (hschema : schema.IsConsistent) {parent fieldName object : Name}
    (hroot : schema.isIntrospection parent fieldName = true → schema.isObject parent = true)
    {definition : FieldDefinition} (hdef : schema.field? parent fieldName = some definition)
    (h : schema.appliesTo parent object = true) :
    ∃ own, schema.field? object fieldName = some own
      ∧ (schema.isWithin own.type.innerName definition.type.innerName = true
        ∨ definition = typenameField) := by
  obtain ⟨type, htype, rfl, hfield⟩ := field?_eq_some hdef
  have hobject := hschema.isObject_of_appliesTo h
  -- On a type that is no object, the only meta-field is `__typename`.
  have hmeta (hparent : schema.isObject parent = false)
      (hmem : definition ∈ schema.metaFields parent type) :
      ∃ own, schema.field? object definition.name = some own
        ∧ (schema.isWithin own.type.innerName definition.type.innerName = true
          ∨ definition = typenameField) := by
    have hnot : ¬schema.isIntrospection parent definition.name = true :=
      fun h => by simp [hroot h] at hparent
    obtain ⟨-, rfl⟩ := (mem_metaFields hmem).resolve_right hnot
    obtain ⟨own, hown⟩ := exists_typename hobject
    exact ⟨own, hown, .inr rfl⟩
  rw [appliesTo, htype] at h
  cases type with
  | object interfaces fields =>
    obtain rfl := beq_iff_eq.1 h
    exact ⟨definition, hdef, .inl (isWithin_refl _)⟩
  | interface interfaces fields =>
    rcases hfield with hfield | hmem
    · obtain ⟨own, hown, hwithin⟩ := hschema.exists_field_of_implements htype h hfield
      exact ⟨own, hown, .inl hwithin⟩
    · exact hmeta (by rw [isObject, htype]) hmem
  | union members =>
    rcases hfield with hfield | hmem
    · exact absurd hfield List.not_mem_nil
    · exact hmeta (by rw [isObject, htype]) hmem
  | scalar => cases h
  | enum values => cases h
  | inputObject fields => cases h

/-! ## Schemas that are read -/

theorem type?_string_of_add? {definition : TypeSystemDefinition}
    {assembled next : AssembledTypes} (h : assembled.types.get? "String" = some .scalar)
    (hadd : assembled.add? definition = some next) :
    next.types.get? "String" = some .scalar := by
  rw [AssembledTypes.add?.eq_def] at hadd
  split at hadd
  · split at hadd
    · cases hadd
    · obtain rfl := Option.some.inj hadd
      rw [OrderedMap.get?, Option.map_eq_some_iff] at h ⊢
      obtain ⟨entry, hfind, htype⟩ := h
      exact ⟨entry, by rw [List.find?_append, hfind, Option.some_or], htype⟩
  · rename_i name extension
    split at hadd
    · rename_i whole hwhole
      obtain ⟨extended, hextended, rfl⟩ := Option.map_eq_some_iff.1 hadd
      rw [OrderedMap.get?_insert]
      split
      · rename_i hname
        obtain rfl := Option.some.inj ((hname ▸ hwhole).symm.trans h)
        cases extension <;> cases hextended
        rfl
      · exact h
    · obtain rfl := Option.some.inj hadd
      exact h
  · obtain rfl := Option.some.inj hadd
    exact h

/-- `String` is a scalar in every schema that is read. -/
theorem type?_string {definitions : List TypeSystemDefinition}
    (h : ofDefinitions? definitions = some schema) : schema.type? "String" = some .scalar := by
  have hrun (assembled out : AssembledTypes) (hstart : assembled.types.get? "String" = some .scalar)
      (hout : definitions.foldlM AssembledTypes.add? assembled = some out) :
      out.types.get? "String" = some .scalar := by
    clear h
    induction definitions generalizing assembled with
    | nil =>
      obtain rfl := Option.some.inj hout
      exact hstart
    | cons definition definitions ih =>
      rw [List.foldlM_cons] at hout
      obtain ⟨next, hnext, hout⟩ := Option.bind_eq_some_iff.1 hout
      exact ih next (type?_string_of_add? hstart hnext) hout
  obtain ⟨types, htypes, h⟩ := Option.bind_eq_some_iff.1 h
  obtain ⟨roots, -, h⟩ := Option.bind_eq_some_iff.1 h
  obtain ⟨directives, -, h⟩ := Option.bind_eq_some_iff.1 h
  obtain rfl := Option.some.inj h
  obtain ⟨assembled, hassembled, hfinish⟩ := Option.bind_eq_some_iff.1 htypes
  rw [AssembledTypes.finish?] at hfinish
  split at hfinish
  · obtain rfl := Option.some.inj hfinish
    exact hrun _ _ rfl hassembled
  · cases hfinish

/-- A type is not in a schema any more, or is what it was, once unused scalars are dropped. -/
theorem type?_dropUnusedScalars (schema : Schema) (name : Name) :
    schema.dropUnusedScalars.type? name = schema.type? name
      ∨ schema.dropUnusedScalars.type? name = none := by
  have hfind : schema.dropUnusedScalars.types.find? (·.1 = name)
      = schema.types.find? fun entry =>
        decide ((!builtInScalars.contains entry.1 || schema.mentioned.contains entry.1) = true
          ∧ decide (entry.1 = name) = true) := List.find?_filter
  rw [type?, type?, OrderedMap.get?, OrderedMap.get?, hfind]
  by_cases hkept : (!builtInScalars.contains name || schema.mentioned.contains name) = true
  · left
    congr 2
    funext entry
    by_cases hname : entry.1 = name
    · rw [hname, hkept]
      simp
    · simp [hname]
  · right
    rw [List.find?_eq_none.2, Option.map_none]
    intro entry _ h
    obtain ⟨hentry, hname⟩ := of_decide_eq_true h
    exact hkept (of_decide_eq_true hname ▸ hentry)

/-- So `__typename` returns no composite type in a schema that is read, validated or not. -/
theorem not_isComposite_string {text : String}
    (h : build? text = some schema ∨ validated? text = some schema) :
    schema.isComposite "String" = false := by
  have hbuilt {built : Schema} (hbuild : build? text = some built) :
      built.type? "String" = some .scalar := by
    obtain ⟨definitions, -, hdefinitions⟩ := Option.bind_eq_some_iff.1 hbuild
    exact type?_string hdefinitions
  rcases h with h | h
  · rw [isComposite, hbuilt h]
    rfl
  · obtain ⟨built, hbuild, h⟩ := Option.bind_eq_some_iff.1 h
    split at h
    · obtain rfl := Option.some.inj h
      rcases built.type?_dropUnusedScalars "String" with hsame | hnone
      · rw [isComposite, hsame, hbuilt hbuild]
        rfl
      · rw [isComposite, hnone]
        rfl
    · cases h

end Schema

end SelectionForest
