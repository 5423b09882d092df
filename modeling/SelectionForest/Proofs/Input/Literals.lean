import SelectionForest.Proofs.Input.KeyOrder
import SelectionForest.Proofs.Input.Parts

/-!
# Literals and the same values of variables

A value can be written as a literal, or given to a variable. A literal is resolved along its type,
and a value of a variable is coerced along its type. What is accepted for the variable is accepted as
the literal, with the same value up to the order of keys (`Value.resolve_of_coerce`): an object
literal has the fields in the order of their definitions, and a coerced object has its own members
first.

* `resolveArguments_literal`: an argument resolves alike written in the one way and in the other, and
  the arguments of its field are refused only for those that may not be left out.
-/

namespace SelectionForest

section Literals

variable {schema : Schema} {bindings : Members}

theorem literalNumber_eq_ok {text : String} {overflow : InputFault} {json : Json} :
    literalNumber text overflow = .ok json
      ↔ ∃ number, Number.ofToken? text.toList = some number ∧ Json.number number = json := by
  rw [literalNumber]
  cases Number.ofToken? text.toList <;> simp

/-- The JSON value of a literal does not depend on its place. -/
theorem Value.toJson_at {literal : Value} {position other : Position} {json : Json}
    (h : literal.toJson position = .ok json) : literal.toJson other = .ok json := by
  induction literal using Value.induction generalizing json with
  | atom literal hatom =>
    cases literal with
    | list => cases hatom
    | object => cases hatom
    | «variable» => cases h
    | int text => exact literalNumber_eq_ok.2 (literalNumber_eq_ok.1 h)
    | float text => exact literalNumber_eq_ok.2 (literalNumber_eq_ok.1 h)
    | _ => exact h
  | list items ih =>
    rw [Value.toJson, itemsToJson_eq_mapM] at h ⊢
    obtain ⟨values, hvalues, rfl⟩ := map_eq_ok.1 h
    refine map_eq_ok.2 ⟨values, mapM_eq_ok.2 ?_, rfl⟩
    refine forall₂_imp_of_mem (fun item hitem value hvalue => ?_) (mapM_eq_ok.1 hvalues)
    exact ih item hitem hvalue
  | object fields ih =>
    rw [Value.toJson, fieldsToJson_eq_mapM] at h ⊢
    obtain ⟨members, hmembers, rfl⟩ := map_eq_ok.1 h
    refine map_eq_ok.2 ⟨members, mapM_eq_ok.2 ?_, rfl⟩
    refine forall₂_imp_of_mem (fun field hfield member hmember => ?_) (mapM_eq_ok.1 hmembers)
    obtain ⟨value, hvalue, rfl⟩ := map_eq_ok.1 hmember
    exact map_eq_ok.2 ⟨value, ih field hfield hvalue, rfl⟩

variable (schema bindings) in
/-- A literal without parts that is not `null` is resolved at the named type inside all lists, and
its value is coerced there. -/
theorem Value.toJson_atom {literal : Value} (hatom : literal.isAtom = true) {position : Position}
    {json : Json} (h : literal.toJson position = .ok json) :
    literal = .null ∧ json = .null
      ∨ (∀ place type, json.coerce schema place type
          = (coerceLeaf schema place type.innerName json).map type.wrap)
        ∧ ∀ place type, literal.resolve schema bindings place type
          = (resolveLeaf schema place type.innerName literal).map type.wrap := by
  cases literal with
  | list => cases hatom
  | object => cases hatom
  | «variable» => cases h
  | null => exact .inl ⟨rfl, (Except.ok.inj h).symm⟩
  | int text =>
    obtain ⟨number, -, rfl⟩ := literalNumber_eq_ok.1 h
    exact .inr ⟨fun _ _ => rfl, fun _ _ => rfl⟩
  | float text =>
    obtain ⟨number, -, rfl⟩ := literalNumber_eq_ok.1 h
    exact .inr ⟨fun _ _ => rfl, fun _ _ => rfl⟩
  | _ =>
    obtain rfl := Except.ok.inj h
    exact .inr ⟨fun _ _ => rfl, fun _ _ => rfl⟩

/-- Where a type has no parts, what is accepted for a variable is accepted as a literal. -/
theorem resolveLeaf_of_coerceLeaf {literal : Value} {position place other : Position} {json : Json}
    (hjson : literal.toJson position = .ok json) {type : Name} {coerced : Json}
    (h : coerceLeaf schema place type json = .ok coerced) :
    resolveLeaf schema other type literal = .ok coerced := by
  obtain ⟨rfl, definition, htype, hleaf⟩ := coerceLeaf_eq_ok h
  rw [resolveLeaf_of_isLeaf htype hleaf]
  exact Value.toJson_at hjson

/-- Whether what is accepted for a variable is accepted as a literal, with a like value. -/
def Value.ResolvesAsCoerced (schema : Schema) (bindings : Members) (literal : Value) : Prop :=
  ∀ {position place other : Position} {type : TypeRef} {json coerced : Json},
    literal.toJson position = .ok json → json.coerce schema place type = .ok coerced →
    ∃ value, literal.resolve schema bindings other type = .ok value ∧ coerced.IsLike value

/-- The items of a list that is accepted for a variable are accepted as literals. -/
theorem resolveItems_of_coerced {items : List Value} {position place other : Position}
    {type : TypeRef} {values coerced : List Json}
    (hitems : ∀ item ∈ items, item.ResolvesAsCoerced schema bindings)
    (hvalues : List.Forall₂ (fun item value => item.toJson position = .ok value) items values)
    (hcoerced : List.Forall₂ (fun value coerced => value.coerce schema place type = .ok coerced)
      values coerced) :
    ∃ resolved, List.Forall₂ (fun item value =>
        item.resolve schema bindings other type = .ok value) items resolved
      ∧ List.Forall₂ Json.IsLike coerced resolved := by
  induction hvalues generalizing coerced with
  | nil =>
    cases hcoerced
    exact ⟨[], .nil, .nil⟩
  | cons hvalue _ ih =>
    obtain ⟨hitem, hrest⟩ := List.forall_mem_cons.1 hitems
    cases hcoerced with
    | cons hfirst hcoerced =>
      obtain ⟨value', hvalue', hlike⟩ := hitem hvalue hfirst
      obtain ⟨resolved, hresolved, hlikes⟩ := ih hrest hcoerced
      exact ⟨value' :: resolved, .cons hvalue' hresolved, .cons hlike hlikes⟩

/-! ## Objects -/

/-- Whether the members of two objects are alike but for keys that are still to be put in both: those
of the object that one of them starts with, if a field to come has that name. -/
structure InStep (given : Members) (toCome : List InputDefinition) (coerced resolved : Members) :
    Prop where
  left : (coerced.map (·.1)).Nodup
  right : (resolved.map (·.1)).Nodup
  alike : ∀ key, (given.has key = true → key ∉ toCome.map (·.name)) →
    Option.Rel Json.IsLike (coerced.get? key) (resolved.get? key)

namespace InStep

variable {given coerced resolved : Members} {field : InputDefinition}
  {toCome : List InputDefinition}

/-- Both get a value for the next field. -/
theorem insert (h : InStep given (field :: toCome) coerced resolved) {value other : Json}
    (hlike : value.IsLike other) :
    InStep given toCome (coerced.insert field.name value) (resolved.insert field.name other) where
  left := OrderedMap.nodup_insert h.left _ _
  right := OrderedMap.nodup_insert h.right _ _
  alike key hkey := by
    rw [OrderedMap.get?_insert, OrderedMap.get?_insert]
    by_cases hname : field.name = key
    · rw [if_pos hname, if_pos hname]
      exact .some hlike
    · rw [if_neg hname, if_neg hname]
      refine h.alike key fun hhas hmem => ?_
      rcases List.mem_cons.1 hmem with heq | hmem
      · exact hname heq.symm
      · exact hkey hhas hmem

/-- Neither gets a value for the next field. -/
theorem skip (h : InStep given (field :: toCome) coerced resolved)
    (hfield : ¬ given.has field.name = true) : InStep given toCome coerced resolved where
  left := h.left
  right := h.right
  alike key hkey := by
    refine h.alike key fun hhas hmem => ?_
    rcases List.mem_cons.1 hmem with rfl | hmem
    · exact hfield hhas
    · exact hkey hhas hmem

end InStep

/-- A literal with a JSON value is no variable. -/
theorem Value.asVariable?_of_toJson {literal : Value} {position : Position} {json : Json}
    (h : literal.toJson position = .ok json) : literal.asVariable? = none := by
  cases literal with
  | «variable» => cases h
  | _ => rfl

theorem Value.isUnset_of_literal {literal : Value} (h : literal.asVariable? = none) :
    literal.isUnset bindings = false := by
  rw [Value.isUnset, h]
  rfl

theorem Value.isUnset_of_toJson {literal : Value} {position : Position} {json : Json}
    (h : literal.toJson position = .ok json) : ¬ literal.isUnset bindings = true :=
  ne_true_of_eq_false (Value.isUnset_of_literal (Value.asVariable?_of_toJson h))

section Fields

variable {fields : List (Name × Value)} {given : Members} {position : Position} {type : Name}
  {definitions : List InputDefinition}
  (hfields : ∀ field ∈ fields, field.2.ResolvesAsCoerced schema bindings)
  (hgiven : ∀ key, Option.Rel (fun literal value => literal.toJson position = .ok value)
    (OrderedMap.get? fields key) (given.get? key))

include hfields hgiven

/-- A field that is filled in an object of a variable is filled in the object of a literal. -/
theorem resolveField_of_fillMember {field : InputDefinition} (hmem : field ∈ definitions)
    {toCome : List InputDefinition} {coerced resolved next : Members}
    (hstep : InStep given (field :: toCome) coerced resolved)
    (h : fillMember type (coerceMembers schema given type definitions) coerced field = .ok next) :
    ∃ next', resolveField type (resolveEntries schema bindings fields type definitions) resolved field
        = .ok next' ∧ InStep given toCome next next' := by
  obtain ⟨found, hfound⟩ := exists_findDefinition? hmem
  have hrel := hgiven field.name
  rw [fillMember, get?_coerceMembers, hfound] at h
  rw [resolveField, get?_resolveEntries, hfound]
  cases hliteral : OrderedMap.get? fields field.name with
  | some literal =>
    rw [hliteral] at hrel
    cases hvalue : given.get? field.name with
    | none =>
      rw [hvalue] at hrel
      cases hrel
    | some value =>
      rw [hvalue] at hrel h
      cases hrel with
      | some hjson =>
        obtain ⟨coerced', hcoerced, rfl⟩ := map_eq_ok.1 h
        obtain ⟨value', hvalue', hlike⟩ :=
          hfields _ (OrderedMap.mem_of_get? hliteral) hjson hcoerced
        rw [Option.map_some, if_neg (Value.isUnset_of_toJson hjson)]
        exact ⟨_, map_eq_ok.2 ⟨value', hvalue', rfl⟩, hstep.insert hlike⟩
  | none =>
    rw [hliteral] at hrel
    cases hvalue : given.get? field.name with
    | some value =>
      rw [hvalue] at hrel
      cases hrel
    | none =>
      have habsent : ¬ given.has field.name = true := by
        rw [OrderedMap.has, hvalue]
        exact Bool.false_ne_true
      rw [hvalue] at h
      dsimp only [Option.map_none, Option.join_none] at h ⊢
      cases hdefault : field.default with
      | some default =>
        rw [hdefault] at h
        obtain ⟨value, hvalue, rfl⟩ := map_eq_ok.1 h
        exact ⟨_, map_eq_ok.2 ⟨value, hvalue, rfl⟩, hstep.insert (.refl value)⟩
      | none =>
        rw [hdefault] at h
        dsimp only at h ⊢
        split at h
        · cases h
        · rename_i hnullable
          obtain rfl := Except.ok.inj h
          rw [if_neg hnullable]
          exact ⟨_, rfl, hstep.skip habsent⟩

/-- What is filled in for all fields of a type. -/
theorem resolveFields_of_fillMembers {toCome : List InputDefinition} (hsub : toCome ⊆ definitions)
    {coerced resolved out : Members} (hstep : InStep given toCome coerced resolved)
    (h : toCome.foldlM (fillMember type (coerceMembers schema given type definitions)) coerced
      = .ok out) :
    ∃ out', toCome.foldlM
        (resolveField type (resolveEntries schema bindings fields type definitions)) resolved
        = .ok out' ∧ InStep given [] out out' := by
  induction toCome generalizing coerced resolved with
  | nil =>
    obtain rfl := pure_eq_ok.1 h
    exact ⟨resolved, rfl, hstep⟩
  | cons field toCome ih =>
    obtain ⟨hmem, hsub⟩ := List.cons_subset.1 hsub
    rw [List.foldlM_cons] at h
    obtain ⟨next, hnext, h⟩ := bind_eq_ok.1 h
    obtain ⟨next', hnext', hstep⟩ := resolveField_of_fillMember hfields hgiven hmem hstep hnext
    obtain ⟨out', hout', hstep⟩ := ih hsub hstep h
    rw [List.foldlM_cons]
    exact ⟨out', bind_eq_ok.2 ⟨next', hnext', hout'⟩, hstep⟩

end Fields

theorem find?_unknown_eq_none {ν : Type} {map : OrderedMap Name ν}
    {definitions : List InputDefinition} :
    (map.find? fun entry => (findDefinition? definitions entry.1).isNone) = none
      ↔ ∀ key ∈ map.map (·.1), (findDefinition? definitions key).isSome = true := by
  simp [List.find?_eq_none, Option.isSome_iff_ne_none]

/-- An object that is accepted for a variable is accepted as a literal. -/
theorem resolveFields_of_coerced {fields : List (Name × Value)} (hnd : (fields.map (·.1)).Nodup)
    (hfields : ∀ field ∈ fields, field.2.ResolvesAsCoerced schema bindings) {position : Position}
    {given : Members} (hgiven : fieldsToJson position fields = .ok given) {type : Name}
    {definitions : List InputDefinition} {coerced : Json}
    (h : fillMembers type definitions (coerceMembers schema given type definitions) given
      = .ok coerced) :
    ∃ value, resolveFields type definitions
        (resolveEntries schema bindings fields type definitions) = .ok value
      ∧ coerced.IsLike value := by
  have hkeys := fieldsToJson_keys hgiven
  rw [fillMembers] at h
  split at h
  · cases h
  · rename_i hknown
    rw [find?_unknown_eq_none, hkeys] at hknown
    obtain ⟨out, hout, rfl⟩ := map_eq_ok.1 h
    have hstart : InStep given definitions given [] := {
      left := hkeys ▸ hnd
      right := List.nodup_nil
      alike := fun key hkey => by
        -- A key of the object is that of a field to come, because no key is unknown.
        have habsent : ¬ given.has key = true := fun hhas => by
          have hmem := OrderedMap.has_iff_mem.1 hhas
          obtain ⟨found, hfound⟩ := Option.isSome_iff_exists.1 (hknown key (hkeys ▸ hmem))
          refine hkey hhas (List.mem_map.2 ⟨found, List.mem_of_find?_eq_some hfound, ?_⟩)
          exact name_of_findDefinition? hfound
        rw [OrderedMap.has, Option.not_isSome_iff_eq_none] at habsent
        rw [habsent]
        exact .none }
    obtain ⟨out', hout', hstep⟩ := resolveFields_of_fillMembers hfields (get?_fieldsToJson hgiven)
      (List.Subset.refl _) hstart hout
    refine ⟨.object out', ?_, Json.isLike_object hstep.left hstep.right fun key =>
      hstep.alike key fun _ => List.not_mem_nil⟩
    rw [resolveFields, find?_unknown_eq_none.2 (by rwa [resolveEntries_keys])]
    exact map_eq_ok.2 ⟨out', hout', rfl⟩

/-- What is accepted for a variable is accepted as a literal, with the same value up to the order of
keys. -/
theorem Value.resolve_of_coerce {literal : Value} (hkeys : literal.hasUniqueKeys) :
    literal.ResolvesAsCoerced schema bindings := by
  induction literal using Value.induction with
  | atom literal hatom =>
    intro position place other type json coerced hjson h
    rcases Value.toJson_atom schema bindings hatom hjson
      with ⟨rfl, rfl⟩ | ⟨hcoerce, hresolve⟩
    · rw [Json.coerce] at h
      rw [Value.resolve]
      split at h
      · cases h
      · rename_i hnullable
        obtain rfl := Except.ok.inj h
        exact ⟨.null, if_neg hnullable, .refl _⟩
    · rw [hcoerce] at h
      obtain ⟨value, hvalue, rfl⟩ := map_eq_ok.1 h
      rw [hresolve]
      exact ⟨_, map_eq_ok.2 ⟨value, resolveLeaf_of_coerceLeaf hjson hvalue, rfl⟩, .refl _⟩
  | list items ih =>
    intro position place other type json coerced hjson h
    have hliteral := hjson
    rw [Value.toJson, itemsToJson_eq_mapM] at hjson
    obtain ⟨values, hvalues, rfl⟩ := map_eq_ok.1 hjson
    cases type with
    | named name nonNull =>
      exact ⟨coerced, resolveLeaf_of_coerceLeaf hliteral h, .refl _⟩
    | list item nonNull =>
      rw [Json.coerce, coerceItems_eq_mapM] at h
      rw [Value.resolve, resolveItems_eq_mapM]
      obtain ⟨coerced, hcoerced, rfl⟩ := map_eq_ok.1 h
      obtain ⟨resolved, hresolved, hlike⟩ := resolveItems_of_coerced
        (fun literal hmem => ih literal hmem (hasUniqueKeys_list.1 hkeys literal hmem))
        (mapM_eq_ok.1 hvalues) (mapM_eq_ok.1 hcoerced)
      exact ⟨_, map_eq_ok.2 ⟨resolved, mapM_eq_ok.2 hresolved, rfl⟩, .array hlike⟩
  | object fields ih =>
    intro position place other type json coerced hjson h
    obtain ⟨hnd, hfields⟩ := hasUniqueKeys_object.1 hkeys
    have hliteral := hjson
    rw [Value.toJson] at hjson
    obtain ⟨members, hmembers, rfl⟩ := map_eq_ok.1 hjson
    rw [OrderedMap.ofList_of_nodup (fieldsToJson_keys hmembers ▸ hnd)] at h hliteral
    rw [Json.coerce] at h
    split at h
    · rename_i definitions htype
      obtain ⟨object, hobject, rfl⟩ := map_eq_ok.1 h
      obtain ⟨value, hvalue, hlike⟩ := resolveFields_of_coerced hnd
        (fun field hfield => ih field hfield (hfields field hfield)) hmembers hobject
      rw [Value.resolve, htype]
      exact ⟨_, map_eq_ok.2 ⟨value, hvalue, rfl⟩, hlike.wrap type⟩
    · rename_i hleaf
      obtain ⟨value, hvalue, rfl⟩ := map_eq_ok.1 h
      rw [Value.resolve]
      split
      · rename_i definitions htype
        exact absurd htype (hleaf definitions)
      · exact ⟨_, map_eq_ok.2 ⟨value, resolveLeaf_of_coerceLeaf hliteral hvalue, rfl⟩, .refl _⟩

end Literals

/-! ## Arguments -/

/-- A value that is not `null` stays so in lists of one. -/
theorem TypeRef.isNull_wrap {value : Json} (h : value.isNull = false) :
    ∀ type : TypeRef, (type.wrap value).isNull = false
  | .named _ _ => h
  | .list _ _ => rfl

section Arguments

variable {schema : Schema} {bindings : Members}

/-- A value that is not `null` is not coerced to `null`. -/
theorem Json.isNull_of_coerce {json coerced : Json} {place : Position} {type : TypeRef}
    (hjson : json.isNull = false) (h : json.coerce schema place type = .ok coerced) :
    coerced.isNull = false := by
  cases json with
  | null => cases hjson
  | array items =>
    cases type with
    | list item nonNull =>
      obtain ⟨values, -, rfl⟩ := map_eq_ok.1 h
      rfl
    | named name nonNull =>
      obtain ⟨rfl, -⟩ := coerceLeaf_eq_ok h
      rfl
  | object members =>
    rw [Json.coerce] at h
    split at h
    · obtain ⟨object, hobject, rfl⟩ := map_eq_ok.1 h
      rw [fillMembers] at hobject
      split at hobject
      · cases hobject
      · obtain ⟨out, -, rfl⟩ := map_eq_ok.1 hobject
        exact TypeRef.isNull_wrap rfl type
    · obtain ⟨value, hvalue, rfl⟩ := map_eq_ok.1 h
      obtain ⟨rfl, -⟩ := coerceLeaf_eq_ok hvalue
      exact TypeRef.isNull_wrap rfl type
  | _ =>
    obtain ⟨value, hvalue, rfl⟩ := map_eq_ok.1 h
    obtain ⟨rfl, -⟩ := coerceLeaf_eq_ok hvalue
    exact TypeRef.isNull_wrap rfl type

/-- What is accepted at a type without `null` is not `null`. -/
theorem Json.coerce_nullable {json coerced : Json} {place : Position} {type : TypeRef}
    (h : json.coerce schema place type = .ok coerced) :
    ¬ (coerced.isNull && type.isNonNull) = true := by
  cases hjson : json.isNull with
  | false => simp [Json.isNull_of_coerce hjson h]
  | true =>
    cases json with
    | null =>
      rw [Json.coerce] at h
      split at h
      · cases h
      · rename_i hnullable
        simp [hnullable]
    | _ => cases hjson

/-- The coerced value of a variable that stands alone. -/
theorem coerceVariables_singleton {declared : VariableDefinition} {json : Json}
    (h : coerceVariables schema [declared] [(declared.name, json)] = .ok bindings) :
    ∃ coerced, json.coerce schema (.variable declared.name) declared.type = .ok coerced
      ∧ bindings.get? declared.name = some coerced := by
  obtain ⟨next, hnext, h⟩ := bind_eq_ok.1 h
  obtain ⟨value, hvalue, hinsert⟩ := bind_eq_ok.1 hnext
  obtain rfl := pure_eq_ok.1 h
  have hgiven : OrderedMap.get? [(declared.name, json)] declared.name = some json :=
    (OrderedMap.get?_cons ..).trans (if_pos rfl)
  rw [coerceVariable, hgiven] at hvalue
  obtain ⟨coerced, hcoerced, rfl⟩ := map_eq_ok.1 hvalue
  obtain rfl := pure_eq_ok.1 hinsert
  exact ⟨coerced, hcoerced, (OrderedMap.get?_insert ..).trans (if_pos rfl)⟩

theorem findArgument?_singleton (written : Argument) (name : Name) :
    findArgument? [written] name = if written.name = name then some written.value else none := by
  rw [findArgument?, List.find?_cons]
  by_cases hname : written.name = name
  · rw [if_pos hname, decide_eq_true hname]
    rfl
  · rw [if_neg hname, decide_eq_false hname]
    rfl

/-- An argument that is not the one that is written has no value of its own. -/
theorem resolveArgument_of_ne {written : Argument} {argument : InputDefinition}
    (hname : written.name ≠ argument.name) :
    resolveArgument schema bindings [written] argument = resolveUnwritten argument := by
  rw [resolveArgument, findArgument?_singleton, if_neg hname]

/-- An argument that is written as a literal is resolved if its value is accepted for a variable. -/
theorem resolveArgument_literal {literal : Value} (hkeys : literal.hasUniqueKeys)
    {position place : Position} {json coerced : Json} (hjson : literal.toJson position = .ok json)
    {argument : InputDefinition} (h : json.coerce schema place argument.type = .ok coerced) :
    ∃ value, resolveArgument schema bindings [⟨argument.name, literal⟩] argument = .ok (some value)
      ∧ coerced.IsLike value := by
  obtain ⟨value, hvalue, hlike⟩ := Value.resolve_of_coerce hkeys hjson h
  rw [resolveArgument_of_literal ((findArgument?_singleton ..).trans (if_pos rfl))
    (Value.asVariable?_of_toJson hjson)]
  exact ⟨value, map_eq_ok.2 ⟨value, hvalue, rfl⟩, hlike⟩

section Alone

variable {definition : FieldDefinition} {name : Name} {literal other : Value}

/-- An argument that stands alone is resolved alike in two ways of writing it, or refused alike. -/
theorem resolveArguments_alone (h : ∀ argument ∈ definition.arguments, argument.name = name →
      ∃ value value', resolveArgument schema bindings [⟨name, literal⟩] argument = .ok (some value)
        ∧ resolveArgument schema bindings [⟨name, other⟩] argument = .ok (some value')
        ∧ value.IsLike value') :
    Agree (List.Forall₂ EntriesAlike)
      (resolveArguments schema bindings definition [⟨name, literal⟩])
      (resolveArguments schema bindings definition [⟨name, other⟩]) := by
  rw [resolveArguments_eq_foldlM_addEntry, resolveArguments_eq_foldlM_addEntry]
  refine foldlM_addEntry_agree (fun _ _ hentry => hentry.1) (fun argument hmem => ?_) .nil
  by_cases hname : argument.name = name
  · obtain ⟨value, value', hvalue, hvalue', hlike⟩ := h argument hmem hname
    rw [hvalue, hvalue']
    exact .ok (.some ⟨rfl, hlike⟩)
  · rw [resolveArgument_of_ne (Ne.symm hname), resolveArgument_of_ne (Ne.symm hname)]
    refine Agree.refl (fun value => ?_) _
    cases value with
    | none => exact .none
    | some value => exact .some ⟨rfl, .refl value⟩

variable {value : Json} (hvalue : ∀ argument ∈ definition.arguments, argument.name = name →
  resolveArgument schema bindings [⟨name, literal⟩] argument = .ok (some value))

include hvalue

/-- If the arguments of a field are resolved where one stands alone, the others are left out. -/
theorem resolveArguments_alone_ok (hdefined : name ∈ definition.arguments.map (·.name))
    {resolved : Members}
    (h : resolveArguments schema bindings definition [⟨name, literal⟩] = .ok resolved) :
    resolved.has name = true ∧ ∀ argument ∈ definition.arguments, argument.name ≠ name →
      ∃ value, resolveUnwritten argument = .ok value := by
  rw [resolveArguments_eq_foldlM_addEntry] at h
  constructor
  · rw [OrderedMap.has, foldlM_addEntry_get? hvalue (.inr hdefined) h]
    rfl
  · intro argument hmem hname
    obtain ⟨value, hargument⟩ := foldlM_addEntry_each h argument hmem
    rw [resolveArgument_of_ne (Ne.symm hname)] at hargument
    exact ⟨value, hargument⟩

/-- If they are refused, it is for one that may not be left out. -/
theorem resolveArguments_alone_error {error : Error}
    (h : resolveArguments schema bindings definition [⟨name, literal⟩] = .error error) :
    ∃ argument ∈ definition.arguments, argument.name ≠ name
      ∧ resolveUnwritten argument = .error error := by
  rw [resolveArguments_eq_foldlM_addEntry] at h
  obtain ⟨argument, hmem, hargument⟩ := foldlM_addEntry_error h
  have hname : argument.name ≠ name := fun hname => by
    rw [hvalue argument hmem hname] at hargument
    cases hargument
  rw [resolveArgument_of_ne (Ne.symm hname)] at hargument
  exact ⟨argument, hmem, hname, hargument⟩

end Alone

/-- An argument that is written as a literal, or as a variable that is given the same value: both are
resolved, to the same values up to the order of keys, if each other argument of the field may be left
out; and both are refused in the same way for one that may not. -/
theorem resolveArguments_literal {literal : Value} (hkeys : literal.hasUniqueKeys)
    {position : Position} {json : Json} (hjson : literal.toJson position = .ok json)
    {declared : VariableDefinition}
    (hbindings : coerceVariables schema [declared] [(declared.name, json)] = .ok bindings)
    {definition : FieldDefinition} {name : Name}
    (hdefined : name ∈ definition.arguments.map (·.name))
    (htype : ∀ argument ∈ definition.arguments, argument.name = name →
      argument.type = declared.type) :
    (∃ given written,
        resolveArguments schema bindings definition [⟨name, .variable declared.name⟩] = .ok given
        ∧ resolveArguments schema bindings definition [⟨name, literal⟩] = .ok written
        ∧ List.Forall₂ EntriesAlike given written ∧ given.has name = true
        ∧ ∀ argument ∈ definition.arguments, argument.name ≠ name →
          ∃ value, resolveUnwritten argument = .ok value)
      ∨ ∃ error,
        resolveArguments schema bindings definition [⟨name, .variable declared.name⟩] = .error error
        ∧ resolveArguments schema bindings definition [⟨name, literal⟩] = .error error
        ∧ ∃ argument ∈ definition.arguments, argument.name ≠ name
          ∧ resolveUnwritten argument = .error error := by
  obtain ⟨coerced, hcoerced, hbound⟩ := coerceVariables_singleton hbindings
  have hvariable : ∀ argument ∈ definition.arguments, argument.name = name →
      resolveArgument schema bindings [⟨name, .variable declared.name⟩] argument
        = .ok (some coerced) := by
    rintro argument hmem rfl
    rw [← htype argument hmem rfl] at hcoerced
    exact resolveArgument_of_variable ((findArgument?_singleton ..).trans (if_pos rfl)) hbound
      (Json.coerce_nullable hcoerced)
  have hliteral : ∀ argument ∈ definition.arguments, argument.name = name →
      ∃ value, resolveArgument schema bindings [⟨name, literal⟩] argument = .ok (some value)
        ∧ coerced.IsLike value := by
    rintro argument hmem rfl
    rw [← htype argument hmem rfl] at hcoerced
    exact resolveArgument_literal hkeys hjson hcoerced
  have hagree := resolveArguments_alone fun argument hmem hname => by
    obtain ⟨value, hvalue, hlike⟩ := hliteral argument hmem hname
    exact ⟨coerced, value, hvariable argument hmem hname, hvalue, hlike⟩
  cases hgiven : resolveArguments schema bindings definition [⟨name, .variable declared.name⟩] with
  | ok given =>
    obtain ⟨written, hwritten, halike⟩ := hagree.exists_right hgiven
    obtain ⟨hhas, hothers⟩ := resolveArguments_alone_ok hvariable hdefined hgiven
    exact .inl ⟨given, written, rfl, hwritten, halike, hhas, hothers⟩
  | error error =>
    have hwritten := hagree.error_right hgiven
    exact .inr ⟨error, rfl, hwritten, resolveArguments_alone_error hvariable hgiven⟩

end Arguments

/-! ## Samples -/

namespace Sample

/-- `{ limit: 5, tags: "a" }` -/
def filter : Value := .object [("limit", .int "5"), ("tags", .string "a")]

/-- `($filter: [Filter])` -/
def filterVariable : VariableDefinition := ⟨"filter", .list (.named "Filter" false) false, none⟩

/-- The value of the variable keeps its own keys first. -/
def filterBindings : Members :=
  [("filter", .array [.object [("limit", .number (.int 5)), ("tags", .array [.string "a"])]])]

/-- All other arguments of the search may be left out. -/
theorem filter_alike :
    ∃ given written,
      resolveArguments searchSchema filterBindings search [⟨"filter", .variable "filter"⟩]
          = .ok given
        ∧ resolveArguments searchSchema filterBindings search [⟨"filter", filter⟩] = .ok written
        ∧ List.Forall₂ EntriesAlike given written ∧ given.has "filter" = true
        ∧ ∀ argument ∈ search.arguments, argument.name ≠ "filter" →
          ∃ value, resolveUnwritten argument = .ok value := by
  have hfilter : filter.toJson (.argument "filter")
      = .ok (.object [("limit", .number (.int 5)), ("tags", .string "a")]) := rfl
  have hbindings : coerceVariables searchSchema [filterVariable]
      [("filter", .object [("limit", .number (.int 5)), ("tags", .string "a")])]
        = .ok filterBindings := rfl
  have hdefined : "filter" ∈ search.arguments.map (·.name) := by decide
  have htype : ∀ argument ∈ search.arguments, argument.name = "filter" →
      argument.type = filterVariable.type := by decide
  refine (resolveArguments_literal rfl hfilter hbindings hdefined htype).resolve_right ?_
  rintro ⟨error, -, hrefused, -⟩
  cases hrefused

/-- `counted(a: Int, b: Int!): Int` -/
def counted : FieldDefinition :=
  ⟨"counted", [⟨"a", .named "Int" false, none⟩, ⟨"b", .named "Int" true, none⟩],
    .named "Int" false⟩

/-- A value that is accepted for a variable, but neither as the variable nor as a literal, because
the field has another argument that may not be left out. -/
theorem counted_refused :
    (Value.int "1").hasUniqueKeys = true
      ∧ (Value.int "1").toJson (.argument "a") = .ok (.number (.int 1))
      ∧ coerceVariables searchSchema [⟨"v", .named "Int" false, none⟩] [("v", .number (.int 1))]
        = .ok [("v", .number (.int 1))]
      ∧ (∃ argument ∈ counted.arguments, argument.name = "a" ∧ argument.type = .named "Int" false)
      ∧ ¬ ∃ written, resolveArguments searchSchema [("v", .number (.int 1))] counted
        [⟨"a", .int "1"⟩] = .ok written := by
  refine ⟨rfl, rfl, rfl, ⟨_, List.mem_cons_self, rfl, rfl⟩, ?_⟩
  rintro ⟨written, hwritten⟩
  cases hwritten

end Sample

end SelectionForest
