import SelectionForest.Proofs.Input.Objects

/-!
# The shape of resolved arguments

A value fits a type if it is `null` only where the type has `null`, an array wherever the type is a
list, and an object with the fields of the type where that is an input object (`Json.Fits`). What
scalars and enums contain is left open. A variable is used at a type where a literal mentions it
(`Value.Uses`); it may have any value there that fits the type but for `null`.

* `resolveArguments_fit`: if defaults and variables fit where they are used, then resolved arguments
  fit the types of their definitions, and none is missing that may not be.
-/

namespace SelectionForest

/-- Whether a value has the shape of a type. -/
inductive Json.Fits (schema : Schema) : Json → TypeRef → Prop
  | null {type : TypeRef} (hnullable : type.isNonNull = false) : Fits schema .null type
  | list {items : List Json} {item : TypeRef} {nonNull : Bool}
      (hitems : ∀ value ∈ items, Fits schema value item) :
      Fits schema (.array items) (.list item nonNull)
  | leaf {value : Json} {name : Name} {nonNull : Bool} {definition : TypeDefinition}
      (hnull : value.isNull = false) (htype : schema.type? name = some definition)
      (hleaf : definition.isInputObject = false) : Fits schema value (.named name nonNull)
  | object {members : Members} {name : Name} {nonNull : Bool} {fields : List InputDefinition}
      (htype : schema.type? name = some (.inputObject fields))
      (hdeclared : ∀ key ∈ members.map (·.1), key ∈ fields.map (·.name))
      (hfields : ∀ field ∈ fields, ∀ value, members.get? field.name = some value →
        Fits schema value field.type)
      (hpresent : ∀ field ∈ fields, field.type.isNonNull = true → members.has field.name = true) :
      Fits schema (.object members) (.named name nonNull)

/-- The type with `null`. -/
def TypeRef.nullable : TypeRef → TypeRef
  | .named name _ => .named name false
  | .list item _ => .list item false

/-- Where a literal at a type mentions a variable, and at which type. -/
inductive Value.Uses (schema : Schema) (name : Name) (used : TypeRef) : Value → TypeRef → Prop
  | here : Uses schema name used (.variable name) used
  | item {items : List Value} {item : TypeRef} {nonNull : Bool} {literal : Value}
      (hmem : literal ∈ items) (h : Uses schema name used literal item) :
      Uses schema name used (.list items) (.list item nonNull)
  | field {fields : List (Name × Value)} {type : TypeRef} {definitions : List InputDefinition}
      {definition : InputDefinition} {literal : Value}
      (htype : schema.type? type.innerName = some (.inputObject definitions))
      (hmem : definition ∈ definitions)
      (hwritten : OrderedMap.get? fields definition.name = some literal)
      (h : Uses schema name used literal definition.type) :
      Uses schema name used (.object fields) type

theorem Value.Uses.of_variable {schema : Schema} {name other : Name} {used type : TypeRef}
    (h : (Value.variable other).Uses schema name used type) : other = name ∧ used = type := by
  cases h
  exact ⟨rfl, rfl⟩

/-- Where the arguments that are written for a field mention a variable, and at which type. -/
def FieldDefinition.Uses (schema : Schema) (definition : FieldDefinition)
    (arguments : List Argument) (name : Name) (used : TypeRef) : Prop :=
  ∃ argument ∈ definition.arguments, ∃ literal,
    findArgument? arguments argument.name = some literal
      ∧ literal.Uses schema name used argument.type

/-- Whether the default of an input, if it has one, fits its type. -/
def InputDefinition.DefaultFits (schema : Schema) (definition : InputDefinition) : Prop :=
  ∀ literal json, definition.default = some literal → literal.Writes json →
    json.Fits schema definition.type

/-- Whether the defaults of the fields of input objects fit. -/
def Schema.DefaultsFit (schema : Schema) : Prop :=
  ∀ entry ∈ schema.types, ∀ field ∈ entry.2.inputFields, field.DefaultFits schema

/-- Whether an input of a type has a value that fits, or none and needs none. -/
def FitsIfTaken (schema : Schema) (type : TypeRef) : Option Json → Prop
  | some value => value.Fits schema type
  | none => type.isNonNull = false

section Fitting

variable {schema : Schema} {bindings : Members}

/-! ## Parts -/

/-- A value that fits but for `null` fits if it is no `null` out of place. -/
theorem Json.Fits.of_nullable {value : Json} {type : TypeRef}
    (h : value.Fits schema type.nullable) (hnull : ¬ (value.isNull && type.isNonNull) = true) :
    value.Fits schema type := by
  have hnullable (h : value.isNull = true) : type.isNonNull = false := by
    rw [h, Bool.true_and] at hnull
    exact Bool.eq_false_of_not_eq_true hnull
  cases type with
  | named name nonNull =>
    cases h with
    | null => exact .null (hnullable rfl)
    | leaf hvalue htype hleaf => exact .leaf hvalue htype hleaf
    | object htype hdeclared hfields hpresent => exact .object htype hdeclared hfields hpresent
  | list item nonNull =>
    cases h with
    | null => exact .null (hnullable rfl)
    | list hitems => exact .list hitems

/-- A single value that fits the named type inside all lists fits them as lists of one. -/
theorem Json.Fits.wrap {value : Json} {type : TypeRef}
    (h : ∀ nonNull, value.Fits schema (.named type.innerName nonNull)) :
    (type.wrap value).Fits schema type := by
  induction type with
  | named name nonNull => exact h nonNull
  | list item nonNull ih => exact .list (List.forall_mem_singleton.2 (ih h))

theorem Value.isNull_of_toJson {literal : Value} (hnull : literal.isNull = false)
    {position : Position} {json : Json} (h : literal.toJson position = .ok json) :
    json.isNull = false := by
  cases literal with
  | null => cases hnull
  | «variable» => cases h
  | int text | float text =>
    obtain ⟨number, -, rfl⟩ := literalNumber_eq_ok.1 h
    rfl
  | list items | object fields =>
    obtain ⟨parts, -, rfl⟩ := map_eq_ok.1 h
    rfl
  | _ =>
    obtain rfl := Except.ok.inj h
    rfl

theorem resolveLeaf_fits {literal : Value} (hnull : literal.isNull = false) {position : Position}
    {name : Name} {value : Json} (h : resolveLeaf schema position name literal = .ok value)
    (nonNull : Bool) : value.Fits schema (.named name nonNull) := by
  rw [resolveLeaf] at h
  split at h
  · cases h
  · cases h
  · rename_i definition hno htype
    refine .leaf (Value.isNull_of_toJson hnull h) htype ?_
    cases definition with
    | inputObject fields => exact absurd rfl (hno fields)
    | _ => rfl

theorem resolveVariable_fits {position : Position} {type : TypeRef} {name : Name}
    (hvariable : ∀ value, bindings.get? name = some value → value.Fits schema type.nullable)
    {value : Json} (h : resolveVariable bindings position type name = .ok value) :
    value.Fits schema type := by
  rw [resolveVariable] at h
  cases hbound : bindings.get? name with
  | some bound =>
    rw [hbound] at h
    dsimp only at h
    split at h
    · cases h
    · rename_i hnull
      obtain rfl := Except.ok.inj h
      exact (hvariable bound hbound).of_nullable hnull
  | none =>
    rw [hbound] at h
    dsimp only at h
    split at h
    · cases h
    · rename_i hnullable
      obtain rfl := Except.ok.inj h
      exact .null (Bool.eq_false_of_not_eq_true hnullable)

/-- An input that is left out takes a value that fits. -/
theorem supply_fits {definition : InputDefinition} (hdefault : definition.DefaultFits schema)
    {position : Position} {missing : Error} {taken : Option Json}
    (h : supply schema position definition.default definition.type missing none = .ok taken) :
    FitsIfTaken schema definition.type taken := by
  cases supplies_of_supply h with
  | default hliteral hwrites => exact hdefault _ _ hliteral hwrites
  | absent _ hnullable => exact hnullable

/-! ## Objects -/

section Fields

variable {type : Name} {fields : List (Name × Value)} {definitions : List InputDefinition}

/-- A field of an object literal takes a value that fits. -/
theorem resolveMember_fits {definition : InputDefinition}
    (hdefault : definition.DefaultFits schema)
    (hwritten : ∀ literal, OrderedMap.get? fields definition.name = some literal →
      ∀ {position value}, literal.resolve schema bindings position definition.type = .ok value →
        value.Fits schema definition.type)
    {taken : Option Json} (h : resolveMember schema bindings type fields definition = .ok taken) :
    FitsIfTaken schema definition.type taken := by
  cases hliteral : OrderedMap.get? fields definition.name with
  | none =>
    rw [resolveMember_of_none hliteral] at h
    exact supply_fits hdefault h
  | some literal =>
    cases hunset : literal.isUnset bindings with
    | true =>
      rw [resolveMember_of_unset hliteral hunset] at h
      exact supply_fits hdefault h
    | false =>
      rw [resolveMember_of_some hliteral hunset] at h
      obtain ⟨value, hvalue, rfl⟩ := map_eq_ok.1 h
      exact hwritten literal hliteral hvalue

/-- An object fits if what it takes for each field does. -/
theorem fits_of_resolveMembers (htype : schema.type? type = some (.inputObject definitions))
    (hnames : (definitions.map (·.name)).Nodup) {members : Members}
    (h : definitions.foldlM (addEntry (·.name) (resolveMember schema bindings type fields)) []
      = .ok members)
    (htaken : ∀ definition ∈ definitions, ∀ taken,
      resolveMember schema bindings type fields definition = .ok taken →
        FitsIfTaken schema definition.type taken) (nonNull : Bool) :
    (Json.object members).Fits schema (.named type nonNull) := by
  have hmember : ∀ definition ∈ definitions,
      FitsIfTaken schema definition.type (members.get? definition.name) := fun definition hmem =>
    htaken definition hmem _ (resolveMember_eq_ok h hnames hmem)
  refine .object htype (fun key hkey => (foldlM_addEntry_keys h).subset hkey)
    (fun definition hmem value hvalue => ?_) fun definition hmem hnonNull => ?_
  · have hfits := hmember definition hmem
    rw [hvalue] at hfits
    exact hfits
  · have hfits := hmember definition hmem
    cases hvalue : members.get? definition.name with
    | none =>
      rw [hvalue] at hfits
      cases hfits.symm.trans hnonNull
    | some value =>
      rw [OrderedMap.has, hvalue]
      rfl

end Fields

/-! ## Literals -/

/-- A literal is resolved to a value that fits, if the variables in it fit where it uses them. -/
theorem Value.resolve_fits (hdistinct : schema.hasDistinctInputs = true)
    (hdefaults : schema.DefaultsFit) {literal : Value} {type : TypeRef}
    (hvariables : ∀ name used, literal.Uses schema name used type →
      ∀ value, bindings.get? name = some value → value.Fits schema used.nullable)
    {position : Position} {value : Json}
    (h : literal.resolve schema bindings position type = .ok value) : value.Fits schema type := by
  induction literal using Value.induction generalizing position type value with
  | atom literal hatom =>
    cases literal with
    | null =>
      rw [Value.resolve] at h
      split at h
      · cases h
      · rename_i hnullable
        obtain rfl := Except.ok.inj h
        exact .null (Bool.eq_false_of_not_eq_true hnullable)
    | «variable» name => exact resolveVariable_fits (hvariables name type .here) h
    | list => cases hatom
    | object => cases hatom
    | _ =>
      obtain ⟨leaf, hleaf, rfl⟩ := map_eq_ok.1 h
      exact .wrap (resolveLeaf_fits rfl hleaf)
  | list items ih =>
    cases type with
    | named name nonNull => exact resolveLeaf_fits rfl h nonNull
    | list item nonNull =>
      rw [Value.resolve, resolveItems_eq_mapM] at h
      obtain ⟨values, hvalues, rfl⟩ := map_eq_ok.1 h
      refine .list fun value hvalue => ?_
      obtain ⟨literal, hmem, hliteral⟩ := exists_left (mapM_eq_ok.1 hvalues) hvalue
      exact ih literal hmem (fun name used huse => hvariables name used (.item hmem huse)) hliteral
  | object fields ih =>
    rw [Value.resolve] at h
    split at h
    · rename_i definitions htype
      have hnames := Schema.inputs_nodup hdistinct htype
      obtain ⟨object, hobject, rfl⟩ := map_eq_ok.1 h
      obtain ⟨-, members, hmembers, rfl⟩ := (resolveFields_eq_ok hnames).1 hobject
      refine .wrap (fits_of_resolveMembers htype hnames hmembers fun definition hmem taken => ?_)
      refine resolveMember_fits (hdefaults _ (Schema.mem_of_type? htype) definition hmem)
        fun literal hliteral {position value} hvalue => ?_
      exact ih _ (OrderedMap.mem_of_get? hliteral)
        (fun name used huse => hvariables name used (.field htype hmem hliteral huse)) hvalue
    · obtain ⟨leaf, hleaf, rfl⟩ := map_eq_ok.1 h
      exact .wrap (resolveLeaf_fits rfl hleaf)

/-! ## Arguments -/

/-- What is written for an argument has a value that fits, unless it is a variable without one. -/
theorem resolveWritten_fits (hdistinct : schema.hasDistinctInputs = true)
    (hdefaults : schema.DefaultsFit) {argument : InputDefinition} {literal : Value}
    (hvariables : ∀ name used, literal.Uses schema name used argument.type →
      ∀ value, bindings.get? name = some value → value.Fits schema used.nullable)
    {value : Json} (h : resolveWritten schema bindings argument literal = .ok (some value)) :
    value.Fits schema argument.type := by
  cases hvariable : literal.asVariable? with
  | none =>
    rw [resolveWritten_of_literal hvariable] at h
    obtain ⟨resolved, hresolved, hsome⟩ := map_eq_ok.1 h
    obtain rfl := Option.some.inj hsome
    exact Value.resolve_fits hdistinct hdefaults hvariables hresolved
  | some name =>
    obtain rfl := Value.eq_of_asVariable? hvariable
    rw [resolveWritten] at h
    cases hbound : bindings.get? name with
    | none =>
      rw [hbound] at h
      cases h
    | some bound =>
      rw [hbound] at h
      dsimp only at h
      split at h
      · cases h
      · rename_i hnull
        obtain rfl := Option.some.inj (Except.ok.inj h)
        exact (hvariables name argument.type .here bound hbound).of_nullable hnull

/-- An argument takes a value that fits. -/
theorem resolveArgument_fits (hdistinct : schema.hasDistinctInputs = true)
    (hdefaults : schema.DefaultsFit) {arguments : List Argument} {argument : InputDefinition}
    (hdefault : argument.DefaultFits schema)
    (hvariables : ∀ literal, findArgument? arguments argument.name = some literal →
      ∀ name used, literal.Uses schema name used argument.type →
      ∀ value, bindings.get? name = some value → value.Fits schema used.nullable)
    {taken : Option Json} (h : resolveArgument schema bindings arguments argument = .ok taken) :
    FitsIfTaken schema argument.type taken := by
  have hunwritten (h : resolveUnwritten argument = .ok taken) :
      FitsIfTaken schema argument.type taken := by
    rw [resolveUnwritten_eq_supply schema] at h
    exact supply_fits hdefault h
  rw [resolveArgument] at h
  cases hliteral : findArgument? arguments argument.name with
  | none =>
    rw [hliteral] at h
    exact hunwritten h
  | some literal =>
    rw [hliteral] at h
    obtain ⟨written, hwritten, h⟩ := bind_eq_ok.1 h
    cases written with
    | none => exact hunwritten h
    | some value =>
      obtain rfl := pure_eq_ok.1 h
      exact resolveWritten_fits hdistinct hdefaults (hvariables literal hliteral) hwritten

/-- Resolved arguments have the shape of their definitions, in the order of these. No argument is
missing whose type has no `null`, and each value fits the type of an argument of its name. -/
theorem resolveArguments_fit (hdistinct : schema.hasDistinctInputs = true)
    (hfields : schema.DefaultsFit) {definition : FieldDefinition}
    (hdefaults : ∀ argument ∈ definition.arguments, argument.DefaultFits schema)
    {arguments : List Argument}
    (hvariables : ∀ name used, definition.Uses schema arguments name used →
      ∀ value, bindings.get? name = some value → value.Fits schema used.nullable)
    {values : Members} (h : resolveArguments schema bindings definition arguments = .ok values) :
    (values.map (·.1)).Sublist (definition.arguments.map (·.name))
      ∧ (∀ argument ∈ definition.arguments, argument.type.isNonNull = true →
        values.has argument.name = true)
      ∧ ∀ entry ∈ values, ∃ argument ∈ definition.arguments, argument.name = entry.1
        ∧ entry.2.Fits schema argument.type := by
  have htaken : ∀ argument ∈ definition.arguments, ∀ taken,
      resolveArgument schema bindings arguments argument = .ok taken →
        FitsIfTaken schema argument.type taken := by
    intro argument hmem taken htaken
    refine resolveArgument_fits hdistinct hfields (hdefaults argument hmem)
      (fun literal hliteral name used huse => ?_) htaken
    exact hvariables name used ⟨argument, hmem, literal, hliteral, huse⟩
  rw [resolveArguments_eq_foldlM_addEntry] at h
  refine ⟨foldlM_addEntry_keys h, fun argument hmem hnonNull => ?_, ?_⟩
  · refine foldlM_addEntry_has (.inr ⟨argument, hmem, rfl, fun taken htaken' => ?_⟩) h
    have hfits := htaken argument hmem taken htaken'
    cases taken with
    | none => cases hfits.symm.trans hnonNull
    | some value => rfl
  · refine foldlM_addEntry_forall (fun argument hmem value hvalue => ?_) (List.forall_mem_nil _) h
    exact ⟨argument, hmem, rfl, htaken argument hmem _ hvalue⟩

end Fitting

/-! ## A sample -/

namespace Sample

theorem searchSchema_defaultsFit : searchSchema.DefaultsFit := by
  have hfields : ∀ field ∈ filterFields, field.DefaultFits searchSchema := by
    intro field hfield literal json hdefault hwrites
    simp only [filterFields, List.mem_cons, List.not_mem_nil, or_false] at hfield
    rcases hfield with rfl | rfl | rfl
    · cases hdefault
    · obtain rfl := Option.some.inj hdefault
      obtain rfl := Except.ok.inj (hwrites (.argument "limit"))
      exact .leaf rfl rfl rfl
    · cases hdefault
  intro entry hentry
  simp only [searchSchema, List.mem_cons, List.not_mem_nil, or_false] at hentry
  rcases hentry with rfl | rfl | rfl | rfl | rfl
  · exact List.forall_mem_nil _
  · exact List.forall_mem_nil _
  · exact List.forall_mem_nil _
  · exact List.forall_mem_nil _
  · exact hfields

/-- `{ tags: [$tag], limit: $limit }` -/
def tagged : Value := .object [("tags", .list [.variable "tag"]), ("limit", .variable "limit")]

/-- The tag is used at the type of the items of the tags. -/
theorem tagged_uses {used : TypeRef}
    (h : search.Uses searchSchema [⟨"filter", tagged⟩] "tag" used) :
    used = .named "String" true := by
  obtain ⟨argument, hmem, literal, hliteral, huse⟩ := h
  simp only [search, List.mem_cons, List.not_mem_nil, or_false] at hmem
  rcases hmem with rfl | rfl | rfl | rfl | rfl
  · obtain rfl := Option.some.inj hliteral
    cases huse with
    | field htype hmem hwritten huse =>
      obtain rfl := TypeDefinition.inputObject.inj (Option.some.inj htype)
      simp only [filterFields, List.mem_cons, List.not_mem_nil, or_false] at hmem
      rcases hmem with rfl | rfl | rfl
      · obtain rfl := Option.some.inj hwritten
        cases huse with
        | item hmem huse =>
          obtain rfl := List.mem_singleton.1 hmem
          exact huse.of_variable.2
      · obtain rfl := Option.some.inj hwritten
        exact absurd huse.of_variable.1 (by decide)
      · cases hwritten
  all_goals cases hliteral

/-- The limit has its default, because the variable that is written for it has no value. -/
theorem tagged_fits :
    ∃ values, resolveArguments searchSchema [("tag", .string "a")] search [⟨"filter", tagged⟩]
        = .ok values
      ∧ values.map (·.1) = ["filter", "page"]
      ∧ ∀ entry ∈ values, ∃ argument ∈ search.arguments, argument.name = entry.1
        ∧ entry.2.Fits searchSchema argument.type := by
  have hdefaults : ∀ argument ∈ search.arguments, argument.DefaultFits searchSchema := by
    intro argument hmem literal json hdefault hwrites
    simp only [search, List.mem_cons, List.not_mem_nil, or_false] at hmem
    rcases hmem with rfl | rfl | rfl | rfl | rfl <;> cases hdefault
    obtain rfl := Except.ok.inj (hwrites (.argument "page"))
    exact .leaf rfl rfl rfl
  have hvariables : ∀ name used, search.Uses searchSchema [⟨"filter", tagged⟩] name used →
      ∀ value, OrderedMap.get? [("tag", Json.string "a")] name = some value →
        value.Fits searchSchema used.nullable := by
    intro name used huse value hbound
    obtain ⟨rfl, rfl⟩ := Prod.mk.inj (List.mem_singleton.1 (OrderedMap.mem_of_get? hbound))
    rw [tagged_uses huse]
    exact .leaf rfl rfl rfl
  have hvalues : resolveArguments searchSchema [("tag", .string "a")] search [⟨"filter", tagged⟩]
      = .ok [("filter", .array [.object [("tags", .array [.string "a"]),
          ("limit", .number (.int 10))]]), ("page", .number (.int 1))] := rfl
  exact ⟨_, hvalues, rfl,
    (resolveArguments_fit rfl searchSchema_defaultsFit hdefaults hvariables hvalues).2.2⟩

end Sample

end SelectionForest
