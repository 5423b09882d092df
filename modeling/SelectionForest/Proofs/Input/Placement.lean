import SelectionForest.Proofs.Forest.Influence
import SelectionForest.Proofs.Input.Parts

/-!
# Variables inside literals

A literal is resolved along its type as far as the type has parts. Where these end, what is left of
the literal is taken as it is written, and may not mention a variable any more. A literal is placed
if it does not (`Value.isPlaced`); which types have no parts is left open there.

In a schema with usable inputs (`Schema.hasUsableInputs`), resolving literals that are placed fails
for one reason only: the arguments of the document are at fault (`Value.resolve_failsWith`,
`resolveArguments_failsWith`).
-/

namespace SelectionForest

/-- Whether an error says that the arguments of the document are at fault. -/
def Error.BlamesArguments (error : Error) : Prop := ∃ fault, error = .argument fault

/-! ## Placed literals -/

/-- Whether a type is an input object. -/
def TypeDefinition.isInputObject : TypeDefinition → Bool
  | .inputObject _ => true
  | _ => false

section Placed

variable (schema : Schema) (closed : TypeDefinition → Bool)

mutual

/-- Whether a literal mentions no variable inside its parts that stand at types without parts, which
`closed` says. A variable that stands there itself is no part. -/
def Value.isPlaced : Value → TypeRef → Bool
  | .list items, .list item _ => itemsPlaced items item
  | .list items, .named name _ =>
    !(schema.type? name).any closed || (variablesOfItems items).isEmpty
  | .object fields, type =>
    match schema.type? type.innerName with
    | some (.inputObject definitions) => fieldsPlaced fields definitions
    | definition? => !definition?.any closed || (variablesOfFields fields).isEmpty
  | _, _ => true

/-- Whether the items of a list are placed. -/
def itemsPlaced : List Value → TypeRef → Bool
  | [], _ => true
  | item :: items, type => item.isPlaced type && itemsPlaced items type

/-- Whether the fields of an object are placed, as far as they are defined. -/
def fieldsPlaced : List (Name × Value) → List InputDefinition → Bool
  | [], _ => true
  | (key, value) :: fields, definitions =>
    (match findDefinition? definitions key with
      | some definition => value.isPlaced definition.type
      | none => true)
      && fieldsPlaced fields definitions

end

/-- Whether the arguments that are written for a field are placed. -/
def FieldDefinition.places (definition : FieldDefinition) (arguments : List Argument) : Bool :=
  definition.arguments.all fun argument =>
    (findArgument? arguments argument.name).all (·.isPlaced schema closed argument.type)

variable {schema closed}

theorem itemsPlaced_iff {items : List Value} {type : TypeRef} :
    itemsPlaced schema closed items type = true
      ↔ ∀ item ∈ items, item.isPlaced schema closed type = true := by
  induction items with
  | nil => exact iff_of_true rfl (List.forall_mem_nil _)
  | cons item items ih => rw [itemsPlaced, Bool.and_eq_true, ih, List.forall_mem_cons]

theorem fieldsPlaced_iff {fields : List (Name × Value)} {definitions : List InputDefinition} :
    fieldsPlaced schema closed fields definitions = true
      ↔ ∀ field ∈ fields, ∀ definition, findDefinition? definitions field.1 = some definition →
        field.2.isPlaced schema closed definition.type = true := by
  induction fields with
  | nil => exact iff_of_true rfl (List.forall_mem_nil _)
  | cons field fields ih =>
    obtain ⟨key, value⟩ := field
    rw [fieldsPlaced, Bool.and_eq_true, ih, List.forall_mem_cons]
    cases findDefinition? definitions key <;> simp

end Placed

/-! ## Usable inputs -/

/-- Whether an argument or a field of an input object has a type that is defined, and a default
without variables, if any. -/
def InputDefinition.isUsable (schema : Schema) (definition : InputDefinition) : Bool :=
  (schema.type? definition.type.innerName).isSome && definition.default.all (·.variables.isEmpty)

/-- The fields of an input object; other types have none. -/
def TypeDefinition.inputFields : TypeDefinition → List InputDefinition
  | .inputObject fields => fields
  | _ => []

namespace Schema

/-- Whether all arguments and all fields of input objects are usable, the arguments of meta-fields
included. -/
def hasUsableInputs (schema : Schema) : Bool :=
  schema.types.all fun (name, type) =>
    (type.inputFields ++ (type.fields ++ schema.metaFields name type).flatMap (·.arguments)).all
      (·.isUsable schema)

variable {schema : Schema} (husable : schema.hasUsableInputs = true)

include husable

theorem isUsable_of_type? {name : Name} {definitions : List InputDefinition}
    (htype : schema.type? name = some (.inputObject definitions)) :
    ∀ definition ∈ definitions, definition.isUsable schema = true := by
  have hall := List.all_eq_true.1 husable _ (mem_of_type? htype)
  exact fun definition hmem => List.all_eq_true.1 hall definition (List.mem_append_left _ hmem)

theorem isUsable_of_field? {type field : Name} {definition : FieldDefinition}
    (hfield : schema.field? type field = some definition) :
    ∀ argument ∈ definition.arguments, argument.isUsable schema = true := by
  obtain ⟨whole, htype, -, hmem⟩ := field?_eq_some hfield
  have hall := List.all_eq_true.1 husable _ (mem_of_type? htype)
  intro argument hargument
  refine List.all_eq_true.1 hall argument (List.mem_append_right _ (List.mem_flatMap.2 ?_))
  exact ⟨definition, List.mem_append.2 hmem, hargument⟩

end Schema

/-! ## Resolving placed literals -/

section Resolving

variable {schema : Schema} {bindings : Members}

theorem variables_of_items {items : List Value} (h : variablesOfItems items = []) :
    ∀ item ∈ items, item.variables = [] := by
  induction items with
  | nil => exact List.forall_mem_nil _
  | cons item items ih =>
    obtain ⟨hitem, hrest⟩ := List.append_eq_nil_iff.1 h
    exact List.forall_mem_cons.2 ⟨hitem, ih hrest⟩

theorem variables_of_fields {fields : List (Name × Value)} (h : variablesOfFields fields = []) :
    ∀ field ∈ fields, field.2.variables = [] := by
  induction fields with
  | nil => exact List.forall_mem_nil _
  | cons field fields ih =>
    obtain ⟨hfield, hrest⟩ := List.append_eq_nil_iff.1 h
    exact List.forall_mem_cons.2 ⟨hfield, ih hrest⟩

theorem literalNumber_failsWith (text : String) (overflow : InputFault) :
    FailsWith Error.BlamesArguments (literalNumber text overflow) := by
  rw [literalNumber]
  cases Number.ofToken? text.toList with
  | some number => exact .ok trivial
  | none => exact .error ⟨overflow, rfl⟩

/-- A literal that mentions no variable is a JSON value, unless a number in it is too large. -/
theorem Value.toJson_failsWith (position : Position) (literal : Value)
    (hconstant : literal.variables = []) :
    FailsWith Error.BlamesArguments (literal.toJson position) := by
  induction literal using Value.induction with
  | atom literal hatom =>
    cases literal with
    | int text => exact literalNumber_failsWith text _
    | float text => exact literalNumber_failsWith text _
    | «variable» name => cases hconstant
    | list => cases hatom
    | object => cases hatom
    | _ => exact .ok trivial
  | list items ih =>
    have hitems := variables_of_items hconstant
    rw [Value.toJson, itemsToJson_eq_mapM]
    exact (FailsWith.mapM fun item hitem => ih item hitem (hitems item hitem)).map _
  | object fields ih =>
    have hfields := variables_of_fields hconstant
    rw [Value.toJson, fieldsToJson_eq_mapM]
    exact (FailsWith.mapM fun field hfield =>
      (ih field hfield (hfields field hfield)).map (field.1, ·)).map _

/-- The default of an input, if it has one, is a JSON value unless a number in it is too large. -/
theorem InputDefinition.default_failsWith {definition : InputDefinition}
    (husable : definition.isUsable schema = true) {default : Value}
    (hdefault : definition.default = some default) (position : Position) :
    FailsWith Error.BlamesArguments (default.toJson position) := by
  rw [isUsable, hdefault, Bool.and_eq_true] at husable
  exact default.toJson_failsWith position (List.isEmpty_iff.1 husable.2)

theorem resolveVariable_failsWith (position : Position) (type : TypeRef) (name : Name) :
    FailsWith Error.BlamesArguments (resolveVariable bindings position type name) := by
  rw [resolveVariable]
  split
  · split
    · exact .error ⟨_, rfl⟩
    · exact .ok trivial
  · split
    · exact .error ⟨_, rfl⟩
    · exact .ok trivial

/-- At a type that is defined, a literal is taken as it is written or is refused. -/
theorem resolveLeaf_failsWith {position : Position} {type : Name} {definition : TypeDefinition}
    (htype : schema.type? type = some definition) {literal : Value}
    (hconstant : definition.isInputObject = false → literal.variables = []) :
    FailsWith Error.BlamesArguments (resolveLeaf schema position type literal) := by
  rw [resolveLeaf, htype]
  cases definition with
  | inputObject fields => exact .error ⟨_, rfl⟩
  | _ => exact literal.toJson_failsWith position (hconstant rfl)

/-- A field of an input object takes its value from what is written or from its default. -/
theorem resolveField_failsWith {type : Name} {definition : InputDefinition}
    (husable : definition.isUsable schema = true)
    {outcomes : OrderedMap Name (Option (Outcome Json))}
    (houtcome : ∀ outcome, outcomes.get? definition.name = some (some outcome) →
      FailsWith Error.BlamesArguments outcome) (members : Members) :
    FailsWith Error.BlamesArguments (resolveField type outcomes members definition) := by
  rw [resolveField]
  split
  · rename_i outcome hget
    exact (houtcome outcome (Option.join_eq_some_iff.1 hget)).map _
  · split
    · rename_i default hdefault
      exact (InputDefinition.default_failsWith husable hdefault _).map _
    · split
      · exact .error ⟨_, rfl⟩
      · exact .ok trivial

theorem resolveFields_failsWith {type : Name} {definitions : List InputDefinition}
    (husable : ∀ definition ∈ definitions, definition.isUsable schema = true)
    {outcomes : OrderedMap Name (Option (Outcome Json))}
    (houtcomes : ∀ definition ∈ definitions, ∀ outcome,
      outcomes.get? definition.name = some (some outcome) →
        FailsWith Error.BlamesArguments outcome) :
    FailsWith Error.BlamesArguments (resolveFields type definitions outcomes) := by
  rw [resolveFields]
  split
  · exact .error ⟨_, rfl⟩
  · refine FailsWith.map (Ends.foldlM (fun definition hmem members _ => ?_) trivial) _
    exact resolveField_failsWith (husable definition hmem) (houtcomes definition hmem) members

/-- A literal that is placed at a type that is defined resolves, unless the arguments are at
fault. -/
theorem Value.resolve_failsWith (husable : schema.hasUsableInputs = true) (literal : Value)
    (position : Position) {type : TypeRef} (htype : (schema.type? type.innerName).isSome = true)
    (hplaced : literal.isPlaced schema (!·.isInputObject) type = true) :
    FailsWith Error.BlamesArguments (literal.resolve schema bindings position type) := by
  induction literal using Value.induction generalizing position type with
  | atom literal hatom =>
    obtain ⟨definition, hdefinition⟩ := Option.isSome_iff_exists.1 htype
    have hleaf (literal : Value) (hconstant : literal.variables = []) :
        FailsWith Error.BlamesArguments
          ((resolveLeaf schema position type.innerName literal).map type.wrap) :=
      (resolveLeaf_failsWith hdefinition fun _ => hconstant).map _
    cases literal with
    | null =>
      rw [Value.resolve]
      split
      · exact .error ⟨_, rfl⟩
      · exact .ok trivial
    | «variable» name => exact resolveVariable_failsWith position type name
    | list => cases hatom
    | object => cases hatom
    | _ => exact hleaf _ rfl
  | list items ih =>
    cases type with
    | list item nonNull =>
      rw [Value.isPlaced, itemsPlaced_iff] at hplaced
      rw [Value.resolve, resolveItems_eq_mapM]
      exact (FailsWith.mapM fun value hvalue =>
        @ih value hvalue position item htype (hplaced value hvalue)).map _
    | named name nonNull =>
      obtain ⟨definition, hdefinition⟩ := Option.isSome_iff_exists.1 htype
      rw [TypeRef.innerName] at hdefinition
      rw [Value.isPlaced, hdefinition, Option.any_some] at hplaced
      rw [Value.resolve]
      refine resolveLeaf_failsWith hdefinition fun hclosed => ?_
      rw [hclosed] at hplaced
      exact List.isEmpty_iff.1 hplaced
  | object fields ih =>
    obtain ⟨definition, hdefinition⟩ := Option.isSome_iff_exists.1 htype
    rw [Value.resolve, hdefinition]
    rw [Value.isPlaced, hdefinition] at hplaced
    cases definition with
    | inputObject definitions =>
      have hinputs := Schema.isUsable_of_type? husable hdefinition
      refine (resolveFields_failsWith hinputs fun definition hmem outcome houtcome => ?_).map _
      rw [get?_resolveEntries, Option.map_eq_some_iff] at houtcome
      obtain ⟨value, hvalue, houtcome⟩ := houtcome
      obtain ⟨found, hfound⟩ := exists_findDefinition? hmem
      rw [hfound] at houtcome
      split at houtcome
      · cases houtcome
      · obtain rfl := Option.some.inj houtcome
        have hfield := OrderedMap.mem_of_get? hvalue
        have hinput := hinputs found (List.mem_of_find?_eq_some hfound)
        rw [InputDefinition.isUsable, Bool.and_eq_true] at hinput
        exact ih _ hfield _ hinput.1 (fieldsPlaced_iff.1 hplaced _ hfield found hfound)
    | _ =>
      have hconstant : (Value.object fields).variables = [] := List.isEmpty_iff.1 hplaced
      exact (resolveLeaf_failsWith hdefinition fun _ => hconstant).map _

/-! ## Arguments of fields -/

theorem resolveUnwritten_failsWith {definition : InputDefinition}
    (husable : definition.isUsable schema = true) :
    FailsWith Error.BlamesArguments (resolveUnwritten definition) := by
  rw [resolveUnwritten]
  split
  · rename_i default hdefault
    exact (InputDefinition.default_failsWith husable hdefault _).map _
  · split
    · exact .error ⟨_, rfl⟩
    · exact .ok trivial

theorem resolveWritten_failsWith (husable : schema.hasUsableInputs = true)
    {definition : InputDefinition} (hdefinition : definition.isUsable schema = true)
    {literal : Value}
    (hplaced : literal.isPlaced schema (!·.isInputObject) definition.type = true) :
    FailsWith Error.BlamesArguments (resolveWritten schema bindings definition literal) := by
  cases hvariable : literal.asVariable? with
  | none =>
    rw [InputDefinition.isUsable, Bool.and_eq_true] at hdefinition
    rw [resolveWritten_of_literal hvariable]
    exact (literal.resolve_failsWith husable _ hdefinition.1 hplaced).map some
  | some name =>
    obtain rfl := Value.eq_of_asVariable? hvariable
    rw [resolveWritten]
    split
    · split
      · exact .error ⟨_, rfl⟩
      · exact .ok trivial
    · exact .ok trivial

theorem resolveArgument_failsWith (husable : schema.hasUsableInputs = true)
    {definition : InputDefinition} (hdefinition : definition.isUsable schema = true)
    {arguments : List Argument}
    (hplaced : (findArgument? arguments definition.name).all
      (·.isPlaced schema (!·.isInputObject) definition.type) = true) :
    FailsWith Error.BlamesArguments
      (resolveArgument schema bindings arguments definition) := by
  rw [resolveArgument]
  split
  · rename_i literal hliteral
    rw [hliteral] at hplaced
    refine (resolveWritten_failsWith husable hdefinition hplaced).bind fun value => ?_
    cases value with
    | some value => exact .ok trivial
    | none => exact resolveUnwritten_failsWith hdefinition
  · exact resolveUnwritten_failsWith hdefinition

/-- Where the arguments of a field are placed and its definition is usable, they have values unless
they are at fault. -/
theorem resolveArguments_failsWith (husable : schema.hasUsableInputs = true)
    {definition : FieldDefinition}
    (hdefinition : ∀ argument ∈ definition.arguments, argument.isUsable schema = true)
    {arguments : List Argument}
    (hplaced : definition.places schema (!·.isInputObject) arguments = true) :
    FailsWith Error.BlamesArguments
      (resolveArguments schema bindings definition arguments) := by
  refine Ends.foldlM (fun argument hargument resolved _ => ?_) trivial
  have hwritten := List.all_eq_true.1 hplaced argument hargument
  refine (resolveArgument_failsWith husable (hdefinition argument hargument) hwritten).bind
    fun value => ?_
  cases value <;> exact .ok trivial

end Resolving

end SelectionForest
