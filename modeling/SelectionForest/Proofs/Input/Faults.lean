import SelectionForest.Proofs.Input.KeyOrder
import SelectionForest.Proofs.Input.Placement

/-!
# What may be wrong with input values

The errors of literals, arguments and variables, whatever the schema is and wherever variables stand.
A literal has no JSON value because a number in it is too large, or because of a variable in it
(`Value.toJson_fails`). Arguments that cannot be resolved are at fault, or the inputs do not fit
together (`resolveArguments_fails`). The same holds of variables, except that a default that is too
large counts as an argument (`coerceVariables_fails`).
-/

namespace SelectionForest

/-- Whether an error says that the request's variables are at fault. -/
def Error.BlamesVariables (error : Error) : Prop := ∃ fault, error = .variable fault

/-- Whether an error says that a number at a position is too large. -/
def Error.IsOverflowAt (position : Position) (error : Error) : Prop :=
  error = .argument (.intOverflow position) ∨ error = .argument (.floatOverflow position)

/-- Whether an error can come from a literal: a number is too large, or the inputs do not fit
together. -/
def Error.IsOfLiteral (error : Error) : Prop :=
  (∃ position, error = .argument (.intOverflow position))
    ∨ (∃ position, error = .argument (.floatOverflow position)) ∨ error.isInternal = true

/-- Whether an error can come from the arguments of a document: they are at fault, or the inputs do
not fit together. -/
def Error.IsOfArguments (error : Error) : Prop :=
  error.BlamesArguments ∨ error.isInternal = true

/-- Whether an error can come from the values of variables: they are at fault, or it comes from the
literal of a default. -/
def Error.IsOfVariables (error : Error) : Prop :=
  (∃ fault, error = .variable fault) ∨ error.IsOfLiteral

theorem Error.IsOfLiteral.isOfArguments {error : Error} (h : error.IsOfLiteral) :
    error.IsOfArguments := by
  rcases h with ⟨_, h⟩ | ⟨_, h⟩ | h
  · exact .inl ⟨_, h⟩
  · exact .inl ⟨_, h⟩
  · exact .inr h

theorem Error.IsOverflowAt.isOfLiteral {error : Error} {position : Position}
    (h : error.IsOverflowAt position) : error.IsOfLiteral := by
  rcases h with h | h
  · exact .inl ⟨position, h⟩
  · exact .inr (.inl ⟨position, h⟩)

theorem Error.IsOfArguments.ne_endless {error : Error} (h : error.IsOfArguments) :
    error ≠ .endless := by
  rcases h with ⟨_, rfl⟩ | h
  · nofun
  · rintro rfl
    cases h

theorem Error.IsOfVariables.ne_endless {error : Error} (h : error.IsOfVariables) :
    error ≠ .endless := by
  rcases h with ⟨_, rfl⟩ | h
  · nofun
  · exact h.isOfArguments.ne_endless

/-! ## Literals -/

theorem literalNumber_fails {errors : Error → Prop} (text : String) {overflow : InputFault}
    (h : errors (.argument overflow)) : FailsWith errors (literalNumber text overflow) := by
  rw [literalNumber]
  cases Number.ofToken? text.toList with
  | some number => exact .ok trivial
  | none => exact .error h

/-- The errors of a literal that is taken as it is written at a position. -/
theorem Value.toJson_failsAt (literal : Value) (position : Position) :
    FailsWith (fun error => error.IsOverflowAt position ∨ error.isInternal = true)
      (literal.toJson position) := by
  induction literal using Value.induction with
  | atom literal hatom =>
    cases literal with
    | int text => exact literalNumber_fails text (.inl (.inl rfl))
    | float text => exact literalNumber_fails text (.inl (.inr rfl))
    | «variable» name => exact .error (.inr rfl)
    | list => cases hatom
    | object => cases hatom
    | _ => exact .ok trivial
  | list items ih =>
    rw [Value.toJson, itemsToJson_eq_mapM]
    exact (FailsWith.mapM ih).map _
  | object fields ih =>
    rw [Value.toJson, fieldsToJson_eq_mapM]
    exact (FailsWith.mapM fun field hfield => (ih field hfield).map (field.1, ·)).map _

/-- The errors of a literal that is taken as it is written. -/
theorem Value.toJson_fails (literal : Value) (position : Position) :
    FailsWith Error.IsOfLiteral (literal.toJson position) := by
  refine (literal.toJson_failsAt position).imp (fun error h => ?_) fun _ h => h
  rcases h with h | h
  · exact h.isOfLiteral
  · exact .inr (.inr h)

/-- A literal that stands for an argument fails as one. -/
theorem Value.toJson_failsAsArgument (literal : Value) (position : Position) :
    FailsWith Error.IsOfArguments (literal.toJson position) :=
  (literal.toJson_fails position).imp (fun _ h => h.isOfArguments) fun _ h => h

/-! ## Arguments -/

section Resolving

variable {schema : Schema} {bindings : Members}

theorem resolveLeaf_fails (position : Position) (type : Name) (literal : Value) :
    FailsWith Error.IsOfArguments (resolveLeaf schema position type literal) := by
  rw [resolveLeaf]
  split
  · exact .error (.inr rfl)
  · exact .error (.inl ⟨_, rfl⟩)
  · exact literal.toJson_failsAsArgument position

/-- An object literal fails where one of its fields does, or where a field is unknown or missing. -/
theorem resolveFields_fails {type : Name} {definitions : List InputDefinition}
    {outcomes : OrderedMap Name (Option (Outcome Json))}
    (h : ∀ key outcome, outcomes.get? key = some (some outcome) →
      FailsWith Error.IsOfArguments outcome) :
    FailsWith Error.IsOfArguments (resolveFields type definitions outcomes) := by
  rw [resolveFields]
  split
  · exact .error (.inl ⟨_, rfl⟩)
  · refine FailsWith.map (Ends.foldlM (fun definition _ members _ => ?_) trivial) _
    rw [resolveField]
    split
    · rename_i outcome hget
      exact (h definition.name outcome (Option.join_eq_some_iff.1 hget)).map _
    · split
      · rename_i default _
        exact (default.toJson_failsAsArgument _).map _
      · split
        · exact .error (.inl ⟨_, rfl⟩)
        · exact .ok trivial

/-- The errors of a literal that is resolved along a type. -/
theorem Value.resolve_fails (literal : Value) (position : Position) (type : TypeRef) :
    FailsWith Error.IsOfArguments (literal.resolve schema bindings position type) := by
  induction literal using Value.induction generalizing position type with
  | atom literal hatom =>
    cases literal with
    | null =>
      rw [Value.resolve]
      split
      · exact .error (.inl ⟨_, rfl⟩)
      · exact .ok trivial
    | «variable» name =>
      have hvariable : FailsWith Error.BlamesArguments
          (resolveVariable bindings position type name) := resolveVariable_failsWith ..
      exact hvariable.imp (fun _ h => .inl h) fun _ h => h
    | list => cases hatom
    | object => cases hatom
    | _ => exact (resolveLeaf_fails position type.innerName _).map _
  | list items ih =>
    cases type with
    | list item nonNull =>
      rw [Value.resolve, resolveItems_eq_mapM]
      exact (FailsWith.mapM fun value hvalue => ih value hvalue position item).map _
    | named name nonNull =>
      rw [Value.resolve]
      exact resolveLeaf_fails position name _
  | object fields ih =>
    rw [Value.resolve]
    split
    · refine (resolveFields_fails fun key outcome houtcome => ?_).map _
      rw [get?_resolveEntries, Option.map_eq_some_iff] at houtcome
      obtain ⟨value, hvalue, houtcome⟩ := houtcome
      split at houtcome
      · cases houtcome
      · obtain rfl := Option.some.inj houtcome
        split
        · exact ih _ (OrderedMap.mem_of_get? hvalue) _ _
        · exact .error (.inl ⟨_, rfl⟩)
    · exact (resolveLeaf_fails position type.innerName _).map _

theorem resolveUnwritten_fails (definition : InputDefinition) :
    FailsWith Error.IsOfArguments (resolveUnwritten definition) := by
  rw [resolveUnwritten]
  split
  · rename_i default _
    exact (default.toJson_failsAsArgument _).map _
  · split
    · exact .error (.inl ⟨_, rfl⟩)
    · exact .ok trivial

theorem resolveWritten_fails (definition : InputDefinition) (literal : Value) :
    FailsWith Error.IsOfArguments (resolveWritten schema bindings definition literal) := by
  cases hvariable : literal.asVariable? with
  | none =>
    rw [resolveWritten_of_literal hvariable]
    exact (literal.resolve_fails _ _).map some
  | some name =>
    obtain rfl := Value.eq_of_asVariable? hvariable
    rw [resolveWritten]
    split
    · split
      · exact .error (.inl ⟨_, rfl⟩)
      · exact .ok trivial
    · exact .ok trivial

theorem resolveArgument_fails (arguments : List Argument) (definition : InputDefinition) :
    FailsWith Error.IsOfArguments (resolveArgument schema bindings arguments definition) := by
  rw [resolveArgument]
  split
  · refine (resolveWritten_fails definition _).bind fun value => ?_
    cases value with
    | some value => exact .ok trivial
    | none => exact resolveUnwritten_fails definition
  · exact resolveUnwritten_fails definition

/-- The errors of the arguments of a field. -/
theorem resolveArguments_fails (definition : FieldDefinition) (arguments : List Argument) :
    FailsWith Error.IsOfArguments (resolveArguments schema bindings definition arguments) := by
  refine Ends.foldlM (fun argument _ resolved _ => ?_) trivial
  refine (resolveArgument_fails arguments argument).bind fun value => ?_
  cases value <;> exact .ok trivial

end Resolving

/-! ## Variables -/

/-- Where a value that is coerced along a type takes the default of a field that it leaves out. -/
inductive Json.Takes (schema : Schema) : Json → TypeRef → Position → Value → Prop
  | here {members : Members} {type : TypeRef} {definitions : List InputDefinition}
      {definition : InputDefinition} {literal : Value}
      (htype : schema.type? type.innerName = some (.inputObject definitions))
      (hmem : definition ∈ definitions) (habsent : members.get? definition.name = none)
      (hdefault : definition.default = some literal) :
      Takes schema (.object members) type (.inputField type.innerName definition.name) literal
  | item {items : List Json} {item : TypeRef} {nonNull : Bool} {value : Json} {position : Position}
      {literal : Value} (hmem : value ∈ items) (h : Takes schema value item position literal) :
      Takes schema (.array items) (.list item nonNull) position literal
  | member {members : Members} {type : TypeRef} {definitions : List InputDefinition}
      {definition : InputDefinition} {key : String} {value : Json} {position : Position}
      {literal : Value} (htype : schema.type? type.innerName = some (.inputObject definitions))
      (hkey : findDefinition? definitions key = some definition)
      (hvalue : members.get? key = some value)
      (h : Takes schema value definition.type position literal) :
      Takes schema (.object members) type position literal

/-- Where a variable takes a default: its own if it has no value, or else those of the fields that
its value leaves out. -/
inductive VariableDefinition.Takes (schema : Schema) (values : Members)
    (definition : VariableDefinition) : Position → Value → Prop
  | own {literal : Value} (habsent : values.get? definition.name = none)
      (hdefault : definition.default = some literal) :
      Takes schema values definition (.variable definition.name) literal
  | field {value : Json} {position : Position} {literal : Value}
      (hvalue : values.get? definition.name = some value)
      (h : value.Takes schema definition.type position literal) :
      Takes schema values definition position literal

/-- Whether an error can come from coercing a value: it blames the variables, or the inputs do not
fit together, or a default that is taken has a number that is too large. -/
def Error.IsOfCoercion (taken : Position → Value → Prop) (error : Error) : Prop :=
  error.BlamesVariables ∨ error.isInternal = true
    ∨ ∃ position literal, taken position literal ∧ literal.toJson position = .error error
      ∧ error.IsOverflowAt position

theorem Error.IsOfCoercion.imp {taken others : Position → Value → Prop} {error : Error}
    (h : ∀ position literal, taken position literal → others position literal)
    (herror : error.IsOfCoercion taken) : error.IsOfCoercion others := by
  rcases herror with herror | herror | ⟨position, literal, htaken, herror⟩
  · exact .inl herror
  · exact .inr (.inl herror)
  · exact .inr (.inr ⟨position, literal, h position literal htaken, herror⟩)

theorem Error.IsOfCoercion.isOfVariables {taken : Position → Value → Prop} {error : Error}
    (h : error.IsOfCoercion taken) : error.IsOfVariables := by
  rcases h with h | h | ⟨position, literal, -, -, h⟩
  · exact .inl h
  · exact .inr (.inr (.inr h))
  · exact .inr h.isOfLiteral

section Coercing

variable {schema : Schema} {taken : Position → Value → Prop}

theorem coerceLeaf_fails (position : Position) (type : Name) (value : Json) :
    FailsWith (Error.IsOfCoercion taken) (coerceLeaf schema position type value) := by
  rw [coerceLeaf]
  split
  · exact .error (.inr (.inl rfl))
  · split
    · exact .ok trivial
    · exact .error (.inl ⟨_, rfl⟩)
  · split
    · exact .ok trivial
    · exact .error (.inl ⟨_, rfl⟩)
  · exact .error (.inl ⟨_, rfl⟩)
  · exact .error (.inr (.inl rfl))

/-- A literal that stands for the default of an input fails as one. -/
theorem Value.toJson_failsAsDefault {literal : Value} {position : Position}
    (h : taken position literal) :
    FailsWith (Error.IsOfCoercion taken) (literal.toJson position) := by
  cases hjson : literal.toJson position with
  | ok json => exact .ok trivial
  | error error =>
    rcases (literal.toJson_failsAt position).of_error hjson with hoverflow | hinternal
    · exact .error (.inr (.inr ⟨position, literal, h, hjson, hoverflow⟩))
    · exact .error (.inr (.inl hinternal))

/-- An object fails where one of its members does, where a key is unknown or missing, or where a
default that it takes does. -/
theorem fillMembers_fails {type : Name} {definitions : List InputDefinition}
    {outcomes : OrderedMap String (Outcome Json)}
    (h : ∀ key outcome, outcomes.get? key = some outcome →
      FailsWith (Error.IsOfCoercion taken) outcome)
    (htaken : ∀ definition ∈ definitions, outcomes.get? definition.name = none →
      ∀ literal, definition.default = some literal →
        taken (.inputField type definition.name) literal)
    (members : Members) :
    FailsWith (Error.IsOfCoercion taken) (fillMembers type definitions outcomes members) := by
  rw [fillMembers]
  split
  · exact .error (.inl ⟨_, rfl⟩)
  · refine FailsWith.map (Ends.foldlM (fun definition hmem members _ => ?_) trivial) _
    rw [fillMember]
    split
    · rename_i outcome hget
      exact (h definition.name outcome hget).map _
    · rename_i habsent
      split
      · rename_i default hdefault
        have hdefault := htaken definition hmem habsent default hdefault
        exact (Value.toJson_failsAsDefault hdefault).map _
      · split
        · exact .error (.inl ⟨_, rfl⟩)
        · exact .ok trivial

/-- The errors of a value that is coerced along a type. -/
theorem Json.coerce_fails (value : Json) (position : Position) (type : TypeRef) :
    FailsWith (Error.IsOfCoercion (value.Takes schema type))
      (value.coerce schema position type) := by
  induction value using Json.induction generalizing position type with
  | null =>
    rw [Json.coerce]
    split
    · exact .error (.inl ⟨_, rfl⟩)
    · exact .ok trivial
  | array items ih =>
    cases type with
    | list item nonNull =>
      rw [Json.coerce, coerceItems_eq_mapM]
      refine (FailsWith.mapM fun value hvalue => ?_).map _
      exact (ih value hvalue position item).imp
        (fun _ h => h.imp fun _ _ htaken => .item hvalue htaken) fun _ h => h
    | named name nonNull =>
      rw [Json.coerce]
      exact coerceLeaf_fails position name _
  | object members ih =>
    rw [Json.coerce]
    split
    · rename_i definitions htype
      refine (fillMembers_fails (fun key outcome houtcome => ?_)
        (fun definition hmem habsent literal hdefault => ?_) members).map _
      · rw [get?_coerceMembers, Option.map_eq_some_iff] at houtcome
        obtain ⟨value, hvalue, rfl⟩ := houtcome
        split
        · rename_i definition hkey
          exact (ih (key, value) (OrderedMap.mem_of_get? hvalue) _ _).imp
            (fun _ h => h.imp fun _ _ htaken => .member htype hkey hvalue htaken) fun _ h => h
        · exact .error (.inl ⟨_, rfl⟩)
      · rw [get?_coerceMembers, Option.map_eq_none_iff] at habsent
        exact .here htype hmem habsent hdefault
    · exact (coerceLeaf_fails position type.innerName _).map _
  | bool => exact (coerceLeaf_fails position type.innerName _).map _
  | number => exact (coerceLeaf_fails position type.innerName _).map _
  | string => exact (coerceLeaf_fails position type.innerName _).map _

theorem coerceVariable_fails (values : Members) (definition : VariableDefinition) :
    FailsWith (Error.IsOfCoercion (definition.Takes schema values))
      (coerceVariable schema values definition) := by
  rw [coerceVariable]
  split
  · rename_i value hvalue
    exact ((Json.coerce_fails value _ _).map some).imp
      (fun _ h => h.imp fun _ _ htaken => .field hvalue htaken) fun _ h => h
  · rename_i habsent
    split
    · rename_i default hdefault
      exact (Value.toJson_failsAsDefault (.own habsent hdefault)).map _
    · split
      · exact .error (.inl ⟨_, rfl⟩)
      · exact .ok trivial

/-- The errors of the values of variables, with the default that one comes from. -/
theorem coerceVariables_failsAt (definitions : List VariableDefinition) (values : Members) :
    FailsWith (Error.IsOfCoercion fun position literal =>
        ∃ definition ∈ definitions, definition.Takes schema values position literal)
      (coerceVariables schema definitions values) := by
  refine Ends.foldlM (fun definition hmem coerced _ => ?_) trivial
  refine FailsWith.bind ((coerceVariable_fails values definition).imp
    (fun _ h => h.imp fun _ _ htaken => ⟨definition, hmem, htaken⟩) fun _ h => h) fun value => ?_
  cases value <;> exact .ok trivial

/-- The errors of the values of variables. -/
theorem coerceVariables_fails (definitions : List VariableDefinition) (values : Members) :
    FailsWith Error.IsOfVariables (coerceVariables schema definitions values) :=
  (coerceVariables_failsAt definitions values).imp (fun _ h => h.isOfVariables) fun _ h => h

/-- Whom the errors of input values blame. Those of variables blame the variables, or else the
arguments, and then for a number that is too large in a default which the values take. It is so for
the own default of a variable if the variables before it have no error. Those of arguments never
blame variables. -/
theorem coerceVariables_blames (definitions : List VariableDefinition) (values bindings : Members)
    (field : FieldDefinition) (arguments : List Argument) :
    (∀ error, coerceVariables schema definitions values = .error error →
      error.BlamesVariables ∨ error.isInternal = true
        ∨ ∃ definition ∈ definitions, ∃ position literal,
          definition.Takes schema values position literal
            ∧ literal.toJson position = .error error ∧ error.IsOverflowAt position)
      ∧ (∀ before definition after literal error, definitions = before ++ definition :: after →
        (∀ earlier ∈ before, ∃ value, coerceVariable schema values earlier = .ok value) →
        values.get? definition.name = none → definition.default = some literal →
        literal.toJson (.variable definition.name) = .error error →
        coerceVariables schema definitions values = .error error)
      ∧ ∀ error, resolveArguments schema bindings field arguments = .error error →
        error.BlamesArguments ∨ error.isInternal = true := by
  refine ⟨fun error h => ?_, fun before definition after literal error heq hbefore habsent hdefault
    hjson => ?_, fun error h => (resolveArguments_fails field arguments).of_error h⟩
  · rcases (coerceVariables_failsAt definitions values).of_error h with
      hblames | hinternal | ⟨position, literal, ⟨definition, hmem, htakes⟩, hjson, hoverflow⟩
    · exact .inl hblames
    · exact .inr (.inl hinternal)
    · exact .inr (.inr ⟨definition, hmem, position, literal, htakes, hjson, hoverflow⟩)
  · have hfails : coerceVariable schema values definition = .error error := by
      rw [coerceVariable, habsent, hdefault]
      dsimp only
      rw [hjson]
      rfl
    rw [heq, coerceVariables_eq_foldlM]
    exact foldlM_addEntry_stops hbefore hfails []

end Coercing

namespace Sample

/-- `($size: Any = 1e400)` -/
def hugeVariable : VariableDefinition := ⟨"size", .named "Any" false, some (.float "1e400")⟩

/-- `($page: Int, $size: Any = 1e400)` -/
def hugeVariables : List VariableDefinition :=
  [⟨"page", .named "Int" false, none⟩, hugeVariable]

/-- The default that is too large is found behind a variable that needs no value, and it is the
default which the error is traced back to. A number that is too large in an argument is no fault of
the variables either. -/
theorem hugeVariables_stop :
    coerceVariables searchSchema hugeVariables []
        = .error (.argument (.floatOverflow (.variable "size")))
      ∧ (∃ definition ∈ hugeVariables, ∃ position literal,
        definition.Takes searchSchema [] position literal
          ∧ literal.toJson position = .error (.argument (.floatOverflow (.variable "size"))))
      ∧ ∀ error, resolveArguments searchSchema [] search [⟨"any", .float "1e400"⟩] = .error error →
        error.BlamesArguments ∨ error.isInternal = true := by
  obtain ⟨hfrom, hstops, harguments⟩ :=
    coerceVariables_blames hugeVariables [] [] search [⟨"any", .float "1e400"⟩]
  have hbefore : ∀ earlier ∈ [(⟨"page", .named "Int" false, none⟩ : VariableDefinition)],
      ∃ value, coerceVariable searchSchema [] earlier = .ok value :=
    List.forall_mem_singleton.2 ⟨none, rfl⟩
  have hstop := hstops _ hugeVariable [] (.float "1e400")
    (.argument (.floatOverflow (.variable "size"))) rfl hbefore rfl rfl rfl
  refine ⟨hstop, ?_, harguments⟩
  rcases hfrom _ hstop with ⟨_, h⟩ | h | ⟨definition, hmem, position, literal, htakes, hjson, -⟩
  · cases h
  · cases h
  · exact ⟨definition, hmem, position, literal, htakes, hjson⟩

/-- The default of a variable is no argument of the document, but its error blames these. -/
theorem hugeVariable_misleads :
    ∃ error, coerceVariables searchSchema [hugeVariable] [] = .error error
      ∧ error.BlamesArguments ∧ ¬ error.BlamesVariables ∧ error.isInternal = false := by
  refine ⟨.argument (.floatOverflow (.variable "size")), rfl, ⟨_, rfl⟩, ?_, rfl⟩
  rintro ⟨fault, h⟩
  cases h

end Sample

end SelectionForest
