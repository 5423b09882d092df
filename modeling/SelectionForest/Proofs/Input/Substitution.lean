import SelectionForest.Proofs.Input.Shape

/-!
# Variables replaced by their values

A variable in an argument stands for its value, and the value can be written in its place
(`Value.substitute`). Both are resolved alike if coercion leaves the value as it is at the type at
which the variable is used (`Value.resolve_substitute`). A variable inside a literal at a type
without parts is refused, whatever its value is: what is left of the literal is taken as it is
written there.

* `resolveArguments_substitute`: arguments are resolved alike with variables and with their values
  written out, or they are refused for a variable that is not placed.

Errors that show a literal show it as it is written (`Error.substitute`).
-/

namespace SelectionForest

/-! ## Substitution -/

section Substitute

variable (spelling : Name → Value)

mutual

/-- A literal with other literals in the place of variables. -/
def Value.substitute : Value → Value
  | .variable name => spelling name
  | .list items => .list (substituteItems items)
  | .object fields => .object (substituteFields fields)
  | .null => .null
  | .boolean value => .boolean value
  | .int text => .int text
  | .float text => .float text
  | .string text => .string text
  | .enum name => .enum name

/-- The items of a list with other literals in the place of variables. -/
def substituteItems : List Value → List Value
  | [] => []
  | item :: items => item.substitute :: substituteItems items

/-- The fields of an object with other literals in the place of variables. -/
def substituteFields : List (Name × Value) → List (Name × Value)
  | [] => []
  | (key, value) :: fields => (key, value.substitute) :: substituteFields fields

end

/-- An argument with other literals in the place of variables. -/
def Argument.substitute (argument : Argument) : Argument :=
  ⟨argument.name, argument.value.substitute spelling⟩

/-- An error about a literal with other literals in the place of variables. -/
def Error.substitute : Error → Error
  | .argument (.wrongLiteral position literal type) =>
    .argument (.wrongLiteral position (literal.substitute spelling) type)
  | error => error

theorem substituteItems_eq_map (items : List Value) :
    substituteItems spelling items = items.map (·.substitute spelling) := by
  induction items with
  | nil => rfl
  | cons item items ih => rw [substituteItems, ih, List.map_cons]

theorem substituteFields_eq_map (fields : List (Name × Value)) :
    substituteFields spelling fields
      = fields.map fun field => (field.1, field.2.substitute spelling) := by
  induction fields with
  | nil => rfl
  | cons field fields ih =>
    obtain ⟨key, value⟩ := field
    rw [substituteFields, ih, List.map_cons]

theorem substituteFields_keys (fields : List (Name × Value)) :
    (substituteFields spelling fields).map (·.1) = fields.map (·.1) := by
  rw [substituteFields_eq_map, List.map_map]
  exact List.map_congr_left fun _ _ => rfl

theorem get?_substituteFields (fields : List (Name × Value)) (key : Name) :
    OrderedMap.get? (substituteFields spelling fields) key
      = (OrderedMap.get? fields key).map (·.substitute spelling) := by
  rw [substituteFields_eq_map, OrderedMap.get?, List.find?_map, OrderedMap.get?, Option.map_map,
    Option.map_map]
  rfl

theorem findArgument?_substitute (arguments : List Argument) (name : Name) :
    findArgument? (arguments.map (·.substitute spelling)) name
      = (findArgument? arguments name).map (·.substitute spelling) := by
  rw [findArgument?, List.find?_map, findArgument?, Option.map_map, Option.map_map]
  rfl

theorem Value.substitute_atom {literal : Value} (hatom : literal.isAtom = true)
    (hvariable : literal.asVariable? = none) : literal.substitute spelling = literal := by
  cases literal with
  | list => cases hatom
  | object => cases hatom
  | «variable» => cases hvariable
  | _ => rfl

end Substitute

theorem Value.asVariable?_substitute {spelling : Name → Value} {literal : Value}
    (hvariable : literal.asVariable? = none) :
    (literal.substitute spelling).asVariable? = none := by
  cases literal with
  | «variable» => cases hvariable
  | _ => rfl

/-! ## Outcomes -/

/-- Whether an outcome with variables, and one with literals in their place, are related results or
the same error, up to the literals that it shows; or else the first is stuck at a variable. -/
inductive Substituted {α β : Type} (spelling : Name → Value) (stuck : Prop) (R : α → β → Prop) :
    Outcome α → Outcome β → Prop
  | ok {a : α} {b : β} (h : R a b) : Substituted spelling stuck R (.ok a) (.ok b)
  | error (error : Error) :
      Substituted spelling stuck R (.error error) (.error (error.substitute spelling))
  | stuck (h : stuck) (position : Position) (y : Outcome β) :
      Substituted spelling stuck R (.error (.internal (.variableInConstant position))) y

namespace Substituted

variable {α β γ δ : Type} {spelling : Name → Value} {stuck : Prop} {R : α → β → Prop}
  {S : γ → δ → Prop} {x : Outcome α} {y : Outcome β}

theorem imp {R' : α → β → Prop} (hR : ∀ a b, R a b → R' a b)
    (h : Substituted spelling stuck R x y) : Substituted spelling stuck R' x y := by
  cases h with
  | ok h => exact .ok (hR _ _ h)
  | error e => exact .error e
  | stuck h position y => exact .stuck h position y

theorem weaken {stuck' : Prop} (h : Substituted spelling stuck R x y) (hstuck : stuck → stuck') :
    Substituted spelling stuck' R x y := by
  cases h with
  | ok h => exact .ok h
  | error e => exact .error e
  | stuck h position y => exact .stuck (hstuck h) position y

/-- An outcome whose errors show no literal with a variable is related to itself. -/
theorem same {R : α → α → Prop} (hR : ∀ a, R a a)
    (h : FailsWith (fun error => error.substitute spelling = error) x) :
    Substituted spelling stuck R x x := by
  cases h with
  | ok => exact .ok (hR _)
  | @error error herror =>
    have hself : Substituted spelling stuck R (.error error)
      (.error (error.substitute spelling)) := .error error
    rwa [herror] at hself

theorem map {f : α → γ} {g : β → δ} (h : Substituted spelling stuck R x y)
    (hfg : ∀ a b, x = .ok a → y = .ok b → R a b → S (f a) (g b)) :
    Substituted spelling stuck S (x.map f) (y.map g) := by
  cases h with
  | ok h => exact .ok (hfg _ _ rfl rfl h)
  | error e => exact .error e
  | stuck h position y => exact .stuck h position _

theorem bind {f : α → Outcome γ} {g : β → Outcome δ} (h : Substituted spelling stuck R x y)
    (hfg : ∀ a b, R a b → Substituted spelling stuck S (f a) (g b)) :
    Substituted spelling stuck S (x >>= f) (y >>= g) := by
  cases h with
  | ok h => exact hfg _ _ h
  | error e => exact .error e
  | stuck h position y => exact .stuck h position _

theorem mapM {f : α → Outcome γ} {g : β → Outcome δ} {other : α → β} {xs : List α}
    (hfg : ∀ a ∈ xs, Substituted spelling stuck S (f a) (g (other a))) :
    Substituted spelling stuck (List.Forall₂ S) (xs.mapM f) ((xs.map other).mapM g) := by
  induction xs with
  | nil => exact .ok .nil
  | cons a xs ih =>
    obtain ⟨hfirst, hrest⟩ := List.forall_mem_cons.1 hfg
    rw [List.map_cons, List.mapM_cons, List.mapM_cons]
    exact hfirst.bind fun _ _ hfirst => (ih hrest).bind fun _ _ hrest => .ok (.cons hfirst hrest)

/-- Runs through definitions are related if what they have for each definition is. -/
theorem foldlM_addEntry {name : γ → Name} {value? other? : γ → Outcome (Option Json)}
    {definitions : List γ}
    (hentry : ∀ definition ∈ definitions, Substituted spelling stuck (Option.Rel Json.IsLike)
      (value? definition) (other? definition))
    {members others : Members} (hstart : List.Forall₂ EntriesAlike members others) :
    Substituted spelling stuck (List.Forall₂ EntriesAlike)
      (definitions.foldlM (addEntry name value?) members)
      (definitions.foldlM (addEntry name other?) others) := by
  induction definitions generalizing members others with
  | nil => exact .ok hstart
  | cons definition definitions ih =>
    obtain ⟨hfirst, hrest⟩ := List.forall_mem_cons.1 hentry
    rw [List.foldlM_cons, List.foldlM_cons]
    have hnext : Substituted spelling stuck (List.Forall₂ EntriesAlike)
        (addEntry name value? members definition) (addEntry name other? others definition) := by
      refine hfirst.bind fun value other hvalue => ?_
      cases hvalue with
      | none => exact .ok hstart
      | some hlike =>
        exact .ok (OrderedMap.forall₂_insert (fun _ _ hentry => hentry.1) hstart ⟨rfl, hlike⟩)
    exact hnext.bind fun next next' => ih hrest

/-- What is related agrees, or is stuck. -/
theorem agree (h : Substituted spelling stuck R x y) :
    Agree R (x.mapError (·.substitute spelling)) y
      ∨ stuck ∧ ∃ position, x = .error (.internal (.variableInConstant position)) := by
  cases h with
  | ok h => exact .inl (.ok h)
  | error e => exact .inl (.error _)
  | stuck h position y => exact .inr ⟨h, position, rfl⟩

end Substituted

/-! ## Literals as JSON -/

theorem Error.IsOfLiteral.substitute_eq {error : Error} (h : error.IsOfLiteral)
    (spelling : Name → Value) : error.substitute spelling = error := by
  rcases h with ⟨position, rfl⟩ | ⟨position, rfl⟩ | h
  · rfl
  · rfl
  · cases error with
    | internal => rfl
    | _ => cases h

section Literals

variable {schema : Schema} {bindings : Members} {spelling : Name → Value}

theorem Value.toJson_untouched (literal : Value) (position : Position) :
    FailsWith (fun error => error.substitute spelling = error) (literal.toJson position) :=
  (literal.toJson_fails position).imp (fun _ h => h.substitute_eq spelling) fun _ h => h

/-- A literal that is taken as it is written is stuck at a variable in it. -/
theorem Value.toJson_substitute (spelling : Name → Value) (literal : Value)
    (position : Position) :
    Substituted spelling (literal.variables ≠ []) Eq (literal.toJson position)
      ((literal.substitute spelling).toJson position) := by
  induction literal using Value.induction with
  | atom literal hatom =>
    cases hvariable : literal.asVariable? with
    | some name =>
      obtain rfl := Value.eq_of_asVariable? hvariable
      exact .stuck (List.cons_ne_nil _ _) position _
    | none =>
      rw [Value.substitute_atom spelling hatom hvariable]
      exact .same (fun _ => rfl) (literal.toJson_untouched position)
  | list items ih =>
    rw [Value.substitute, substituteItems_eq_map, Value.toJson, Value.toJson, itemsToJson_eq_mapM,
      itemsToJson_eq_mapM]
    have hitems : ∀ item ∈ items, Substituted spelling ((Value.list items).variables ≠ []) Eq
        (item.toJson position) ((item.substitute spelling).toJson position) := fun item hmem =>
      (ih item hmem).weaken fun hitem hnil => hitem (variables_of_items hnil item hmem)
    refine (Substituted.mapM hitems).map fun values others _ _ hvalues => ?_
    rw [List.forall₂_eq_eq_eq] at hvalues
    rw [hvalues]
  | object fields ih =>
    rw [Value.substitute, substituteFields_eq_map, Value.toJson, Value.toJson, fieldsToJson_eq_mapM,
      fieldsToJson_eq_mapM]
    have hfields : ∀ field ∈ fields, Substituted spelling ((Value.object fields).variables ≠ []) Eq
        ((field.2.toJson position).map (field.1, ·))
        (((field.2.substitute spelling).toJson position).map (field.1, ·)) := fun field hmem =>
      ((ih field hmem).weaken fun hfield hnil => hfield (variables_of_fields hnil field hmem)).map
        fun _ _ _ _ h => h ▸ rfl
    refine (Substituted.mapM hfields).map fun members others _ _ hmembers => ?_
    rw [List.forall₂_eq_eq_eq] at hmembers
    rw [hmembers]

/-- A literal at a type without parts is stuck at a variable in it. -/
theorem resolveLeaf_substitute (position : Position) (type : Name) (literal : Value) :
    Substituted spelling
      ((schema.type? type).any (!·.isInputObject) = true ∧ literal.variables.isEmpty = false)
      Json.IsLike (resolveLeaf schema position type literal)
      (resolveLeaf schema position type (literal.substitute spelling)) := by
  rw [resolveLeaf, resolveLeaf]
  cases schema.type? type with
  | none => exact .error _
  | some definition =>
    have hlike (value other : Json) (h : value = other) : value.IsLike other := h ▸ .refl value
    have hliteral := (literal.toJson_substitute spelling position).imp hlike
    cases definition with
    | inputObject fields => exact .error _
    | _ => exact hliteral.weaken fun h => ⟨rfl, List.isEmpty_eq_false_iff.2 h⟩

/-! ## Literals along a type -/

/-- Whether a literal writes the value of a variable, which coercion to a type leaves as it is. -/
def Spells (schema : Schema) (bindings : Members) (type : TypeRef) (name : Name)
    (literal : Value) : Prop :=
  ∃ value position, bindings.get? name = some value ∧ literal.Writes value
    ∧ literal.hasUniqueKeys = true ∧ value.coerce schema position type = .ok value

/-- A variable is resolved like a literal that spells it. -/
theorem Spells.resolve {type : TypeRef} {name : Name} {literal : Value}
    (h : Spells schema bindings type name literal) (position : Position) :
    ∃ value other, bindings.get? name = some value
      ∧ ¬ (value.isNull && type.isNonNull) = true
      ∧ literal.resolve schema bindings position type = .ok other ∧ value.IsLike other := by
  obtain ⟨value, place, hbound, hwrites, hkeys, hcoerced⟩ := h
  obtain ⟨other, hother, hlike⟩ := Value.resolve_of_coerce hkeys (hwrites place) hcoerced
  exact ⟨value, other, hbound, Json.coerce_nullable hcoerced, hother, hlike⟩

/-- A literal that spells a variable is none itself. -/
theorem Spells.asVariable?_eq_none {type : TypeRef} {name : Name} {literal : Value}
    (h : Spells schema bindings type name literal) : literal.asVariable? = none := by
  obtain ⟨value, place, -, hwrites, -⟩ := h
  exact Value.asVariable?_of_toJson (hwrites place)

theorem resolveVariable_substitute {stuck : Prop} {type : TypeRef} {name : Name}
    (h : Spells schema bindings type name (spelling name)) (position : Position) :
    Substituted spelling stuck Json.IsLike (resolveVariable bindings position type name)
      ((spelling name).resolve schema bindings position type) := by
  obtain ⟨value, other, hbound, hnullable, hother, hlike⟩ := h.resolve position
  rw [resolveVariable, hbound, hother]
  dsimp only
  rw [if_neg hnullable]
  exact .ok hlike

/-- An input that is left out fails for reasons that show no literal. -/
theorem supply_untouched {default : Option Value} {type : TypeRef} {missing : Error}
    (hmissing : missing.substitute spelling = missing) (position : Position) :
    FailsWith (fun error => error.substitute spelling = error)
      (supply schema position default type missing none) := by
  cases default with
  | some literal => exact (literal.toJson_untouched position).map some
  | none =>
    rw [supply]
    split
    · exact .error hmissing
    · exact .ok trivial

section Fields

variable {stuck : Prop} {type : Name} {fields : List (Name × Value)}
  {definitions : List InputDefinition}

/-- A field of an object takes the same value where variables are replaced. -/
theorem resolveMember_substitute {definition : InputDefinition}
    (hspells : ∀ name, OrderedMap.get? fields definition.name = some (.variable name) →
      Spells schema bindings definition.type name (spelling name))
    (hwritten : ∀ literal, OrderedMap.get? fields definition.name = some literal →
      ∀ position, Substituted spelling stuck Json.IsLike
        (literal.resolve schema bindings position definition.type)
        ((literal.substitute spelling).resolve schema bindings position definition.type)) :
    Substituted spelling stuck (Option.Rel Json.IsLike)
      (resolveMember schema bindings type fields definition)
      (resolveMember schema bindings type (substituteFields spelling fields) definition) := by
  have hget := get?_substituteFields spelling fields definition.name
  cases hliteral : OrderedMap.get? fields definition.name with
  | none =>
    rw [hliteral] at hget
    rw [resolveMember_of_none hliteral, resolveMember_of_none hget]
    refine .same (fun taken => ?_) (supply_untouched rfl _)
    cases taken with
    | none => exact .none
    | some value => exact .some (.refl value)
  | some literal =>
    rw [hliteral] at hget
    have hset : literal.isUnset bindings = false
        ∧ (literal.substitute spelling).isUnset bindings = false := by
      cases hvariable : literal.asVariable? with
      | none =>
        exact ⟨Value.isUnset_of_literal hvariable,
          Value.isUnset_of_literal (Value.asVariable?_substitute hvariable)⟩
      | some name =>
        obtain rfl := Value.eq_of_asVariable? hvariable
        have hname := hspells name hliteral
        obtain ⟨value, -, hbound, -⟩ := hname.resolve (.inputField type definition.name)
        refine ⟨?_, Value.isUnset_of_literal hname.asVariable?_eq_none⟩
        rw [Value.isUnset, hvariable, Option.any_some, OrderedMap.has, hbound]
        rfl
    rw [resolveMember_of_some hliteral hset.1, resolveMember_of_some hget hset.2]
    exact (hwritten literal hliteral _).map fun _ _ _ _ hlike => .some hlike

/-- An object has like fields where variables are replaced. -/
theorem resolveFields_substitute (hnames : (definitions.map (·.name)).Nodup)
    (hmember : ∀ definition ∈ definitions,
      Substituted spelling stuck (Option.Rel Json.IsLike)
        (resolveMember schema bindings type fields definition)
        (resolveMember schema bindings type (substituteFields spelling fields) definition)) :
    Substituted spelling stuck Json.IsLike
      (resolveFields type definitions (resolveEntries schema bindings fields type definitions))
      (resolveFields type definitions
        (resolveEntries schema bindings (substituteFields spelling fields) type definitions)) := by
  rw [resolveFields_entries hnames, resolveFields_entries hnames, substituteFields_keys]
  cases (fields.map (·.1)).find? fun key => (findDefinition? definitions key).isNone with
  | some key => exact .error _
  | none =>
    refine (Substituted.foldlM_addEntry hmember .nil).map fun _ _ hmembers hothers h => ?_
    exact Json.isLike_object (nodup_of_resolveMembers hmembers) (nodup_of_resolveMembers hothers)
      (EntriesAlike.lookUpAlike h)

end Fields

/-- Whether a literal is resolved alike with variables and with literals that spell them, unless a
variable is not placed. -/
def Value.ResolvesSpelled (schema : Schema) (bindings : Members) (spelling : Name → Value)
    (literal : Value) : Prop :=
  ∀ {type : TypeRef},
    (∀ name used, literal.Uses schema name used type →
      Spells schema bindings used name (spelling name)) →
    ∀ position, Substituted spelling (literal.isPlaced schema (!·.isInputObject) type = false)
      Json.IsLike (literal.resolve schema bindings position type)
      ((literal.substitute spelling).resolve schema bindings position type)

variable (schema spelling) in
/-- A literal that stands for a list of one at a type without parts. -/
theorem resolveLeaf_substitute_wrap (position : Position) (type : TypeRef) (literal : Value) :
    Substituted spelling
      ((schema.type? type.innerName).any (!·.isInputObject) = true
        ∧ literal.variables.isEmpty = false)
      Json.IsLike ((resolveLeaf schema position type.innerName literal).map type.wrap)
      ((resolveLeaf schema position type.innerName (literal.substitute spelling)).map type.wrap) :=
  (resolveLeaf_substitute position type.innerName literal).map fun _ _ _ _ h => h.wrap type

theorem resolvesSpelled_atom {literal : Value} (hatom : literal.isAtom = true) :
    literal.ResolvesSpelled schema bindings spelling := by
  intro type hspells position
  cases literal with
  | null =>
    rw [Value.substitute, Value.resolve]
    split
    · exact .error _
    · exact .ok (.refl _)
  | «variable» name => exact resolveVariable_substitute (hspells name type .here) position
  | list => cases hatom
  | object => cases hatom
  | _ =>
    refine (resolveLeaf_substitute_wrap schema spelling position type _).weaken fun h => ?_
    cases h.2

theorem resolvesSpelled_list {items : List Value}
    (hitems : ∀ item ∈ items, item.ResolvesSpelled schema bindings spelling) :
    (Value.list items).ResolvesSpelled schema bindings spelling := by
  intro type hspells position
  cases type with
  | named name nonNull =>
    refine (resolveLeaf_substitute position name (.list items)).weaken fun h => ?_
    obtain ⟨hclosed, hvariables⟩ := h
    rw [Value.variables] at hvariables
    rw [Value.isPlaced, hclosed, hvariables]
    rfl
  | list item nonNull =>
    have heach : ∀ literal ∈ items, Substituted spelling
        ((Value.list items).isPlaced schema (!·.isInputObject) (.list item nonNull) = false)
        Json.IsLike (literal.resolve schema bindings position item)
        ((literal.substitute spelling).resolve schema bindings position item) := by
      intro literal hmem
      have hitem := hitems literal hmem
        (fun name used huse => hspells name used (.item hmem huse)) position
      refine hitem.weaken fun hplaced => ?_
      rw [Value.isPlaced, Bool.eq_false_iff, ne_eq, itemsPlaced_iff]
      exact fun hall => ne_true_of_eq_false hplaced (hall literal hmem)
    rw [Value.substitute, substituteItems_eq_map, Value.resolve, Value.resolve,
      resolveItems_eq_mapM, resolveItems_eq_mapM]
    exact (Substituted.mapM heach).map fun _ _ _ _ h => .array h

theorem resolvesSpelled_object (hdistinct : schema.hasDistinctInputs = true)
    {fields : List (Name × Value)}
    (hfields : ∀ field ∈ fields, field.2.ResolvesSpelled schema bindings spelling) :
    (Value.object fields).ResolvesSpelled schema bindings spelling := by
  intro type hspells position
  have hleaf := resolveLeaf_substitute_wrap schema spelling position type (.object fields)
  rw [Value.substitute] at hleaf
  rw [Value.substitute, Value.resolve, Value.resolve]
  cases htype : schema.type? type.innerName with
  | none =>
    refine hleaf.weaken fun h => ?_
    rw [htype] at h
    cases h.1
  | some definition =>
    cases definition with
    | inputObject definitions =>
      have hnames := Schema.inputs_nodup hdistinct htype
      refine (resolveFields_substitute hnames fun definition hmem => ?_).map
        fun _ _ _ _ h => h.wrap type
      refine resolveMember_substitute
        (fun name hliteral => hspells name definition.type (.field htype hmem hliteral .here))
        fun literal hliteral place => ?_
      have hwritten := OrderedMap.mem_of_get? hliteral
      have hfield := hfields _ hwritten
        (fun name used huse => hspells name used (.field htype hmem hliteral huse)) place
      refine hfield.weaken fun hplaced => ?_
      rw [Value.isPlaced, htype, Bool.eq_false_iff, ne_eq, fieldsPlaced_iff]
      exact fun hall => ne_true_of_eq_false hplaced
        (hall _ hwritten definition (find?_of_nodup hnames hmem))
    | _ =>
      refine hleaf.weaken fun h => ?_
      rw [Value.isPlaced, htype]
      exact h.2

/-- Every literal is resolved alike with variables and with literals that spell them, unless a
variable is not placed. -/
theorem Value.resolve_substitute (hdistinct : schema.hasDistinctInputs = true) {literal : Value} :
    literal.ResolvesSpelled schema bindings spelling := by
  induction literal using Value.induction with
  | atom literal hatom => exact resolvesSpelled_atom hatom
  | list items ih => exact resolvesSpelled_list ih
  | object fields ih => exact resolvesSpelled_object hdistinct ih

/-! ## Arguments -/

/-- An argument is resolved alike with variables and with literals that spell them, unless a
variable is not placed. -/
theorem resolveArgument_substitute (hdistinct : schema.hasDistinctInputs = true)
    {arguments : List Argument} {argument : InputDefinition}
    (hspells : ∀ literal, findArgument? arguments argument.name = some literal →
      ∀ name used, literal.Uses schema name used argument.type →
      Spells schema bindings used name (spelling name)) :
    Substituted spelling
      ((findArgument? arguments argument.name).all
        (·.isPlaced schema (!·.isInputObject) argument.type) = false)
      (Option.Rel Json.IsLike) (resolveArgument schema bindings arguments argument)
      (resolveArgument schema bindings (arguments.map (·.substitute spelling)) argument) := by
  have hother := findArgument?_substitute spelling arguments argument.name
  cases hliteral : findArgument? arguments argument.name with
  | none =>
    rw [hliteral] at hother
    rw [resolveArgument, hliteral, resolveArgument, hother]
    dsimp only [Option.map_none]
    rw [resolveUnwritten_eq_supply schema]
    refine .same (fun taken => ?_) (supply_untouched rfl _)
    cases taken with
    | none => exact .none
    | some value => exact .some (.refl value)
  | some literal =>
    rw [hliteral, Option.map_some] at hother
    have hspells := hspells literal hliteral
    cases hvariable : literal.asVariable? with
    | none =>
      rw [resolveArgument_of_literal hliteral hvariable,
        resolveArgument_of_literal hother (Value.asVariable?_substitute hvariable)]
      exact (Value.resolve_substitute hdistinct hspells _).map fun _ _ _ _ hlike => .some hlike
    | some name =>
      obtain rfl := Value.eq_of_asVariable? hvariable
      have hname := hspells name argument.type .here
      obtain ⟨value, other, hbound, hnullable, hresolve, hlike⟩ :=
        hname.resolve (.argument argument.name)
      rw [Value.substitute] at hother
      rw [resolveArgument_of_variable hliteral hbound hnullable,
        resolveArgument_of_literal hother hname.asVariable?_eq_none, hresolve]
      exact .ok (.some hlike)

/-- Arguments are resolved alike with variables and with literals that spell their values, up to the
order of keys and to the literals that errors show; or they are refused for a variable that stands
inside a literal at a type without parts. -/
theorem resolveArguments_substitute (hdistinct : schema.hasDistinctInputs = true)
    {definition : FieldDefinition} {arguments : List Argument}
    (hspells : ∀ name used, definition.Uses schema arguments name used →
      Spells schema bindings used name (spelling name)) :
    Agree (List.Forall₂ EntriesAlike)
        ((resolveArguments schema bindings definition arguments).mapError (·.substitute spelling))
        (resolveArguments schema bindings definition (arguments.map (·.substitute spelling)))
      ∨ definition.places schema (!·.isInputObject) arguments = false
        ∧ ∃ position, resolveArguments schema bindings definition arguments
          = .error (.internal (.variableInConstant position)) := by
  have harguments : ∀ argument ∈ definition.arguments,
      Substituted spelling (definition.places schema (!·.isInputObject) arguments = false)
        (Option.Rel Json.IsLike) (resolveArgument schema bindings arguments argument)
        (resolveArgument schema bindings (arguments.map (·.substitute spelling)) argument) := by
    intro argument hmem
    refine (resolveArgument_substitute hdistinct fun literal hliteral name used huse =>
      hspells name used ⟨argument, hmem, literal, hliteral, huse⟩).weaken fun hplaced => ?_
    rw [FieldDefinition.places, Bool.eq_false_iff, ne_eq, List.all_eq_true]
    exact fun hall => ne_true_of_eq_false hplaced (hall argument hmem)
  rw [resolveArguments_eq_foldlM_addEntry, resolveArguments_eq_foldlM_addEntry]
  exact (Substituted.foldlM_addEntry harguments .nil).agree

end Literals

/-! ## A sample -/

namespace Sample

/-- `filter: [$filter], size: $size` -/
def listedArguments : List Argument :=
  [⟨"filter", .list [.variable "filter"]⟩, ⟨"size", .variable "size"⟩]

/-- A filter with its own order of keys, and a size. -/
def listedBindings : Members :=
  [("filter", .object [("limit", .number (.int 5)), ("tags", .array [.string "a"])]),
    ("size", .number (.int 3))]

/-- The literals of the two values. -/
def listedSpelling (name : Name) : Value :=
  if name = "filter" then .object [("limit", .int "5"), ("tags", .list [.string "a"])]
  else .int "3"

/-- Both variables are spelled where they are used. -/
theorem listed_spells {name : Name} {used : TypeRef}
    (h : search.Uses searchSchema listedArguments name used) :
    Spells searchSchema listedBindings used name (listedSpelling name) := by
  obtain ⟨argument, hmem, literal, hliteral, huse⟩ := h
  simp only [search, List.mem_cons, List.not_mem_nil, or_false] at hmem
  rcases hmem with rfl | rfl | rfl | rfl | rfl
  · obtain rfl := Option.some.inj hliteral
    cases huse with
    | item hmem huse =>
      obtain rfl := List.mem_singleton.1 hmem
      obtain ⟨rfl, rfl⟩ := huse.of_variable
      exact ⟨_, .argument "filter", rfl, fun _ => rfl, rfl, rfl⟩
  · cases hliteral
  · cases hliteral
  · cases hliteral
  · obtain rfl := Option.some.inj hliteral
    obtain ⟨rfl, rfl⟩ := huse.of_variable
    exact ⟨_, .argument "size", rfl, fun _ => rfl, rfl, rfl⟩

/-- The filter is alike both times, with its keys in another order. -/
theorem listed_alike :
    ∃ given written, resolveArguments searchSchema listedBindings search listedArguments = .ok given
      ∧ resolveArguments searchSchema listedBindings search
          [⟨"filter", .list [.object [("limit", .int "5"), ("tags", .list [.string "a"])]]⟩,
            ⟨"size", .int "3"⟩] = .ok written
      ∧ List.Forall₂ EntriesAlike given written := by
  have hgiven : resolveArguments searchSchema listedBindings search listedArguments
      = .ok [("filter",
          .array [.object [("limit", .number (.int 5)), ("tags", .array [.string "a"])]]),
        ("page", .number (.int 1)), ("size", .number (.int 3))] := rfl
  have hresolved := resolveArguments_substitute rfl fun _ _ => listed_spells
  rcases hresolved with hagree | ⟨-, position, hstuck⟩
  · rw [hgiven] at hagree
    obtain ⟨written, hwritten, halike⟩ := hagree.exists_right rfl
    exact ⟨_, written, hgiven, hwritten, halike⟩
  · rw [hgiven] at hstuck
    cases hstuck

/-- A variable that has a value and stands in a list at a scalar, where its value may be written. -/
theorem any_differs :
    resolveArguments searchSchema [("v", .number (.int 1))] search [⟨"any", .list [.variable "v"]⟩]
        = .error (.internal (.variableInConstant (.argument "any")))
      ∧ (Value.int "1").Writes (.number (.int 1))
      ∧ resolveArguments searchSchema [("v", .number (.int 1))] search
          [⟨"any", .list [.int "1"]⟩]
        = .ok [("any", .array [.number (.int 1)]), ("page", .number (.int 1))] :=
  ⟨rfl, fun _ => rfl, rfl⟩

end Sample

end SelectionForest
