import SelectionForest.Proofs.Forest.Tracing

/-!
# What variables have an influence on

Variables are in scope everywhere in an operation, but only its conditions and its arguments mention
them. The shape of a forest depends on the conditions alone: with two maps of values that are read
alike there, the forests are the same but for the values of arguments (`forest_influence`). The
values of the arguments of a node depend on the variables that its arguments mention
(`resolveArguments_congr`).
-/

namespace SelectionForest

/-! ## Literals -/

mutual

/-- The variables that a literal mentions. -/
def Value.variables : Value → List Name
  | .variable name => [name]
  | .list items => variablesOfItems items
  | .object fields => variablesOfFields fields
  | _ => []

/-- The variables that the items of a list mention. -/
def variablesOfItems : List Value → List Name
  | [] => []
  | item :: items => item.variables ++ variablesOfItems items

/-- The variables that the fields of an object mention. -/
def variablesOfFields : List (Name × Value) → List Name
  | [] => []
  | (_, value) :: fields => value.variables ++ variablesOfFields fields

end

/-- The variables that arguments mention. -/
def variablesOf (arguments : List Argument) : List Name :=
  arguments.flatMap (·.value.variables)

/-- Whether two maps give the same values, or none, to variables. -/
def BoundAlike (bindings others : Members) (names : List Name) : Prop :=
  ∀ name ∈ names, others.get? name = bindings.get? name

section Literals

variable {schema : Schema} {bindings others : Members}

theorem BoundAlike.of_items {items : List Value} (h : BoundAlike bindings others
    (variablesOfItems items)) : ∀ item ∈ items, BoundAlike bindings others item.variables := by
  induction items with
  | nil => exact List.forall_mem_nil _
  | cons item items ih =>
    obtain ⟨hitem, hrest⟩ := List.forall_mem_append.1 h
    exact List.forall_mem_cons.2 ⟨hitem, ih hrest⟩

theorem BoundAlike.of_fields {fields : List (Name × Value)} (h : BoundAlike bindings others
    (variablesOfFields fields)) : ∀ field ∈ fields, BoundAlike bindings others field.2.variables := by
  induction fields with
  | nil => exact List.forall_mem_nil _
  | cons field fields ih =>
    obtain ⟨hfield, hrest⟩ := List.forall_mem_append.1 h
    exact List.forall_mem_cons.2 ⟨hfield, ih hrest⟩

theorem isUnset_congr {literal : Value} (h : BoundAlike bindings others literal.variables) :
    literal.isUnset others = literal.isUnset bindings := by
  cases literal with
  | «variable» name =>
    have hname : others.get? name = bindings.get? name := h name List.mem_cons_self
    show (!(others.get? name).isSome) = !(bindings.get? name).isSome
    rw [hname]
  | _ => rfl

/-- Whether a literal resolves to the same with two maps of values, wherever it stands. -/
def Value.ResolvesAlike (schema : Schema) (bindings others : Members) (literal : Value) : Prop :=
  ∀ position type,
    literal.resolve schema others position type = literal.resolve schema bindings position type

theorem resolveItems_congr {items : List Value}
    (h : ∀ item ∈ items, item.ResolvesAlike schema bindings others) (position : Position)
    (type : TypeRef) :
    resolveItems schema others items position type
      = resolveItems schema bindings items position type := by
  induction items with
  | nil => rfl
  | cons item items ih =>
    obtain ⟨hitem, hrest⟩ := List.forall_mem_cons.1 h
    rw [resolveItems, resolveItems, hitem position type, ih hrest]

theorem resolveEntries_congr {fields : List (Name × Value)}
    (h : ∀ field ∈ fields, BoundAlike bindings others field.2.variables
      ∧ field.2.ResolvesAlike schema bindings others) (type : Name)
    (definitions : List InputDefinition) :
    resolveEntries schema others fields type definitions
      = resolveEntries schema bindings fields type definitions := by
  induction fields with
  | nil => rfl
  | cons field fields ih =>
    obtain ⟨⟨hbound, hresolves⟩, hrest⟩ := List.forall_mem_cons.1 h
    obtain ⟨key, value⟩ := field
    rw [resolveEntries, resolveEntries, isUnset_congr hbound, ih hrest]
    cases findDefinition? definitions key with
    | none => rfl
    | some definition =>
      dsimp only
      rw [hresolves]

/-- The value of a literal depends on the variables that it mentions. -/
theorem Value.resolve_congr (literal : Value)
    (h : BoundAlike bindings others literal.variables) :
    literal.ResolvesAlike schema bindings others := by
  induction literal using Value.induction with
  | atom literal hatom =>
    intro position type
    cases literal with
    | «variable» name =>
      have hname : others.get? name = bindings.get? name := h name List.mem_cons_self
      rw [Value.resolve, Value.resolve, resolveVariable, resolveVariable, hname]
    | list => cases hatom
    | object => cases hatom
    | _ => rfl
  | list items ih =>
    have hitems : ∀ item ∈ items, item.ResolvesAlike schema bindings others :=
      fun item hitem => ih item hitem (BoundAlike.of_items h item hitem)
    intro position type
    cases type with
    | named name nonNull => rfl
    | list item nonNull =>
      rw [Value.resolve, Value.resolve, resolveItems_congr hitems]
  | object fields ih =>
    have hfields : ∀ field ∈ fields, BoundAlike bindings others field.2.variables
        ∧ field.2.ResolvesAlike schema bindings others := fun field hfield =>
      have hbound := BoundAlike.of_fields h field hfield
      ⟨hbound, ih field hfield hbound⟩
    intro position type
    rw [Value.resolve, Value.resolve]
    cases schema.type? type.innerName with
    | none => rfl
    | some definition =>
      cases definition with
      | inputObject definitions =>
        dsimp only
        rw [resolveEntries_congr hfields]
      | _ => rfl

theorem resolveWritten_congr (definition : InputDefinition) {literal : Value}
    (h : BoundAlike bindings others literal.variables) :
    resolveWritten schema others definition literal
      = resolveWritten schema bindings definition literal := by
  cases hvariable : literal.asVariable? with
  | none =>
    rw [resolveWritten_of_literal hvariable, resolveWritten_of_literal hvariable,
      literal.resolve_congr h]
  | some name =>
    obtain rfl := Value.eq_of_asVariable? hvariable
    have hname : others.get? name = bindings.get? name := h name List.mem_cons_self
    unfold resolveWritten
    dsimp only
    rw [hname]

theorem resolveArgument_congr {arguments : List Argument}
    (h : BoundAlike bindings others (variablesOf arguments)) (definition : InputDefinition) :
    resolveArgument schema others arguments definition
      = resolveArgument schema bindings arguments definition := by
  unfold resolveArgument
  cases hfound : findArgument? arguments definition.name with
  | none => rfl
  | some literal =>
    obtain ⟨argument, hargument, rfl⟩ := Option.map_eq_some_iff.1 hfound
    have hbound : BoundAlike bindings others argument.value.variables := fun name hname =>
      h name (List.mem_flatMap.2 ⟨argument, List.mem_of_find?_eq_some hargument, hname⟩)
    dsimp only
    rw [resolveWritten_congr definition hbound]

/-- The values of arguments depend on the variables that the arguments mention. -/
theorem resolveArguments_congr (definition : FieldDefinition) {arguments : List Argument}
    (h : BoundAlike bindings others (variablesOf arguments)) :
    resolveArguments schema others definition arguments
      = resolveArguments schema bindings definition arguments := by
  unfold resolveArguments
  simp only [resolveArgument_congr h]

end Literals

/-! ## Forests -/

/-- A node without the values of its arguments. -/
def Node.withoutValues (node : Node) : Node := { node with resolved := [] }

/-- A forest without the values of arguments. -/
def Forest.withoutValues (forest : Forest) : Forest :=
  { forest with nodes := forest.nodes.map Node.withoutValues }

/-- Forests that resemble each other are the same without values and provenance. -/
theorem Forest.Resembles.withoutValues {values : Members → Members → Prop} {forest other : Forest}
    (h : forest.Resembles values other) :
    other.withoutTraces.withoutValues = forest.withoutTraces.withoutValues := by
  have hnodes : (other.nodes.map Node.withoutTraces).map Node.withoutValues
      = (forest.nodes.map Node.withoutTraces).map Node.withoutValues := by
    rw [List.map_map, List.map_map]
    refine map_eq_of_forall₂ (fun node node' hnode => ?_) h.nodes
    show Node.withoutValues (Node.withoutTraces node') = Node.withoutValues (Node.withoutTraces node)
    unfold Node.withoutTraces Node.withoutValues
    rw [hnode.aliasName, hnode.name, hnode.type, hnode.depth, hnode.objectTypes, hnode.arguments,
      hnode.parent, hnode.children]
  unfold Forest.withoutTraces Forest.withoutValues
  rw [hnodes, h.merged, h.roots, h.byPlace, h.byCoordinate]

/-- Nodes of one number are the same without values, if their forests are. -/
theorem Forest.node?_withoutValues {forest other : Forest}
    (h : other.withoutValues = forest.withoutValues) {id : Nat} {node node' : Node}
    (hnode : forest.node? id = some node) (hnode' : other.node? id = some node') :
    node'.withoutValues = node.withoutValues := by
  have hnodes : other.nodes.map Node.withoutValues = forest.nodes.map Node.withoutValues :=
    congrArg Forest.nodes h
  have hboth := congrArg (·[id]?) hnodes
  simp only [List.getElem?_map] at hboth
  rw [show other.nodes[id]? = some node' from hnode', show forest.nodes[id]? = some node from hnode]
    at hboth
  exact Option.some.inj hboth

/-- Nodes that are the same without values have the same values, where the variables that their
arguments mention do. -/
theorem Node.HasDefinition.resolved_eq {schema : Schema} {fragments : Fragments}
    {bindings others : Members} {sources sources' : Option TracedInputs} {node node' : Node}
    {definition definition' : FieldDefinition}
    (h : node.HasDefinition ⟨schema, fragments, bindings, sources⟩ definition)
    (h' : node'.HasDefinition ⟨schema, fragments, others, sources'⟩ definition')
    (hsame : node'.withoutValues = node.withoutValues)
    (hbound : BoundAlike bindings others (variablesOf node.arguments)) :
    node'.resolved = node.resolved := by
  have hname : node'.name = node.name := (congrArg Node.name hsame :)
  have htypes : node'.objectTypes = node.objectTypes := (congrArg Node.objectTypes hsame :)
  have harguments : node'.arguments = node.arguments := (congrArg Node.arguments hsame :)
  have hdefinition : node'.definition schema = node.definition schema := by
    unfold Node.definition
    rw [htypes, hname]
  obtain rfl : definition' = definition :=
    Except.ok.inj (h'.found.symm.trans (hdefinition.trans h.found))
  have hresolved : resolveArguments schema others definition' node'.arguments
      = .ok node'.resolved := h'.resolved
  rw [harguments, resolveArguments_congr definition' hbound] at hresolved
  exact Except.ok.inj (hresolved.symm.trans h.resolved)

/-- With values of the variables that are read alike in all conditions, the forests of an operation
are the same but for the values of arguments; and a node has the same values in both, if the
variables that its arguments mention do. -/
theorem Operation.forest_influence {operation : Operation} {schema : Schema} {options : Options}
    {fragments : Fragments} {bindings others : Members} {forest other : Forest}
    (hread : ReadAlike bindings others (fragments.allDirectives operation.selections))
    (h : operation.forest schema options fragments bindings = .ok forest)
    (h' : operation.forest schema options fragments others = .ok other) :
    other.withoutValues = forest.withoutValues
      ∧ ∀ id node node', forest.node? id = some node → other.node? id = some node' →
        BoundAlike bindings others (variablesOf node.arguments) →
        node'.resolved = node.resolved := by
  have hvalues : Request.ResolvesLike ⟨schema, fragments, bindings, none⟩ others True
      fun _ _ => True := fun _ _ => .of_apart trivial _ _
  have hresembles := (forestWith_resembles hvalues hread).of_ok h h'
  have hsame : other.withoutValues = forest.withoutValues := by
    have hboth := hresembles.withoutValues
    have hnone : forest.IsTraced false := forestWith_isTraced h
    have hnone' : other.IsTraced false := forestWith_isTraced h'
    rwa [hnone.withoutTraces, hnone'.withoutTraces] at hboth
  refine ⟨hsame, fun id node node' hnode hnode' hbound => ?_⟩
  obtain ⟨definition, hdefinition⟩ := (forestWith_collects h).exists_definition hnode
  obtain ⟨definition', hdefinition'⟩ := (forestWith_collects h').exists_definition hnode'
  exact hdefinition.resolved_eq hdefinition' (Forest.node?_withoutValues hsame hnode hnode') hbound

/-! ## A sample

A variable that is a condition, and two that are arguments. -/

namespace Influence

/-- `query($brief: Boolean, $n: Int!, $m: Int) { node { f(x: $n) } thing @skip(if: $brief) { ... on D
{ g(x: $m) } } }` -/
def operation : Operation :=
  ⟨none, "Query", [⟨"brief", .named "Boolean" false, none⟩, ⟨"n", .named "Int" true, none⟩,
    ⟨"m", .named "Int" false, none⟩], [
      .field (Sample.plain 0 "node" [.field (Defaults.selected 1 "f" (some (.variable "n")))]),
      .field { Sample.plain 2 "thing" [.inline "D" [] [
        .field (Defaults.selected 3 "g" (some (.variable "m")))]] with
        directives := [⟨"skip", [⟨"if", .variable "brief"⟩]⟩] }]⟩

/-- The condition is null, and `n` is 3. -/
def bindings : Members := [("brief", .null), ("n", .number (.int 3)), ("m", .number (.int 1))]

/-- The condition has no value, and `n` is 4. -/
def others : Members := [("n", .number (.int 4)), ("m", .number (.int 1))]

theorem readAlike :
    ReadAlike bindings others (Fragments.allDirectives [] operation.selections) := by
  intro directive hdirective name hreads
  obtain rfl := List.mem_singleton.1 hdirective
  have hname := hreads.2
  cases hname
  rfl

/-- The sample has four nodes with both values of `n`. They differ in the value of `f`, and agree in
that of `g`, which mentions `m` only. -/
theorem operation_influence :
    ∃ forest other, operation.forest Defaults.schema {} [] bindings = .ok forest
      ∧ operation.forest Defaults.schema {} [] others = .ok other
      ∧ forest.size = 4 ∧ other.withoutValues = forest.withoutValues
      ∧ (forest.node? 2).map (·.resolved) = some [("x", .number (.int 3))]
      ∧ (other.node? 2).map (·.resolved) = some [("x", .number (.int 4))]
      ∧ ∃ g g', forest.node? 3 = some g ∧ other.node? 3 = some g' ∧ g'.resolved = g.resolved := by
  obtain ⟨forest, hforest, hsize, hf, g, hg, harguments⟩ : ∃ forest,
      operation.forest Defaults.schema {} [] bindings = .ok forest ∧ forest.size = 4
        ∧ (forest.node? 2).map (·.resolved) = some [("x", .number (.int 3))]
        ∧ ∃ g, forest.node? 3 = some g ∧ variablesOf g.arguments = ["m"] :=
    ⟨_, rfl, rfl, rfl, _, rfl, rfl⟩
  obtain ⟨other, hother, hf', g', hg'⟩ : ∃ other,
      operation.forest Defaults.schema {} [] others = .ok other
        ∧ (other.node? 2).map (·.resolved) = some [("x", .number (.int 4))]
        ∧ ∃ g', other.node? 3 = some g' :=
    ⟨_, rfl, rfl, _, rfl⟩
  have hbound : BoundAlike bindings others (variablesOf g.arguments) := by
    rw [harguments]
    exact List.forall_mem_singleton.2 rfl
  obtain ⟨hsame, hvalues⟩ := Operation.forest_influence readAlike hforest hother
  exact ⟨forest, other, hforest, hother, hsize, hsame, hf, hf', g, g', hg, hg',
    hvalues 3 g g' hg hg' hbound⟩

end Influence

end SelectionForest
