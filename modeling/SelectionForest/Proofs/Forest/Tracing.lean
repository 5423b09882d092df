import SelectionForest.Proofs.Forest.ArgumentValues
import SelectionForest.Proofs.Forest.Values

/-!
# Recording where values come from

The forest of an operation can be built from coerced values of its variables, or from those of a
request. The two entry points agree (`Operation.EntriesAgree`): the second one coerces the values
and gives what the first one does, and the provenance that it records besides has no part in what is
let in, merged, numbered or refused. All nodes of a forest record provenance, or none does
(`forestWith_isTraced`).
-/

namespace SelectionForest

/-- A node without the provenance of its arguments. -/
def Node.withoutTraces (node : Node) : Node := { node with traced := none }

namespace Forest

/-- A forest without the provenance of arguments. -/
def withoutTraces (forest : Forest) : Forest :=
  { forest with nodes := forest.nodes.map Node.withoutTraces }

/-- Whether all nodes of a forest record where the values of their arguments come from, or none
does. -/
def IsTraced (forest : Forest) (traces : Bool) : Prop :=
  ∀ node ∈ forest.nodes, node.traced.isSome = traces

theorem IsTraced.eq_none {forest : Forest} (h : forest.IsTraced false) {node : Node}
    (hnode : node ∈ forest.nodes) : node.traced = none := by
  have hfalse := h node hnode
  rwa [Option.isSome_eq_false_iff, Option.isNone_iff_eq_none] at hfalse

end Forest

/-- Nodes with the same values of arguments are the same without provenance. -/
theorem Node.Resembles.withoutTraces {node other : Node} (h : node.Resembles Eq other) :
    other.withoutTraces = node.withoutTraces := by
  unfold Node.withoutTraces
  rw [h.aliasName, h.name, h.type, h.depth, h.objectTypes, h.resolved, h.arguments, h.parent,
    h.children]

/-- Forests with the same values of arguments are the same without provenance. -/
theorem Forest.Resembles.withoutTraces {forest other : Forest} (h : forest.Resembles Eq other) :
    other.withoutTraces = forest.withoutTraces := by
  have hnodes : other.nodes.map Node.withoutTraces = forest.nodes.map Node.withoutTraces :=
    map_eq_of_forall₂ (fun _ _ hnode => hnode.withoutTraces) h.nodes
  unfold Forest.withoutTraces
  rw [hnodes, h.merged, h.roots, h.byPlace, h.byCoordinate]

/-- A forest that records no provenance has none to leave out. -/
theorem Forest.IsTraced.withoutTraces {forest : Forest} (h : forest.IsTraced false) :
    forest.withoutTraces = forest := by
  have hnode : ∀ node ∈ forest.nodes, node.withoutTraces = id node := fun node hnode => by
    show { node with traced := none } = node
    rw [← h.eq_none hnode]
  have hnodes : forest.nodes.map Node.withoutTraces = forest.nodes :=
    (List.map_congr_left hnode).trans (List.map_id _)
  unfold Forest.withoutTraces
  rw [hnodes]

namespace Operation

variable {operation : Operation} {schema : Schema} {options : Options} {fragments : Fragments}
  {bindings : Members} {sources : Option TracedInputs} {forest : Forest}

/-- All nodes record provenance if that of the variables is known, and none does otherwise. -/
theorem forestWith_isTraced
    (h : operation.forestWith schema options fragments bindings sources = .ok forest) :
    forest.IsTraced sources.isSome := by
  have hcollects := forestWith_collects h
  intro node hnode
  obtain ⟨id, hid⟩ := List.mem_iff_getElem?.1 hnode
  obtain ⟨cls, hselects, -⟩ := hcollects.exists_selects hid
  obtain ⟨_, _, -, -, -, htraced⟩ := hselects.values
  rw [htraced, Option.isSome_map]

/-- Without provenance of the variables, a forest or an error is what it is without provenance of
the arguments. -/
theorem forestWith_withoutTraces (operation : Operation) (schema : Schema) (options : Options)
    (fragments : Fragments) (bindings : Members) (sources : Option TracedInputs) :
    operation.forestWith schema options fragments bindings none
      = (operation.forestWith schema options fragments bindings sources).map
        Forest.withoutTraces := by
  have hvalues : Request.ResolvesLike ⟨schema, fragments, bindings, sources⟩ bindings False Eq :=
    fun _ _ => (Agree.refl (fun _ => rfl) _).unless False
  have hagree : Agree (Forest.Resembles Eq)
      (operation.forestWith schema options fragments bindings sources)
      (operation.forestWith schema options fragments bindings none) :=
    (forestWith_resembles hvalues (ReadAlike.refl bindings _)).agree id
  cases hfirst : operation.forestWith schema options fragments bindings sources with
  | error error =>
    rw [hfirst] at hagree
    generalize operation.forestWith schema options fragments bindings none = second at hagree
    cases hagree
    rfl
  | ok forest =>
    obtain ⟨other, hother, hresembles⟩ := hagree.exists_right hfirst
    have hnone : other.IsTraced false := forestWith_isTraced hother
    rw [hother, Except.map, ← hresembles.withoutTraces, hnone.withoutTraces]

/-- What the two entry points have in common: values that cannot be coerced are refused, values that
can give the forest or the error of the coerced ones, and provenance is recorded in all nodes, or in
none. -/
structure EntriesAgree (operation : Operation) (schema : Schema) (options : Options)
    (fragments : Fragments) (values : Members) : Prop where
  refused : ∀ error, coerceVariables schema operation.variableDefinitions values = .error error →
    operation.forestOfValues schema options fragments values = .error error
  coerced : ∀ bindings, coerceVariables schema operation.variableDefinitions values = .ok bindings →
    operation.forest schema options fragments bindings
      = (operation.forestOfValues schema options fragments values).map Forest.withoutTraces
  traced : ∀ forest, operation.forestOfValues schema options fragments values = .ok forest →
    forest.IsTraced options.tracesArguments
  untraced : ∀ bindings forest,
    operation.forest schema options fragments bindings = .ok forest → forest.IsTraced false

/-- The provenance of variables, if the options ask for it. -/
def sourcesFor (options : Options) (definitions : List VariableDefinition) (values : Members) :
    Option TracedInputs :=
  if options.tracesArguments then some (traceVariables definitions values) else none

theorem isSome_sourcesFor (options : Options) (definitions : List VariableDefinition)
    (values : Members) :
    (sourcesFor options definitions values).isSome = options.tracesArguments := by
  unfold sourcesFor
  cases options.tracesArguments <;> rfl

theorem forestOfValues_eq (operation : Operation) (schema : Schema) (options : Options)
    (fragments : Fragments) (values : Members) :
    operation.forestOfValues schema options fragments values
      = coerceVariables schema operation.variableDefinitions values >>= fun bindings =>
        operation.forestWith schema options fragments bindings
          (sourcesFor options operation.variableDefinitions values) := rfl

/-- Building the forest from the values of a request is coercing them and building the forest from
the coerced values, up to the provenance that all its nodes record if the options ask for it. -/
theorem entries_agree (operation : Operation) (schema : Schema) (options : Options)
    (fragments : Fragments) (values : Members) :
    operation.EntriesAgree schema options fragments values where
  refused error herror := by
    rw [forestOfValues_eq, herror]
    rfl
  coerced bindings hbindings := by
    rw [forestOfValues_eq, hbindings, ok_bind]
    exact forestWith_withoutTraces ..
  traced forest hforest := by
    rw [forestOfValues_eq] at hforest
    obtain ⟨bindings, -, hforest⟩ := bind_eq_ok.1 hforest
    have htraced := forestWith_isTraced hforest
    rwa [isSome_sourcesFor] at htraced
  untraced _ _ hforest := forestWith_isTraced hforest

end Operation

/-! ## A sample

An argument that is a variable. -/

namespace Tracing

/-- `query($n: Int!) { node { f(x: $n) } }` -/
def operation : Operation :=
  ⟨none, "Query", [⟨"n", .named "Int" true, none⟩], [.field (Sample.plain 0 "node"
    [.field (Defaults.selected 1 "f" (some (.variable "n")))])]⟩

/-- The variable is 3. -/
def values : Members := [("n", .number (.int 3))]

/-- The two nodes of the sample record provenance, without it they are those of the coerced values,
and the sample is refused without a value. -/
theorem operation_entries :
    ∃ forest, operation.forestOfValues Defaults.schema {} [] values = .ok forest
      ∧ forest.size = 2 ∧ forest.IsTraced true
      ∧ operation.forest Defaults.schema {} [] values = .ok forest.withoutTraces
      ∧ ∃ error, coerceVariables Defaults.schema operation.variableDefinitions [] = .error error
        ∧ operation.forestOfValues Defaults.schema {} [] [] = .error error := by
  have hentries := Operation.entries_agree operation Defaults.schema {} [] values
  have hrefused := (Operation.entries_agree operation Defaults.schema {} [] []).refused
  have hcoerced : coerceVariables Defaults.schema operation.variableDefinitions values = .ok values :=
    rfl
  obtain ⟨forest, hforest, hsize⟩ : ∃ forest,
      operation.forestOfValues Defaults.schema {} [] values = .ok forest ∧ forest.size = 2 :=
    ⟨_, rfl, rfl⟩
  refine ⟨forest, hforest, hsize, hentries.traced forest hforest, ?_, _, rfl, hrefused _ rfl⟩
  rw [hentries.coerced values hcoerced, hforest]
  rfl

end Tracing

end SelectionForest
