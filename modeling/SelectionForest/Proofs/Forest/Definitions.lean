import SelectionForest.Proofs.Forest.ReturnTypes

/-!
# The definitions of nodes

A node takes its type and the values of its arguments from the definition of its field on the first
of its object types (`Node.HasDefinition`). Fields that are merged later add object types behind the
first one, so this stays the definition that the node was founded with (`Selects.hasDefinition`,
`Collects.exists_definition`).
-/

namespace SelectionForest

/-- Whether a definition is that of the field of a node on its first object type, and the node has
its type and the values that its arguments take there. -/
structure Node.HasDefinition (node : Node) (request : Request) (definition : FieldDefinition) :
    Prop where
  found : node.definition request.schema = .ok definition
  type : definition.type = node.type
  resolved : resolveArguments request.schema request.bindings definition node.arguments
    = .ok node.resolved

/-- Types that are added leave the first one in its place. -/
theorem TypeSet.first?_unionAll {set : TypeSet} {first : Name} (h : set.first? = some first)
    (others : List TypeSet) : (set.unionAll others).first? = some first := by
  induction others generalizing set with
  | nil => exact h
  | cons other others ih =>
    have hnames : set.names.head? = some first := h
    refine ih ?_
    show (set.names ++ other.names.filter _).head? = some first
    rw [List.head?_append, hnames, Option.some_or]

/-- The definition of a node on its first object type. -/
theorem Node.definition_eq_ok {node : Node} {schema : Schema} {definition : FieldDefinition} :
    node.definition schema = .ok definition ↔ ∃ first, node.objectTypes.first? = some first
      ∧ schema.field? first node.name = some definition := by
  rw [Node.definition]
  cases node.objectTypes.first? with
  | none => simp
  | some first => simp [Schema.definitionOf_eq_ok]

/-- A node of a class has the definition that the founder of the class was met with. -/
theorem Node.Selects.hasDefinition {node : Node} {request : Request} {cls : OccurrenceClass}
    (h : node.Selects request cls) : ∃ definition, node.HasDefinition request definition := by
  obtain ⟨first, definition, hfirst, hdef, hresolved, -⟩ := h.values
  have hnode : node.objectTypes.first? = some first := by
    rw [h.objectTypes]
    exact TypeSet.first?_unionAll hfirst _
  have htype : some definition.type = some node.type := by
    rw [← h.type, Schema.declaredType?, hfirst]
    show _ = (request.schema.field? first cls.1.field.name).bind _
    rw [hdef]
    rfl
  rw [← h.name] at hdef
  rw [← h.arguments] at hresolved
  exact ⟨definition, Node.definition_eq_ok.2 ⟨first, hnode, hdef⟩, Option.some.inj htype, hresolved⟩

namespace Forest.Collects

variable {forest : Forest} {request : Request} {operation : Operation}

/-- Every node selects what a class of occurrences does, whose fields are merged into it. -/
theorem exists_selects (hcollects : forest.Collects request operation) {id : Nat} {node : Node}
    (hnode : forest.node? id = some node) :
    ∃ cls, node.Selects request cls ∧ forest.merged? id = some cls.fields := by
  obtain ⟨_, _, _, -, hlisted, hid⟩ := hcollects.exists_level hnode
  obtain ⟨_, cls, -, -, hselects, hmerged⟩ := hlisted.exists_class hid hnode
  exact ⟨cls, hselects, hmerged⟩

/-- Every node has a definition. -/
theorem exists_definition (hcollects : forest.Collects request operation) {id : Nat} {node : Node}
    (hnode : forest.node? id = some node) :
    ∃ definition, node.HasDefinition request definition := by
  obtain ⟨cls, hselects, -⟩ := hcollects.exists_selects hnode
  exact hselects.hasDefinition

end Forest.Collects

end SelectionForest
