import SelectionForest.Proofs.Forest.Runs

/-!
# Every run has a path

In a uniform schema, if the fields of an operation are defined on the types of their selection sets,
a forest loses nothing that execution selects: every run of the operation is covered by a path of
nodes (`Collects.exists_path`).

The type of a node is looked up on one of its object types only, and the level below it stands for
what that type returns. That this is right for the others as well is the content of
`Lists.isTyped`, which carries the induction along runs: the fields of a level are defined on one
type that applies to all object types of the level.
-/

namespace SelectionForest

/-- Whether the field of a node has the type of the node on each of its object types. -/
def Node.IsTyped (node : Node) (schema : Schema) : Prop :=
  ∀ type ∈ node.objectTypes,
    ∃ definition, schema.field? type node.name = some definition ∧ definition.type = node.type

/-- Whether selections are defined on a type, and stand for the object types of that type. -/
structure Request.DefinedOn (request : Request) (parent : Name) (types : TypeSet)
    (selections : List Selection) : Prop where
  types_eq : request.typesOf parent = .ok types
  areDefined : areDefined request.schema parent selections = true

/-- Whether a request is one in which declared types are right wherever fields are defined. -/
structure Request.IsUniform (request : Request) : Prop where
  formed : request.schema.isWellFormed = true
  uniform : request.schema.isUniform = true
  fragments : ∀ fragment ∈ request.fragments,
    areDefined request.schema fragment.condition fragment.selections = true

section Typed

variable {forest : Forest} {request : Request} (huniform : request.IsUniform)

include huniform

/-- The occurrences of defined selections are defined. -/
theorem Request.DefinedOn.occurrence {parent : Name} {types : TypeSet}
    {selections : List Selection} (hdefined : request.DefinedOn parent types selections)
    {occs : List Occurrence} (hexp : request.Expands types [] selections occs) {occ : Occurrence}
    (hocc : occ ∈ occs) : ∃ parent definition, occ.IsDefined request.schema parent definition := by
  refine hexp.isDefined huniform.fragments
    (.of_areDefined hdefined.areDefined fun type ht => ?_) occ hocc
  rw [left_nil] at ht
  exact (mem_typesOf hdefined.types_eq).1 ht

/-- The nodes of defined selections are typed, and the selections below them are defined. -/
theorem Forest.Lists.isTyped {parent : Name} {types : TypeSet} {selections : List Selection}
    {ids : List Nat} (h : forest.Lists request types selections ids)
    (hdefined : request.DefinedOn parent types selections) {id : Nat} (hid : id ∈ ids)
    {node : Node} (hnode : forest.node? id = some node) :
    node.IsTyped request.schema ∧ ∀ merged, forest.merged? id = some merged →
      areDefined request.schema node.type.innerName (merged.fields.flatMap (·.selections)) := by
  obtain ⟨occs, cls, hexp, hcls, hselects, hmerged⟩ := h.exists_class hid hnode
  have hmember {occ : Occurrence} (hocc : occ ∈ membersOf cls) :
      ∃ parent definition, occ.IsDefined request.schema parent definition
        ∧ definition.type = node.type ∧ occ.field.name = node.name := by
    obtain ⟨parent, definition, hdef⟩ :=
      hdefined.occurrence huniform hexp (Schema.mem_of_group hcls hocc)
    obtain ⟨htype, hname⟩ := hselects.of_member hcls hocc
    have heq := hdef.declaredType huniform.formed huniform.uniform htype
    exact ⟨parent, definition, hdef, heq.symm, hname⟩
  constructor
  · intro type ht
    rw [hselects.objectTypes] at ht
    obtain ⟨occ, hocc, htype⟩ := OccurrenceClass.mem_objectTypes.1 ht
    obtain ⟨parent, definition, hdef, heq, hname⟩ := hmember hocc
    obtain ⟨other, hother, hsame⟩ := hdef.type_eq huniform.formed huniform.uniform htype
    exact ⟨other, hname ▸ hother, hsame.trans heq⟩
  · intro merged hmerged'
    obtain rfl := Option.some.inj (hmerged.symm.trans hmerged')
    refine areDefined_flatMap.2 fun field hfield => ?_
    obtain ⟨occ, hocc, rfl⟩ := OccurrenceClass.mem_fields.1 hfield
    obtain ⟨parent, definition, hdef, heq, -⟩ := hmember hocc
    rw [← heq]
    exact hdef.below

namespace Forest.Collects

variable {operation : Operation}

/-- Below a node of a composite type, the selections of its fields are defined again. -/
theorem definedOn_below (hcollects : forest.Collects request operation) {parent : Name}
    {types : TypeSet} {selections : List Selection} {ids : List Nat}
    (hlists : forest.Lists request types selections ids)
    (hdefined : request.DefinedOn parent types selections) {id : Nat} (hid : id ∈ ids)
    {node : Node} (hnode : forest.node? id = some node)
    (hcomposite : request.schema.isComposite node.type.innerName = true) :
    ∃ below merged, forest.merged? id = some merged
      ∧ request.DefinedOn node.type.innerName below (merged.fields.flatMap (·.selections))
      ∧ forest.Lists request below (merged.fields.flatMap (·.selections)) node.children := by
  obtain ⟨below, merged, hbelow, hmerged, hlower⟩ := hcollects.below hnode hcomposite
  obtain ⟨-, hlowerDefined⟩ := hlists.isTyped huniform hdefined hid hnode
  exact ⟨below, merged, hmerged, ⟨hbelow, hlowerDefined merged hmerged⟩, hlower⟩

/-- Every run from a level is covered by a path from its nodes. -/
theorem exists_path (hcollects : forest.Collects request operation) {run : List (Field × Name)}
    {parent : Name} {types : TypeSet} {selections : List Selection} {ids : List Nat}
    (hlists : forest.Lists request types selections ids)
    (hdefined : request.DefinedOn parent types selections)
    (hrun : request.Runs types selections run) :
    ∃ path, forest.Descends ids path ∧ List.Forall₂ forest.Covers path run := by
  induction run generalizing parent types selections ids with
  | nil => exact ⟨[], trivial, .nil⟩
  | cons step run ih =>
    obtain ⟨field, type⟩ := step
    obtain ⟨hleft, hreach, hrest⟩ := hrun
    obtain ⟨id, hid, hcovers⟩ := hlists.exists_covering hleft hreach
    rcases hrest with rfl | ⟨definition, below, hdef, hbelow, hrun⟩
    · exact ⟨[id], ⟨hid, trivial⟩, .cons hcovers .nil⟩
    · have hstep := hcovers
      obtain ⟨node, merged, hnode, hmerged, hfield, ht⟩ := hstep
      -- The field returns the same on the type of the run as on that of the node.
      have htype : definition.type = node.type := by
        obtain ⟨other, hother, heq⟩ := (hlists.isTyped huniform hdefined hid hnode).1 type ht
        rw [← hlists.name_eq hid hnode hmerged hfield, hdef] at hother
        obtain rfl := Option.some.inj hother
        exact heq
      rw [htype] at hbelow
      obtain ⟨below', merged', hmerged', hdefined', hlower⟩ := hcollects.definedOn_below huniform
        hlists hdefined hid hnode (Request.isComposite_of_typesOf hbelow)
      obtain rfl := Except.ok.inj (hbelow.symm.trans hdefined'.types_eq)
      obtain rfl := Option.some.inj (hmerged.symm.trans hmerged')
      obtain ⟨path, hpath, hpathCovers⟩ := ih hlower hdefined' (hrun.flatMap hfield)
      refine ⟨id :: path, ⟨hid, ?_⟩, .cons hcovers hpathCovers⟩
      rwa [Forest.children_of_node? hnode]

end Forest.Collects

end Typed

/-- A request of an operation whose fields are defined, in a uniform schema. -/
theorem Operation.isUniform_of_isDefined {operation : Operation} {schema : Schema}
    {fragments : Fragments} (hformed : schema.isWellFormed = true)
    (huniform : schema.isUniform = true) (hdefined : operation.isDefined schema fragments = true)
    (bindings : Members) (sources : Option TracedInputs) :
    Request.IsUniform ⟨schema, fragments, bindings, sources⟩ := by
  rw [isDefined, Bool.and_eq_true, List.all_eq_true] at hdefined
  exact ⟨hformed, huniform, hdefined.2⟩

theorem Operation.definedOn_rootType {operation : Operation} {request : Request}
    (hdefined : operation.isDefined request.schema request.fragments = true) {types : TypeSet}
    (htypes : request.typesOf operation.rootType = .ok types) :
    request.DefinedOn operation.rootType types operation.selections := by
  rw [isDefined, Bool.and_eq_true] at hdefined
  exact ⟨htypes, hdefined.1⟩

/-- In a uniform schema, every run of an operation with defined fields is covered by a path of its
forest. -/
theorem Operation.forestWith_covers {operation : Operation} {schema : Schema} {options : Options}
    {fragments : Fragments} {bindings : Members} {sources : Option TracedInputs} {forest : Forest}
    (hformed : schema.isWellFormed = true) (huniform : schema.isUniform = true)
    (hdefined : operation.isDefined schema fragments = true)
    (h : operation.forestWith schema options fragments bindings sources = .ok forest) :
    let request : Request := ⟨schema, fragments, bindings, sources⟩
    ∀ types run, request.typesOf operation.rootType = .ok types →
      request.Runs types operation.selections run →
      ∃ path, forest.Descends forest.roots path ∧ List.Forall₂ forest.Covers path run := by
  intro request types run htypes hrun
  have hcollects : forest.Collects request operation := forestWith_collects h
  obtain ⟨types', htypes', hroots⟩ := hcollects.roots
  obtain rfl := Except.ok.inj (htypes.symm.trans htypes')
  exact hcollects.exists_path (isUniform_of_isDefined hformed huniform hdefined bindings sources)
    hroots (definedOn_rootType hdefined htypes) hrun

/-- The run to the field `y` of a `B` is covered in the sample. -/
theorem Sample.run_covered :
    ∃ path, Sample.forest.Descends Sample.forest.roots path
      ∧ List.Forall₂ Sample.forest.Covers path
        [(Sample.node, "Query"), (Sample.childOfB, "B"), (Sample.y, "Thing")] := by
  have hB : "B" ∈ TypeSet.ofList ["A", "B"] := TypeSet.mem_ofList.2 (by simp)
  refine Operation.forestWith_covers (by decide +kernel) (by decide +kernel) (by decide +kernel)
    Sample.forest_eq (.singleton "Query") _ rfl
    ⟨TypeSet.mem_singleton.2 rfl, .here rfl, .inr ⟨_, .ofList ["A", "B"], rfl, rfl, hB, ?_,
      .inr ⟨_, .singleton "Thing", rfl, rfl, TypeSet.mem_singleton.2 rfl, .here rfl, .inl rfl⟩⟩⟩
  refine .later (.inline rfl (fun c hc => ?_) (.here rfl))
  obtain rfl : "B" = c := Option.some.inj hc
  rfl

end SelectionForest
