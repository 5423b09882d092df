import SelectionForest.Proofs.Forest.ReturnTypes
import SelectionForest.Proofs.Refinement

/-!
# Nodes where objects refine types

Where objects refine the types of their interfaces, what stands below a node is looked up on a type
that is more special than those on which the merged fields are defined, and these may differ. Still,
if all objects implement their interfaces and all fields are defined on the types of their selection
sets, each selection of a level is defined on a type that applies to all object types of the level
(`HasLevel.definedFor`). So the field of a node is one of each of its object types
(`Collects.exists_field`).
-/

namespace SelectionForest

/-- Whether a request is one in which the objects of a type have its fields. -/
structure Request.IsImplemented (request : Request) : Prop where
  formed : request.schema.isWellFormed = true
  implemented : request.schema.isImplemented = true
  fragments : ∀ fragment ∈ request.fragments,
    areDefined request.schema fragment.condition fragment.selections = true

section Implemented

variable {request : Request} (himplemented : request.IsImplemented)

include himplemented

/-- A defined occurrence is one of a field of all its object types. -/
theorem Occurrence.IsDefined.exists_field {occ : Occurrence} {parent : Name}
    {definition : FieldDefinition} (h : occ.IsDefined request.schema parent definition)
    {type : Name} (ht : type ∈ occ.types) :
    ∃ other, request.schema.field? type occ.field.name = some other
      ∧ request.schema.refines other.type definition.type = true :=
  Schema.exists_refined_field himplemented.implemented himplemented.formed (h.applies type ht)
    h.defined

/-- The declared type of a defined occurrence refines that of its definition. -/
theorem Occurrence.IsDefined.refines {occ : Occurrence} {parent : Name}
    {definition : FieldDefinition} (h : occ.IsDefined request.schema parent definition)
    {type : TypeRef} (htype : request.schema.declaredType? occ = some type) :
    request.schema.refines type definition.type = true := by
  obtain ⟨first, found, hfirst, hfound, rfl⟩ := Schema.exists_definition htype
  obtain ⟨other, hother, hrefines⟩ := h.exists_field himplemented hfirst
  obtain rfl := Option.some.inj (hother.symm.trans hfound)
  exact hrefines

namespace Request

/-- The occurrences of selections that are defined for their object types are defined. -/
theorem DefinedFor.occurrence {types : TypeSet} {selections : List Selection}
    (hdefined : request.DefinedFor types selections) {occs : List Occurrence}
    (hexp : request.Expands types [] selections occs) {occ : Occurrence} (hocc : occ ∈ occs) :
    ∃ parent definition, occ.IsDefined request.schema parent definition := by
  rw [← left_nil request types] at hdefined
  exact hexp.isDefined himplemented.fragments hdefined occ hocc

/-- The selections of a level are defined on types that apply to all its object types. -/
theorem HasLevel.definedFor {operation : Operation}
    (hdefined : operation.isDefined request.schema request.fragments = true) {types : TypeSet}
    {selections : List Selection} (h : request.HasLevel operation types selections) :
    request.DefinedFor types selections := by
  induction h with
  | top htypes =>
    rw [Operation.isDefined, Bool.and_eq_true] at hdefined
    exact .of_areDefined hdefined.1 fun type ht => (mem_typesOf htypes).1 ht
  | lower _ hexp hcls htype hbelow ih =>
    intro selection hselection
    obtain ⟨field, hfield, hselection⟩ := List.mem_flatMap.1 hselection
    obtain ⟨occ, hmember, rfl⟩ := OccurrenceClass.mem_fields.1 hfield
    obtain ⟨parent, definition, hdef⟩ :=
      ih.occurrence himplemented hexp (Schema.mem_of_group hcls hmember)
    have hrefines := hdef.refines himplemented
      ((Schema.declaredType_of_group hcls hmember).1.trans htype)
    refine ⟨definition.type.innerName, areDefined_iff.1 hdef.below selection hselection,
      fun object hobject => ?_⟩
    exact Schema.appliesTo_of_isSubtype himplemented.implemented
      (Schema.isSubtype_of_refines hrefines) ((mem_typesOf hbelow).1 hobject)

end Request

/-- The field of a node is one of each of its object types. -/
theorem Forest.Collects.exists_field {forest : Forest} {operation : Operation}
    (hcollects : forest.Collects request operation)
    (hdefined : operation.isDefined request.schema request.fragments = true) {id : Nat}
    {node : Node} (hnode : forest.node? id = some node) {type : Name}
    (ht : type ∈ node.objectTypes) :
    ∃ definition, request.schema.field? type node.name = some definition := by
  obtain ⟨types, selections, ids, hlevel, hlisted, hid⟩ := hcollects.exists_level hnode
  obtain ⟨occs, cls, hexp, hcls, hselects, -⟩ := hlisted.exists_class hid hnode
  rw [hselects.objectTypes] at ht
  obtain ⟨occ, hmember, ht⟩ := OccurrenceClass.mem_objectTypes.1 ht
  obtain ⟨parent, definition, hdef⟩ := (hlevel.definedFor himplemented hdefined).occurrence
    himplemented hexp (Schema.mem_of_group hcls hmember)
  obtain ⟨other, hother, -⟩ := hdef.exists_field himplemented ht
  obtain ⟨-, hname⟩ := hselects.of_member hcls hmember
  exact ⟨other, hname ▸ hother⟩

end Implemented

end SelectionForest
