import SelectionForest.Proofs.Typing

/-!
# Objects that refine their interfaces

An object has the fields of its interfaces, and may refine their types (`Schema.refines`): to one
that is not null, to an object or interface that implements the declared one, or to a member of a
union. Schemas in which all objects and interfaces do so are implemented (`Schema.isImplemented`);
valid schemas are.

* `appliesTo_of_isSubtype`: what applies to an object is applied to it by all above;
* `exists_refined_field`: a field of a type is one of the objects that the type applies to, with a
  refined type.
-/

namespace SelectionForest

/-- The interfaces that an object or interface implements. -/
def TypeDefinition.interfaces : TypeDefinition → List Name
  | .object interfaces _ => interfaces
  | .interface interfaces _ => interfaces
  | _ => []

namespace Schema

/-- Whether a type is another one, implements it or is a member of it. -/
def isSubtype (schema : Schema) (name upper : Name) : Bool :=
  name == upper
    || match schema.type? name, schema.type? upper with
      | some (.object interfaces _), some (.interface _ _) => interfaces.contains upper
      | some (.interface interfaces _), some (.interface _ _) => interfaces.contains upper
      | some (.object _ _), some (.union members) => members.contains name
      | _, _ => false

/-- Whether a field may have a type where its interface declares another. -/
def refines (schema : Schema) : TypeRef → TypeRef → Bool
  | .named name nonNull, .named upper upperNonNull =>
    (nonNull || !upperNonNull) && schema.isSubtype name upper
  | .list item nonNull, .list upper upperNonNull =>
    (nonNull || !upperNonNull) && schema.refines item upper
  | _, _ => false

/-- Whether all objects and interfaces implement the interfaces of their interfaces too, and have
the fields of their interfaces, with types that refine those declared there. -/
def isImplemented (schema : Schema) : Bool :=
  schema.types.all fun (_, type) => type.interfaces.all fun name =>
    match schema.type? name with
    | some (.interface interfaces fields) =>
      (interfaces.all fun upper => type.interfaces.contains upper)
        && fields.all fun field =>
          (type.fields.find? (·.name = field.name)).any (schema.refines ·.type field.type)
    | _ => true

variable {schema : Schema}

theorem refines_refl (schema : Schema) (type : TypeRef) : schema.refines type type = true := by
  induction type with
  | named name nonNull => simp [refines, isSubtype]
  | list item nonNull ih => simp [refines, ih]

theorem isSubtype_of_refines {type upper : TypeRef} (h : schema.refines type upper = true) :
    schema.isSubtype type.innerName upper.innerName = true := by
  induction type generalizing upper with
  | named name nonNull =>
    cases upper with
    | named upper upperNonNull => exact ((Bool.and_eq_true _ _).mp h).2
    | list upper upperNonNull => cases h
  | list item nonNull ih =>
    cases upper with
    | named upper upperNonNull => cases h
    | list upper upperNonNull =>
      have hsub := ih ((Bool.and_eq_true _ _).mp h).2
      exact hsub

theorem implements_iff {object interface : Name} : schema.implements object interface = true
    ↔ ∃ interfaces fields, (object, .object interfaces fields) ∈ schema.types
      ∧ interface ∈ interfaces := by
  simp only [implements, List.any_eq_true, Bool.and_eq_true, beq_iff_eq]
  constructor
  · rintro ⟨⟨name, type⟩, hmem, rfl, hdec⟩
    cases type with
    | object interfaces fields => exact ⟨interfaces, fields, hmem, List.contains_iff_mem.1 hdec⟩
    | _ => cases hdec
  · rintro ⟨interfaces, fields, hmem, hdec⟩
    exact ⟨_, hmem, rfl, List.contains_iff_mem.2 hdec⟩

section Implemented

variable (himplemented : schema.isImplemented = true)

include himplemented

/-- What an object has of an interface that it implements. -/
theorem implements_of_interface {interface : Name} {inherited : List Name}
    {declared : List FieldDefinition}
    (htype : schema.type? interface = some (.interface inherited declared)) {object : Name}
    {interfaces : List Name} {fields : List FieldDefinition}
    (hobject : (object, .object interfaces fields) ∈ schema.types)
    (hmem : interface ∈ interfaces) :
    (∀ upper ∈ inherited, upper ∈ interfaces) ∧ ∀ field ∈ declared,
      ∃ own, fields.find? (·.name = field.name) = some own
        ∧ schema.refines own.type field.type = true := by
  have hall := List.all_eq_true.1 (List.all_eq_true.1 himplemented _ hobject) interface hmem
  rw [htype] at hall
  obtain ⟨hupper, hfields⟩ := (Bool.and_eq_true _ _).mp hall
  refine ⟨fun upper hin => ?_, fun field hin => ?_⟩
  · exact List.contains_iff_mem.1 (List.all_eq_true.1 hupper upper hin)
  · exact (Option.any_eq_true _ _).1 (List.all_eq_true.1 hfields field hin)

/-- What applies to an object is applied to it by all above. -/
theorem appliesTo_of_isSubtype {name upper : Name} (hsub : schema.isSubtype name upper = true)
    {type : Name} (h : schema.appliesTo name type = true) : schema.appliesTo upper type = true := by
  rw [isSubtype, Bool.or_eq_true, beq_iff_eq] at hsub
  rcases hsub with rfl | hsub
  · exact h
  split at hsub
  · rename_i interfaces fields _ _ hname hupper
    rw [appliesTo, hname] at h
    obtain rfl := beq_iff_eq.1 h
    rw [appliesTo, hupper]
    exact implements_iff.2 ⟨interfaces, fields, mem_of_type? hname, List.contains_iff_mem.1 hsub⟩
  · rename_i inherited fields _ _ hname hupper
    rw [appliesTo, hname] at h
    rw [appliesTo, hupper]
    obtain ⟨interfaces, own, hobject, hmem⟩ := implements_iff.1 h
    obtain ⟨hinherited, -⟩ := implements_of_interface himplemented hname hobject hmem
    exact implements_iff.2
      ⟨interfaces, own, hobject, hinherited upper (List.contains_iff_mem.1 hsub)⟩
  · rename_i interfaces fields members hname hupper
    rw [appliesTo, hname] at h
    obtain rfl := beq_iff_eq.1 h
    rw [appliesTo, hupper]
    exact hsub
  · cases hsub

/-- A field of a type is one of the objects that the type applies to, with a refined type. -/
theorem exists_refined_field (hformed : schema.isWellFormed = true)
    {condition type fieldName : Name} {definition : FieldDefinition}
    (happlies : schema.appliesTo condition type = true)
    (hdef : schema.field? condition fieldName = some definition) :
    ∃ other, schema.field? type fieldName = some other
      ∧ schema.refines other.type definition.type = true := by
  refine exists_field_of_appliesTo hformed (schema.refines · ·) schema.refines_refl ?_ happlies hdef
  intro interface object inherited declared htype himplements field hfield
  obtain ⟨interfaces, fields, hobject, hmem⟩ := implements_iff.1 himplements
  obtain ⟨-, hfields⟩ := implements_of_interface himplemented htype hobject hmem
  obtain ⟨own, hfind, hrefines⟩ := hfields field hfield
  have hnames : (schema.types.map (·.1)).Nodup := by
    simp only [isWellFormed, distinct, Bool.and_eq_true, decide_eq_true_eq] at hformed
    exact hformed.1.1
  refine ⟨own, ?_, hrefines⟩
  rw [field?, type?_of_mem hnames hobject]
  show (fields ++ schema.metaFields object _).find? _ = _
  rw [List.find?_append, hfind]
  rfl

end Implemented

end Schema

end SelectionForest
