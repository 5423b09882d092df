import Mathlib.Tactic.Tauto
import SelectionForest.Forest.Builder
import SelectionForest.Proofs.Outcome

/-!
# Narrowing by type conditions

Which object types a type condition applies to (`Schema.appliesTo`), read off the definitions of a
schema: an object is that object, an interface is declared by its objects, and a union has members.
The possible types of a composite type are those that it applies to (`mem_possibleTypes`).

A walk narrows a set of object types by one condition after the other. What is left at the end are
those that all conditions apply to, in the order of the set (`Request.left`, `restrict_left`).
-/

namespace SelectionForest

namespace TypeSet

/-- The names of a set that a test lets through. -/
def filter (set : TypeSet) (test : Name → Bool) : TypeSet :=
  ⟨set.names.filter test, set.nodup.filter _⟩

theorem ext_names {set other : TypeSet} (h : set.names = other.names) : set = other := by
  cases set; cases other; simp_all

theorem mem_filter {set : TypeSet} {test : Name → Bool} {name : Name} :
    name ∈ set.filter test ↔ name ∈ set ∧ test name = true :=
  List.mem_filter

theorem isEmpty_iff {set : TypeSet} : set.isEmpty = true ↔ ∀ name, name ∉ set := by
  rw [isEmpty, List.isEmpty_iff, List.eq_nil_iff_forall_not_mem]
  rfl

theorem first?_eq_none {set : TypeSet} : set.first? = none ↔ set.isEmpty = true := by
  rw [first?, isEmpty, List.head?_eq_none_iff, List.isEmpty_iff]

theorem mem_of_first? {set : TypeSet} {name : Name} (h : set.first? = some name) : name ∈ set :=
  List.mem_of_head? h

theorem exists_first {set : TypeSet} (h : set.isEmpty = false) :
    ∃ name, set.first? = some name ∧ name ∈ set := by
  cases hf : set.first? with
  | none => simp [first?_eq_none.1 hf] at h
  | some name => exact ⟨name, rfl, mem_of_first? hf⟩

end TypeSet

namespace Schema

/-- Whether a type is an object that declares an interface. -/
def declares (type : TypeDefinition) (interface : Name) : Bool :=
  match type with
  | .object interfaces _ => interfaces.contains interface
  | _ => false

/-- Whether an object type declares an interface. -/
def implements (schema : Schema) (object interface : Name) : Bool :=
  schema.types.any fun (name, type) => name == object && declares type interface

/-- Whether a type condition applies to an object type. -/
def appliesTo (schema : Schema) (condition type : Name) : Bool :=
  match schema.type? condition with
  | some (.object _ _) => type == condition
  | some (.interface _ _) => schema.implements type condition
  | some (.union members) => members.contains type
  | _ => false

theorem mem_implementations {schema : Schema} {interface object : Name} :
    (interface, object) ∈ schema.implementations ↔ schema.implements object interface = true := by
  simp only [implementations, implements, List.mem_flatMap, List.any_eq_true, Bool.and_eq_true,
    beq_iff_eq]
  refine exists_congr fun ⟨name, type⟩ => and_congr_right fun _ => ?_
  cases type with
  | object interfaces fields =>
    simp only [declares, List.mem_map, Prod.mk.injEq, List.contains_iff_mem]
    constructor
    · rintro ⟨_, hmem, rfl, rfl⟩
      exact ⟨rfl, hmem⟩
    · rintro ⟨rfl, hmem⟩
      exact ⟨interface, hmem, rfl, rfl⟩
  | _ => simp [declares]

/-- Looking an interface up finds the objects that are entered for it. -/
theorem objectsImplementing_eq (schema : Schema) (interface : Name) :
    schema.objectsImplementing interface
      = .ofList ((schema.implementations.filter (·.1 = interface)).map (·.2)) := by
  have hget : schema.implementedInterfaces.get? interface
      = ((OrderedMap.pushAll schema.implementations).get? interface).map .ofList := by
    rw [implementedInterfaces, OrderedMap.get?, OrderedMap.get?, List.find?_map, Option.map_map,
      Option.map_map]
    rfl
  rw [← OrderedMap.getAll_pushAll, OrderedMap.getAll, objectsImplementing, hget]
  cases (OrderedMap.pushAll schema.implementations).get? interface <;> rfl

theorem mem_objectsImplementing {schema : Schema} {object interface : Name} :
    object ∈ schema.objectsImplementing interface ↔ schema.implements object interface := by
  rw [objectsImplementing_eq, TypeSet.mem_ofList, ← mem_implementations]
  simp

/-- The possible types of a composite type are those that it applies to. -/
theorem mem_possibleTypes {schema : Schema} {name type : Name} {composite : CompositeType}
    {types : TypeSet} (hc : schema.compositeOf name = .ok composite)
    (ht : schema.possibleTypes composite = .ok types) :
    type ∈ types ↔ schema.appliesTo name type := by
  unfold compositeOf at hc
  unfold appliesTo
  split at hc <;> cases hc <;> rename_i hdef <;> rw [hdef]
  · cases ht
    simp [TypeSet.mem_singleton]
  · cases ht
    exact mem_objectsImplementing
  · simp only [possibleTypes, hdef] at ht
    cases ht
    simp [TypeSet.mem_ofList]

/-- A composite type of the schema stands for a set of object types. -/
theorem exists_possibleTypes {schema : Schema} {name : Name} {composite : CompositeType}
    (hc : schema.compositeOf name = .ok composite) :
    ∃ types, schema.possibleTypes composite = .ok types := by
  unfold compositeOf at hc
  split at hc <;> cases hc
  · exact ⟨_, rfl⟩
  · exact ⟨_, rfl⟩
  · rename_i members hdef
    exact ⟨.ofList members, by rw [possibleTypes, hdef]⟩

/-- What a set has in common with the possible types is what the composite type applies to. -/
theorem inter_possibleTypes {schema : Schema} {name : Name} {composite : CompositeType}
    {possible : TypeSet} (hc : schema.compositeOf name = .ok composite)
    (hp : schema.possibleTypes composite = .ok possible) (types : TypeSet) :
    types.inter possible = types.filter (schema.appliesTo name) := by
  refine TypeSet.ext_names (List.filter_congr fun type _ => ?_)
  rw [Bool.eq_iff_iff, decide_eq_true_eq]
  exact mem_possibleTypes hc hp

end Schema

namespace Request

theorem mem_typesOf {request : Request} {name type : Name} {types : TypeSet}
    (h : request.typesOf name = .ok types) :
    type ∈ types ↔ request.schema.appliesTo name type := by
  obtain ⟨composite, hc, ht⟩ := bind_eq_ok.1 h
  exact Schema.mem_possibleTypes hc ht

theorem isComposite_of_typesOf {request : Request} {name : Name} {types : TypeSet}
    (h : request.typesOf name = .ok types) : request.schema.isComposite name = true := by
  obtain ⟨composite, hc, -⟩ := bind_eq_ok.1 h
  unfold Schema.compositeOf at hc
  unfold Schema.isComposite
  split at hc <;> first | cases hc; done | rename_i hdef; rw [hdef]; rfl

/-- A type condition leaves the object types that it stands for as well. -/
theorem restrict_eq (request : Request) (types : TypeSet) (condition : Name) :
    request.restrict types condition = request.typesOf condition >>= fun possible =>
      pure (if types.isEmpty then possible else types.inter possible) := by
  rw [typesOf, bind_assoc]
  rfl

/-- The object types of a set that all conditions apply to. -/
def left (request : Request) (types : TypeSet) (conditions : List Name) : TypeSet :=
  types.filter fun type => conditions.all (request.schema.appliesTo · type)

theorem mem_left {request : Request} {types : TypeSet} {conditions : List Name} {type : Name} :
    type ∈ request.left types conditions
      ↔ type ∈ types ∧ ∀ condition ∈ conditions, request.schema.appliesTo condition type := by
  simp [left, TypeSet.mem_filter]

theorem left_nil (request : Request) (types : TypeSet) : request.left types [] = types :=
  TypeSet.ext_names (by simp [left, TypeSet.filter])

theorem mem_left_cons {request : Request} {types : TypeSet} {condition type : Name}
    {conditions : List Name} :
    type ∈ request.left types (condition :: conditions)
      ↔ type ∈ request.left types conditions ∧ request.schema.appliesTo condition type := by
  simp only [mem_left, List.forall_mem_cons]
  tauto

/-- One condition more leaves fewer object types. -/
theorem left_cons_subset {request : Request} {types : TypeSet} {condition : Option Name}
    {conditions : List Name} {type : Name}
    (h : type ∈ request.left types (condition.toList ++ conditions)) :
    type ∈ request.left types conditions := by
  cases condition with
  | none => exact h
  | some condition => exact (mem_left_cons.1 h).1

/-- Narrowing what is left by a condition leaves what that condition applies to as well. -/
theorem restrict_left {request : Request} {types next : TypeSet} {condition : Name}
    {conditions : List Name} (hne : (request.left types conditions).isEmpty = false)
    (h : request.restrict (request.left types conditions) condition = .ok next) :
    next = request.left types (condition :: conditions) := by
  obtain ⟨composite, hc, h⟩ := bind_eq_ok.1 h
  obtain ⟨possible, hp, h⟩ := bind_eq_ok.1 h
  rw [pure_eq_ok, hne, if_neg Bool.false_ne_true, Schema.inter_possibleTypes hc hp] at h
  subst h
  refine TypeSet.ext_names ?_
  simp only [left, TypeSet.filter, List.filter_filter, List.all_cons]

end Request

end SelectionForest
