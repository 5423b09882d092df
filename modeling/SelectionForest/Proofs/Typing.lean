import SelectionForest.Proofs.Level.Classes
import SelectionForest.Schema.Assembly

/-!
# Fields on abstract types and on objects

A field of a selection set is defined on the type of the set, and executed on an object that this
type stands for. In a uniform schema (`Schema.isUniform`) objects declare the fields of their
interfaces with the types that these have there, so the definitions agree
(`Schema.field?_of_appliesTo`); objects may refine the types otherwise.

If the fields of an operation are defined on the types of their selection sets (`areDefined`), each
occurrence that is met is defined on a type that applies to all its object types
(`Expands.isDefined`). This holds too where several selection sets are collected at once that are
defined on different types (`DefinedFor`). In a uniform schema this is its declared type on each of
them (`Occurrence.IsDefined.type_eq`).
-/

namespace SelectionForest

namespace Schema

/-- Whether a name is that of an object. -/
def isObject (schema : Schema) (name : Name) : Bool :=
  match schema.type? name with
  | some (.object _ _) => true
  | _ => false

/-- Whether a schema has each type once, objects as its query root and as members of its unions, and
declares no field `__typename`. Valid schemas are so. -/
def isWellFormed (schema : Schema) : Bool :=
  distinct (schema.types.map (·.1)) && schema.query.all schema.isObject
    && schema.types.all fun (_, type) =>
      type.fields.all (·.name != typenameField.name)
        && match type with
          | .union members => members.all schema.isObject
          | _ => true

/-- Whether the objects of each interface have its fields, with the types that it declares. -/
def isUniform (schema : Schema) : Bool :=
  schema.types.all fun (name, type) =>
    match type with
    | .interface _ fields => fields.all fun field =>
      (schema.objectsImplementing name).names.all fun object =>
        (schema.field? object field.name).any (·.type == field.type)
    | _ => true

variable {schema : Schema}

theorem mem_of_type? {name : Name} {type : TypeDefinition} (h : schema.type? name = some type) :
    (name, type) ∈ schema.types := by
  obtain ⟨⟨key, value⟩, hfind, rfl⟩ := Option.map_eq_some_iff.1 h
  have hkey : key = name := by simpa using List.find?_some hfind
  exact hkey ▸ List.mem_of_find?_eq_some hfind

theorem type?_of_mem (hnames : (schema.types.map (·.1)).Nodup) {name : Name}
    {type : TypeDefinition} (h : (name, type) ∈ schema.types) : schema.type? name = some type :=
  OrderedMap.get?_of_mem hnames h

/-- A field of a type is one that it declares or a meta-field. -/
theorem field?_eq_some {name fieldName : Name} {definition : FieldDefinition}
    (h : schema.field? name fieldName = some definition) :
    ∃ type, schema.type? name = some type ∧ definition.name = fieldName
      ∧ (definition ∈ type.fields ∨ definition ∈ schema.metaFields name type) := by
  rw [field?] at h
  split at h
  · cases h
  · rename_i type htype
    have hname : definition.name = fieldName := by simpa using List.find?_some h
    exact ⟨type, htype, hname, List.mem_append.1 (List.mem_of_find?_eq_some h)⟩

/-- The only meta-field of a type that is not the query root is its `__typename`. -/
theorem eq_typenameField {name : Name} {type : TypeDefinition} {definition : FieldDefinition}
    (hquery : schema.query ≠ some name) (h : definition ∈ schema.metaFields name type) :
    definition = typenameField := by
  rw [metaFields, if_neg hquery, List.append_nil] at h
  split at h
  · exact List.mem_singleton.1 h
  · exact absurd h List.not_mem_nil

section WellFormed

variable (hformed : schema.isWellFormed = true)

include hformed

theorem isObject_of_query {name : Name} (h : schema.query = some name) :
    schema.isObject name = true := by
  simp only [isWellFormed, h, Option.all_some, Bool.and_eq_true] at hformed
  exact hformed.1.2

theorem isObject_of_member {name member : Name} {members : List Name}
    (h : schema.type? name = some (.union members)) (hmember : member ∈ members) :
    schema.isObject member = true := by
  simp only [isWellFormed, Bool.and_eq_true, List.all_eq_true] at hformed
  exact List.all_eq_true.1 (hformed.2 _ (mem_of_type? h)).2 member hmember

theorem isObject_of_implements {object interface : Name}
    (h : schema.implements object interface = true) : schema.isObject object = true := by
  simp only [isWellFormed, distinct, Bool.and_eq_true, decide_eq_true_eq] at hformed
  simp only [implements, List.any_eq_true, Bool.and_eq_true, beq_iff_eq] at h
  obtain ⟨⟨name, type⟩, hmem, rfl, hdec⟩ := h
  rw [isObject, type?_of_mem hformed.1.1 hmem]
  cases type <;> first | rfl | cases hdec

/-- Every object has `__typename`. -/
theorem typename_of_isObject {name : Name} (h : schema.isObject name = true) :
    schema.field? name typenameField.name = some typenameField := by
  rw [isObject] at h
  split at h
  · rename_i interfaces fields htype
    simp only [isWellFormed, Bool.and_eq_true, List.all_eq_true, bne_iff_ne] at hformed
    have hnot : fields.find? (·.name = typenameField.name) = none :=
      List.find?_eq_none.2 fun field hfield => by
        simpa using (hformed.2 _ (mem_of_type? htype)).1 field hfield
    rw [field?, htype]
    show ((fields ++ schema.metaFields name _).find? _) = _
    rw [List.find?_append, hnot]
    rfl
  · cases h

/-- A meta-field of a type that is no object is one of every object. -/
theorem field?_of_mem_metaFields {condition type : Name} {whole : TypeDefinition}
    {definition : FieldDefinition} (hcondition : schema.isObject condition = false)
    (h : definition ∈ schema.metaFields condition whole) (htype : schema.isObject type = true) :
    schema.field? type definition.name = some definition := by
  have hquery : schema.query ≠ some condition := fun hquery => by
    simp [isObject_of_query hformed hquery] at hcondition
  obtain rfl := eq_typenameField hquery h
  exact typename_of_isObject hformed htype

/-- A field of a type is one of the objects that the type applies to. If the fields of an interface
are, with types that are related to those that it declares, then all are. -/
theorem exists_field_of_appliesTo (rel : TypeRef → TypeRef → Prop) (hrefl : ∀ type, rel type type)
    (hdeclared : ∀ {interface object : Name} {interfaces : List Name}
      {fields : List FieldDefinition},
      schema.type? interface = some (.interface interfaces fields) →
      schema.implements object interface = true → ∀ field ∈ fields,
        ∃ other, schema.field? object field.name = some other ∧ rel other.type field.type)
    {condition type fieldName : Name} {definition : FieldDefinition}
    (happlies : schema.appliesTo condition type = true)
    (hdef : schema.field? condition fieldName = some definition) :
    ∃ other, schema.field? type fieldName = some other ∧ rel other.type definition.type := by
  obtain ⟨whole, htype, rfl, hfield⟩ := field?_eq_some hdef
  rw [appliesTo, htype] at happlies
  cases whole with
  | object interfaces fields =>
    obtain rfl := beq_iff_eq.1 happlies
    exact ⟨definition, hdef, hrefl _⟩
  | interface interfaces fields =>
    rcases hfield with hfield | hmeta
    · exact hdeclared htype happlies definition hfield
    · have hobject := isObject_of_implements hformed happlies
      exact ⟨definition, field?_of_mem_metaFields hformed (by simp [isObject, htype]) hmeta hobject,
        hrefl _⟩
  | union members =>
    rcases hfield with hfield | hmeta
    · exact absurd hfield List.not_mem_nil
    · have hobject := isObject_of_member hformed htype (List.contains_iff_mem.1 happlies)
      exact ⟨definition, field?_of_mem_metaFields hformed (by simp [isObject, htype]) hmeta hobject,
        hrefl _⟩
  | scalar => cases happlies
  | enum values => cases happlies
  | inputObject fields => cases happlies

/-- In a uniform schema, a field of a type is one of the same type on the objects that the type
applies to. -/
theorem field?_of_appliesTo (huniform : schema.isUniform = true) {condition type fieldName : Name}
    {definition : FieldDefinition} (happlies : schema.appliesTo condition type = true)
    (hdef : schema.field? condition fieldName = some definition) :
    ∃ other, schema.field? type fieldName = some other ∧ other.type = definition.type := by
  refine exists_field_of_appliesTo hformed (· = ·) (fun _ => rfl) ?_ happlies hdef
  intro interface object interfaces fields htype himplements field hfield
  have hfields := List.all_eq_true.1 huniform _ (mem_of_type? htype)
  have hall := List.all_eq_true.1 (List.all_eq_true.1 hfields field hfield) object
    (mem_objectsImplementing.2 himplements)
  obtain ⟨other, hother, heq⟩ := (Option.any_eq_true _ _).1 hall
  exact ⟨other, hother, beq_iff_eq.1 heq⟩

end WellFormed

end Schema

/-! ## Selection sets -/

mutual

/-- Whether the fields of a selection are defined on the types of their selection sets; that of the
selection is on `parent`. -/
def Selection.isDefined (schema : Schema) (parent : Name) : Selection → Bool
  | .field selected => selected.isDefined schema parent
  | .inline condition _ selections => areDefined schema (condition.getD parent) selections
  | .spread _ _ => true

/-- Whether a field and those below it are defined on the types of their selection sets. -/
def Field.isDefined (schema : Schema) (parent : Name) : Field → Bool
  | ⟨_, _, name, _, _, selections⟩ =>
    match schema.field? parent name with
    | some definition => areDefined schema definition.type.innerName selections
    | none => false

/-- Whether the fields of a selection set on `parent` are defined on the types of their selection
sets. -/
def areDefined (schema : Schema) (parent : Name) : List Selection → Bool
  | [] => true
  | selection :: selections =>
    selection.isDefined schema parent && areDefined schema parent selections

end

/-- Whether the fields of an operation, and of the fragments that it may spread, are defined on the
types of their selection sets. -/
def Operation.isDefined (operation : Operation) (schema : Schema) (fragments : Fragments) : Bool :=
  areDefined schema operation.rootType operation.selections
    && fragments.all fun fragment => areDefined schema fragment.condition fragment.selections

theorem areDefined_iff {schema : Schema} {parent : Name} {selections : List Selection} :
    areDefined schema parent selections
      ↔ ∀ selection ∈ selections, selection.isDefined schema parent := by
  induction selections with
  | nil => simp [areDefined]
  | cons selection selections ih => simp [areDefined, ih]

theorem areDefined_append {schema : Schema} {parent : Name} {xs ys : List Selection} :
    areDefined schema parent (xs ++ ys)
      ↔ areDefined schema parent xs ∧ areDefined schema parent ys := by
  induction xs with
  | nil => simp [areDefined]
  | cons x xs ih => simp [areDefined, ih, and_assoc]

theorem areDefined_flatMap {schema : Schema} {parent : Name} {fields : List Field} :
    areDefined schema parent (fields.flatMap (·.selections))
      ↔ ∀ field ∈ fields, areDefined schema parent field.selections := by
  induction fields with
  | nil => simp [areDefined]
  | cons field fields ih => simp [areDefined_append, ih]

theorem Field.isDefined_iff {schema : Schema} {parent : Name} {field : Field} :
    field.isDefined schema parent ↔ ∃ definition, schema.field? parent field.name = some definition
      ∧ areDefined schema definition.type.innerName field.selections := by
  cases field
  rw [Field.isDefined]
  split <;> simp_all

/-- Whether an occurrence is defined on a type that applies to all its object types, and the fields
of its selection set are defined on what it returns there. -/
structure Occurrence.IsDefined (schema : Schema) (occ : Occurrence) (parent : Name)
    (definition : FieldDefinition) : Prop where
  defined : schema.field? parent occ.field.name = some definition
  below : areDefined schema definition.type.innerName occ.field.selections
  applies : ∀ type ∈ occ.types, schema.appliesTo parent type

namespace Request

/-- Whether each selection is defined on a type that applies to all object types of a set. The types
of different selections may differ. -/
def DefinedFor (request : Request) (types : TypeSet) (selections : List Selection) : Prop :=
  ∀ selection ∈ selections, ∃ parent, selection.isDefined request.schema parent = true
    ∧ ∀ type ∈ types, request.schema.appliesTo parent type = true

variable {request : Request}

theorem DefinedFor.of_areDefined {types : TypeSet} {selections : List Selection} {parent : Name}
    (hdefined : areDefined request.schema parent selections)
    (hparent : ∀ type ∈ types, request.schema.appliesTo parent type) :
    request.DefinedFor types selections :=
  fun selection hselection => ⟨parent, areDefined_iff.1 hdefined selection hselection, hparent⟩

/-- Selections with defined fields expand to occurrences that are defined. -/
theorem Expands.isDefined
    (hfragments : ∀ fragment ∈ request.fragments,
      areDefined request.schema fragment.condition fragment.selections)
    {root : TypeSet} {conditions : List Name} {selections : List Selection}
    {occs : List Occurrence} (h : Expands request root conditions selections occs)
    (hdefined : request.DefinedFor (request.left root conditions) selections) :
    ∀ occ ∈ occs, ∃ parent definition, occ.IsDefined request.schema parent definition := by
  induction h with
  | nil => exact fun _ hocc => absurd hocc List.not_mem_nil
  | excluded _ _ ih => exact ih (List.forall_mem_cons.1 hdefined).2
  | pruned _ _ ih => exact ih (List.forall_mem_cons.1 hdefined).2
  | field _ _ _ ih =>
    obtain ⟨⟨parent, hfirst, hparent⟩, hrest⟩ := List.forall_mem_cons.1 hdefined
    rw [Selection.isDefined, Field.isDefined_iff] at hfirst
    obtain ⟨definition, hdef, hbelow⟩ := hfirst
    exact List.forall_mem_cons.2 ⟨⟨parent, definition, hdef, hbelow, hparent⟩, ih hrest⟩
  | @inline conditions condition _ _ _ _ _ _ _ _ ihinner ihrest =>
    obtain ⟨⟨parent, hfirst, hparent⟩, hrest⟩ := List.forall_mem_cons.1 hdefined
    rw [Selection.isDefined] at hfirst
    refine List.forall_mem_append.2
      ⟨ihinner (.of_areDefined hfirst fun type ht => ?_), ihrest hrest⟩
    cases condition with
    | none => exact hparent type ht
    | some condition => exact (mem_left_cons.1 ht).2
  | spread _ hget _ _ _ ihinner ihrest =>
    have hfragment := hfragments _ (List.mem_of_find?_eq_some hget)
    exact List.forall_mem_append.2
      ⟨ihinner (.of_areDefined hfragment fun type ht => (mem_left_cons.1 ht).2),
        ihrest (List.forall_mem_cons.1 hdefined).2⟩
  | fragmentExcluded _ _ _ ih => exact ih (List.forall_mem_cons.1 hdefined).2

end Request

/-- In a uniform schema, a defined occurrence has one type on all its object types. -/
theorem Occurrence.IsDefined.type_eq {schema : Schema} (hformed : schema.isWellFormed = true)
    (huniform : schema.isUniform = true) {occ : Occurrence} {parent : Name}
    {definition : FieldDefinition} (h : occ.IsDefined schema parent definition) {type : Name}
    (ht : type ∈ occ.types) :
    ∃ other, schema.field? type occ.field.name = some other ∧ other.type = definition.type :=
  Schema.field?_of_appliesTo hformed huniform (h.applies type ht) h.defined

/-- In a uniform schema, the declared type of a defined occurrence is that of its definition. -/
theorem Occurrence.IsDefined.declaredType {schema : Schema} (hformed : schema.isWellFormed = true)
    (huniform : schema.isUniform = true) {occ : Occurrence} {parent : Name}
    {definition : FieldDefinition} (h : occ.IsDefined schema parent definition)
    {type : TypeRef} (htype : schema.declaredType? occ = some type) : type = definition.type := by
  obtain ⟨first, hfirst, htype⟩ := Option.bind_eq_some_iff.1 htype
  obtain ⟨found, hfound, htype⟩ := Option.bind_eq_some_iff.1 htype
  obtain ⟨other, hother, heq⟩ := h.type_eq hformed huniform (TypeSet.mem_of_first? hfirst)
  obtain rfl := Option.some.inj (hother.symm.trans hfound)
  exact (Option.some.inj htype).symm.trans heq

end SelectionForest
