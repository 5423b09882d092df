import SelectionForest.Proofs.Consistency
import SelectionForest.Proofs.Rewriting.Settling
import SelectionForest.Proofs.Walk.Steps

/-!
# Walks through sound selections

Selections are sound on a type (`areSound`) if their fields are defined there, those below a field on
what it returns, those of a fragment on its condition; if conditions can be read, type conditions are
composite types, and spreads are of fragments that there are. What is asked of the arguments of a
field beyond that is left open (`fits`).

A walk carries object types that the type of each selection applies to. So, where no fragment reaches
itself, a walk through sound selections does not end with an error, and the fields that it comes to
are sound on types that apply to all their object types (`Request.steps_sound`).
-/

namespace SelectionForest

section Sound

variable (schema : Schema) (fragments : Fragments) (fits : Name → Name → List Argument → Bool)

mutual

/-- Whether a selection of a selection set on `parent` is sound. -/
def Selection.isSound (parent : Name) : Selection → Bool
  | .field selected => selected.isSound parent
  | .inline condition directives selections =>
    areStatic directives && condition.all schema.isComposite
      && areSound (condition.getD parent) selections
  | .spread fragment directives => areStatic directives && (fragments.get? fragment).isSome

/-- Whether a field that is selected on `parent` is sound, and all that is selected below it. -/
def Field.isSound (parent : Name) : Field → Bool
  | ⟨_, _, name, arguments, directives, selections⟩ =>
    areStatic directives && fits parent name arguments
      && match schema.field? parent name with
        | some definition => areSound definition.type.innerName selections
        | none => false

/-- Whether the selections of a selection set on `parent` are sound. -/
def areSound (parent : Name) : List Selection → Bool
  | [] => true
  | selection :: selections => selection.isSound parent && areSound parent selections

end

/-- Whether a fragment is sound. -/
def Fragment.isSound (fragment : Fragment) : Bool :=
  schema.isComposite fragment.condition && areStatic fragment.directives
    && areSound schema fragments fits fragment.condition fragment.selections

/-- Whether an operation is sound, and the fragments that it may spread. -/
def Operation.isSound (operation : Operation) : Bool :=
  schema.isComposite operation.rootType
    && areSound schema fragments fits operation.rootType operation.selections
    && fragments.all (·.isSound schema fragments fits)

variable {schema fragments fits}

theorem areSound_iff {parent : Name} {selections : List Selection} :
    areSound schema fragments fits parent selections = true
      ↔ ∀ selection ∈ selections, selection.isSound schema fragments fits parent = true := by
  induction selections with
  | nil => exact iff_of_true rfl (List.forall_mem_nil _)
  | cons selection selections ih => rw [areSound, Bool.and_eq_true, ih, List.forall_mem_cons]

theorem Field.isSound_iff {parent : Name} {field : Field} :
    field.isSound schema fragments fits parent = true
      ↔ areStatic field.directives = true ∧ fits parent field.name field.arguments = true
        ∧ ∃ definition, schema.field? parent field.name = some definition
          ∧ areSound schema fragments fits definition.type.innerName field.selections = true := by
  cases field
  rw [Field.isSound, Bool.and_eq_true, Bool.and_eq_true, and_assoc]
  refine and_congr_right fun _ => and_congr_right fun _ => ?_
  split
  · simp [*]
  · simp [*]

end Sound

namespace Request

variable {request : Request} {types : TypeSet}

/-! ## Type conditions -/

/-- A composite type stands for a set of object types. -/
theorem exists_typesOf {name : Name} (h : request.schema.isComposite name = true) :
    ∃ types, request.typesOf name = .ok types := by
  rw [Schema.isComposite, Option.any_eq_true] at h
  obtain ⟨type, htype, hcomposite⟩ := h
  rw [typesOf, Schema.compositeOf, htype]
  cases type with
  | object => exact ⟨_, rfl⟩
  | interface => exact ⟨_, rfl⟩
  | union members =>
    refine ⟨.ofList members, ?_⟩
    show Schema.possibleTypes _ (.union name) = _
    rw [Schema.possibleTypes, htype]
  | _ => cases hcomposite

/-- A type condition on a composite type leaves object types that it applies to. -/
theorem exists_narrow (hsome : types.isEmpty = false) {condition : Option Name}
    (hcomposite : condition.all request.schema.isComposite = true) :
    ∃ left, request.narrow types condition = .ok left ∧ ∀ type ∈ left, type ∈ types
      ∧ ∀ name, condition = some name → request.schema.appliesTo name type = true := by
  cases condition with
  | none => exact ⟨types, rfl, fun type ht => ⟨ht, nofun⟩⟩
  | some name =>
    obtain ⟨possible, hpossible⟩ := exists_typesOf hcomposite
    refine ⟨types.inter possible, ?_, fun type ht => ?_⟩
    · show request.restrict types name = _
      rw [restrict_eq, hpossible, ok_bind, hsome]
      rfl
    · obtain ⟨htypes, hmem⟩ := TypeSet.mem_inter.1 ht
      refine ⟨htypes, fun other hother => ?_⟩
      obtain rfl := Option.some.inj hother
      exact (mem_typesOf hpossible).1 hmem

/-- What holds of all steps for the object types that are left holds of those below directives and a
type condition. -/
theorem forall_stepsUnder {P : Step → Prop} {directives : List Directive} {condition : Option Name}
    (hstatic : areStatic directives = true)
    (hcomposite : condition.all request.schema.isComposite = true)
    {next : TypeSet → List Step}
    (h : types.isEmpty = false → ∀ left, request.narrow types condition = .ok left →
      (∀ type ∈ left, type ∈ types
        ∧ ∀ name, condition = some name → request.schema.appliesTo name type = true) →
      ∀ step ∈ next left, P step) :
    ∀ step ∈ request.stepsUnder condition directives types next, P step := by
  rw [stepsUnder, isIncluded_of_static hstatic, stepsAfter]
  by_cases hgo : (!exclude request.bindings directives && !types.isEmpty) = true
  · rw [if_pos hgo]
    have hsome : types.isEmpty = false := by simpa using (Bool.and_eq_true_iff.1 hgo).2
    obtain ⟨left, hleft, hmem⟩ := exists_narrow hsome hcomposite
    rw [hleft]
    exact h hsome left hleft hmem
  · rw [if_neg hgo]
    exact List.forall_mem_nil _

end Request

/-! ## Steps -/

/-- Whether a field that a walk comes to is sound on a type that applies to all its object types. -/
structure Occurrence.IsSound (occ : Occurrence) (request : Request)
    (fits : Name → Name → List Argument → Bool) (parent : Name) (definition : FieldDefinition) :
    Prop where
  nonempty : occ.types.isEmpty = false
  applies : ∀ type ∈ occ.types, request.schema.appliesTo parent type = true
  defined : request.schema.field? parent occ.field.name = some definition
  admitted : fits parent occ.field.name occ.field.arguments = true
  below : areSound request.schema request.fragments fits definition.type.innerName
    occ.field.selections = true

namespace Request

/-- Whether a step is no error, and comes to a field that is sound. -/
def IsSoundStep (request : Request) (fits : Name → Name → List Argument → Bool) (step : Step) :
    Prop :=
  ∃ occ parent definition, step = .ok occ ∧ occ.IsSound request fits parent definition

/-- Whether each selection is sound on a type that applies to all object types of a set. The types
of different selections may differ. -/
def SoundFor (request : Request) (fits : Name → Name → List Argument → Bool) (types : TypeSet)
    (selections : List Selection) : Prop :=
  ∀ selection ∈ selections, ∃ parent,
    selection.isSound request.schema request.fragments fits parent = true
      ∧ ∀ type ∈ types, request.schema.appliesTo parent type = true

/-- Whether what is entered for a fragment, if there is such a one, has sound steps. -/
def EntersSoundly (request : Request) (fits : Name → Name → List Argument → Bool)
    (enter : Name → TypeSet → List Step) (name : Name) : Prop :=
  (request.fragments.get? name).isSome = true →
    ∀ types, ∀ step ∈ enter name types, request.IsSoundStep fits step

variable {request : Request} {fits : Name → Name → List Argument → Bool} {types : TypeSet}
  {enter : Name → TypeSet → List Step}

theorem SoundFor.of_areSound {selections : List Selection} {parent : Name}
    (hsound : areSound request.schema request.fragments fits parent selections = true)
    (happlies : ∀ type ∈ types, request.schema.appliesTo parent type = true) :
    request.SoundFor fits types selections :=
  fun selection hselection => ⟨parent, areSound_iff.1 hsound selection hselection, happlies⟩

mutual

theorem stepsOfSelection_sound : ∀ (selection : Selection),
    (∀ name ∈ selection.spreads, request.EntersSoundly fits enter name) →
    ∀ {parent : Name} {types : TypeSet},
    selection.isSound request.schema request.fragments fits parent = true →
    (∀ type ∈ types, request.schema.appliesTo parent type = true) →
    ∀ step ∈ request.stepsOfSelection enter selection types, request.IsSoundStep fits step
  | .field field, _, parent, types, hsound, happlies => by
    rw [Selection.isSound, Field.isSound_iff] at hsound
    obtain ⟨hstatic, hfits, definition, hdef, hbelow⟩ := hsound
    rw [stepsOfSelection]
    refine forall_stepsUnder hstatic rfl fun hsome left hleft _ => ?_
    obtain rfl : types = left := Except.ok.inj hleft
    exact List.forall_mem_singleton.2
      ⟨_, parent, definition, rfl, hsome, happlies, hdef, hfits, hbelow⟩
  | .inline condition directives selections, henter, parent, types, hsound, happlies => by
    simp only [Selection.isSound, Bool.and_eq_true] at hsound
    obtain ⟨⟨hstatic, hcomposite⟩, hselections⟩ := hsound
    rw [stepsOfSelection]
    refine forall_stepsUnder hstatic hcomposite fun _ left _ hmem => ?_
    refine stepsOf_sound selections henter hselections fun type ht => ?_
    obtain ⟨htype, hcondition⟩ := hmem type ht
    cases condition with
    | none => exact happlies type htype
    | some name => exact hcondition name rfl
  | .spread name directives, henter, parent, types, hsound, happlies => by
    rw [Selection.isSound, Bool.and_eq_true] at hsound
    rw [stepsOfSelection, isIncluded_of_static hsound.1, stepsAfter]
    cases exclude request.bindings directives with
    | true => exact List.forall_mem_nil _
    | false => exact henter name List.mem_cons_self hsound.2 types

/-- Where what is entered for fragments has sound steps, sound selections have. -/
theorem stepsOf_sound : ∀ (selections : List Selection),
    (∀ name ∈ spreadsOf selections, request.EntersSoundly fits enter name) →
    ∀ {parent : Name} {types : TypeSet},
    areSound request.schema request.fragments fits parent selections = true →
    (∀ type ∈ types, request.schema.appliesTo parent type = true) →
    ∀ step ∈ request.stepsOf enter selections types, request.IsSoundStep fits step
  | [], _, _, _, _, _ => by
    rw [stepsOf]
    exact List.forall_mem_nil _
  | selection :: selections, henter, parent, types, hsound, happlies => by
    obtain ⟨hfirst, hrest⟩ := (Bool.and_eq_true _ _).mp hsound
    obtain ⟨henterFirst, henterRest⟩ := List.forall_mem_append.1 henter
    rw [stepsOf]
    exact List.forall_mem_append.2 ⟨stepsOfSelection_sound selection henterFirst hfirst happlies,
      stepsOf_sound selections henterRest hrest happlies⟩

end

section Fragments

variable (hacyclic : request.fragments.AreAcyclic)
  (hfragments : ∀ fragment ∈ request.fragments,
    fragment.isSound request.schema request.fragments fits = true)

include hacyclic hfragments

/-- A fragment has sound steps if no more fragments stand one inside the other than may be
entered. -/
theorem enterSteps_sound {nesting : Nat} : ∀ {name : Name},
    request.fragments.height name < nesting →
    request.EntersSoundly fits (request.enterSteps nesting) name := by
  induction nesting with
  | zero => exact fun h => absurd h (Nat.not_lt_zero _)
  | succ nesting ih =>
    intro name hheight hknown types
    obtain ⟨fragment, hget⟩ := Option.isSome_iff_exists.1 hknown
    have hfragment := hfragments fragment (List.mem_of_find?_eq_some hget)
    simp only [Fragment.isSound, Bool.and_eq_true] at hfragment
    obtain ⟨⟨hcomposite, hstatic⟩, hselections⟩ := hfragment
    have hcondition : (some fragment.condition).all request.schema.isComposite = true := hcomposite
    rw [enterSteps, hget]
    refine forall_stepsUnder hstatic hcondition fun _ left _ hmem => ?_
    refine stepsOf_sound fragment.selections (fun other hother => ih ?_) hselections
      fun type ht => (hmem type ht).2 fragment.condition rfl
    exact Nat.lt_of_lt_of_le (hacyclic.height_lt ⟨fragment, hget, hother⟩) (Nat.le_of_lt_succ hheight)

/-- A walk through selections that are sound for its object types comes to sound fields, and to no
error. -/
theorem steps_sound {selections : List Selection} (h : request.SoundFor fits types selections) :
    ∀ step ∈ request.steps types selections, request.IsSoundStep fits step := by
  induction selections with
  | nil => exact List.forall_mem_nil _
  | cons selection selections ih =>
    obtain ⟨⟨parent, hsound, happlies⟩, hrest⟩ := List.forall_mem_cons.1 h
    have hfirst := stepsOfSelection_sound selection (fun name _ =>
      enterSteps_sound hacyclic hfragments (request.height_lt_nestingBound name types)) hsound
      happlies
    rw [steps, stepsOf]
    exact List.forall_mem_append.2 ⟨hfirst, ih hrest⟩

end Fragments

end Request

end SelectionForest
