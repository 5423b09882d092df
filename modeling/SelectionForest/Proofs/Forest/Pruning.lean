import SelectionForest.Proofs.Forest.Levels
import SelectionForest.Proofs.TypeConditions

/-!
# Pruned selections

A type condition that leaves nothing prunes what is below it. `Schema.restrict` takes the empty set
for no restriction, so a condition further in would let its object types in again; but a walk stops
before it narrows the empty set.

To say so, operations are walked with the narrowing as a parameter (`Request.walkBy`,
`Operation.forestBy`). Any narrowing that agrees with the schema on sets that are not empty
(`Schema.NarrowsAlike`) makes the same forest, or the same error (`forestBy_eq`). The plain
intersection is one, and leaves nothing of the empty set (`Schema.intersect`).
-/

namespace SelectionForest

/-- How a type condition narrows a set of object types. -/
abbrev Narrowing := TypeSet → CompositeType → Outcome TypeSet

namespace Schema

/-- The object types of a set that a type condition stands for, and none if the set is empty. -/
def intersect (schema : Schema) : Narrowing := fun current condition => do
  let possible ← schema.possibleTypes condition
  pure (current.inter possible)

/-- Whether a narrowing leaves of all sets that are not empty what `restrict` does. -/
def NarrowsAlike (schema : Schema) (narrowing : Narrowing) : Prop :=
  ∀ types condition, types.isEmpty = false →
    narrowing types condition = schema.restrict types condition

theorem narrowsAlike_restrict (schema : Schema) : schema.NarrowsAlike schema.restrict :=
  fun _ _ _ => rfl

theorem narrowsAlike_intersect (schema : Schema) : schema.NarrowsAlike schema.intersect := by
  intro types condition hsome
  rw [intersect, restrict, hsome]
  rfl

/-- The plain intersection leaves nothing of the empty set. -/
theorem intersect_empty {schema : Schema} {condition : CompositeType} {left : TypeSet}
    (h : schema.intersect .empty condition = .ok left) : left = .empty := by
  obtain ⟨possible, -, h⟩ := bind_eq_ok.1 h
  exact (pure_eq_ok.1 h).symm

end Schema

/-! ## Operations with a given narrowing -/

namespace Request

section Walks

variable {σ : Type}

mutual

/-- Walks through a selection with a given narrowing. Only inline fragments narrow, fields and
spreads do not. -/
def walkSelectionBy (request : Request) (narrowing : Narrowing)
    (enter : Name → TypeSet → σ → Outcome σ) (visit : Visit σ) :
    Selection → TypeSet → σ → Outcome σ
  | .inline condition directives selections, types, state => do
    if ← isIncluded request.bindings directives then
      if types.isEmpty then pure state
      else match condition with
        | some type => do
          let left ← narrowing types (← request.schema.compositeOf type)
          walkSelectionsBy request narrowing enter visit selections left state
        | none => walkSelectionsBy request narrowing enter visit selections types state
    else pure state
  | selection, types, state => walkSelection request enter visit selection types state

/-- Walks through selections one after the other, with a given narrowing. -/
def walkSelectionsBy (request : Request) (narrowing : Narrowing)
    (enter : Name → TypeSet → σ → Outcome σ) (visit : Visit σ) :
    List Selection → TypeSet → σ → Outcome σ
  | [], _, state => pure state
  | selection :: selections, types, state => do
    let next ← walkSelectionBy request narrowing enter visit selection types state
    walkSelectionsBy request narrowing enter visit selections types next

end

/-- Walks through a fragment with a given narrowing, entering at most `nesting` fragments one inside
the other. -/
def enterFragmentBy (request : Request) (narrowing : Narrowing) (visit : Visit σ) :
    Nat → Name → TypeSet → σ → Outcome σ
  | 0, _, _, _ => .error .endless
  | nesting + 1, name, types, state =>
    match request.fragments.get? name with
    | none => .error (.internal (.undefinedFragment name))
    | some fragment => do
      if ← isIncluded request.bindings fragment.directives then
        if types.isEmpty then pure state
        else
          let left ← narrowing types (← request.schema.compositeOf fragment.condition)
          walkSelectionsBy request narrowing (enterFragmentBy request narrowing visit nesting)
            visit fragment.selections left state
      else pure state

/-- Walks through a selection set, from a set of object types and with a given narrowing. -/
def walkBy (request : Request) (narrowing : Narrowing) (visit : Visit σ) (types : TypeSet)
    (selections : List Selection) (state : σ) : Outcome σ :=
  walkSelectionsBy request narrowing
    (enterFragmentBy request narrowing visit (request.nestingBound types)) visit selections types
    state

end Walks

/-- The level of selection sets, with a given narrowing. -/
def levelBy (request : Request) (narrowing : Narrowing) (types : TypeSet)
    (sets : List (List Selection)) : Outcome Level :=
  sets.foldlM (fun level selections => request.walkBy narrowing request.add types selections level)
    []

/-- The trees of a level at a depth, with at most `levels` levels and a given narrowing. -/
def growLevelBy (request : Request) (narrowing : Narrowing) (options : Options) :
    Nat → Nat → TypeSet → List (List Selection) → Outcome (List Tree)
  | 0, _, _, _ => .error .endless
  | levels + 1, depth, types, sets => do
    let level ← request.levelBy narrowing types sets
    let below := growLevelBy request narrowing options levels (depth + 1)
    level.grouped.mapM (request.growTree options below depth)

/-- The trees of an operation, with a given narrowing. -/
def growBy (request : Request) (narrowing : Narrowing) (options : Options)
    (operation : Operation) : Outcome (List Tree) := do
  let types ← request.typesOf operation.rootType
  options.allowDepth 1
  request.growLevelBy narrowing options (request.levelBound options operation.selections) 1 types
    [operation.selections]

end Request

/-- The forest of an operation, with a given narrowing. -/
def Operation.forestBy (operation : Operation) (narrowing : Narrowing) (schema : Schema)
    (options : Options) (fragments : Fragments) (bindings : Members)
    (sources : Option TracedInputs) : Outcome Forest := do
  let request : Request := ⟨schema, fragments, bindings, sources⟩
  let trees ← request.growBy narrowing options operation
  pure (.ofTrees trees)

/-! ## Narrowing is guarded -/

namespace Request

variable {request : Request} {narrowing : Narrowing}

/-- A type condition of a document narrows a set alike that is not empty. -/
theorem narrowing_eq_restrict (halike : request.schema.NarrowsAlike narrowing) {types : TypeSet}
    (hsome : types.isEmpty = false) (condition : Name) :
    (request.schema.compositeOf condition >>= fun composite => narrowing types composite)
      = request.restrict types condition :=
  congrArg _ (funext fun composite => halike types composite hsome)

section Walks

variable {σ : Type} {visit : Visit σ} {enter : Name → TypeSet → σ → Outcome σ}

mutual

theorem walkSelectionBy_eq (halike : request.schema.NarrowsAlike narrowing) :
    ∀ (selection : Selection) (types : TypeSet) (state : σ),
    walkSelectionBy request narrowing enter visit selection types state
      = walkSelection request enter visit selection types state
  | .field field, _, _ => by rw [walkSelectionBy.eq_def]
  | .spread fragment directives, _, _ => by rw [walkSelectionBy.eq_def]
  | .inline condition directives selections, types, state => by
    rw [walkSelectionBy.eq_def, walkSelection.eq_def]
    dsimp only
    refine congrArg _ (funext fun included => ?_)
    cases included with
    | false => rfl
    | true =>
      cases hempty : types.isEmpty with
      | true => rfl
      | false =>
        cases condition with
        | none => exact walkSelectionsBy_eq halike selections types state
        | some condition =>
          simp only [walkSelectionsBy_eq halike selections, ← narrowing_eq_restrict halike hempty,
            bind_assoc]

theorem walkSelectionsBy_eq (halike : request.schema.NarrowsAlike narrowing) :
    ∀ (selections : List Selection) (types : TypeSet) (state : σ),
    walkSelectionsBy request narrowing enter visit selections types state
      = walkSelections request enter visit selections types state
  | [], _, _ => by rw [walkSelectionsBy, walkSelections]
  | selection :: selections, types, state => by
    rw [walkSelectionsBy, walkSelections, walkSelectionBy_eq halike selection]
    exact congrArg _ (funext fun next => walkSelectionsBy_eq halike selections types next)

end

variable (halike : request.schema.NarrowsAlike narrowing)

include halike

theorem enterFragmentBy_eq (nesting : Nat) :
    enterFragmentBy request narrowing visit nesting = enterFragment request visit nesting := by
  induction nesting with
  | zero => rfl
  | succ nesting ih =>
    funext name types state
    rw [enterFragmentBy, enterFragment, ih]
    cases request.fragments.get? name with
    | none => rfl
    | some fragment =>
      dsimp only
      refine congrArg _ (funext fun included => ?_)
      cases included with
      | false => rfl
      | true =>
        cases hempty : types.isEmpty with
        | true => rfl
        | false =>
          simp only [walkSelectionsBy_eq halike, ← narrowing_eq_restrict halike hempty, bind_assoc]

theorem walkBy_eq (types : TypeSet) (selections : List Selection) (state : σ) :
    request.walkBy narrowing visit types selections state
      = request.walk visit types selections state := by
  rw [walkBy, walk, enterFragmentBy_eq halike, walkSelectionsBy_eq halike]

end Walks

variable {options : Options} (halike : request.schema.NarrowsAlike narrowing)

include halike

theorem levelBy_eq (types : TypeSet) (sets : List (List Selection)) :
    request.levelBy narrowing types sets = request.level types sets := by
  simp only [levelBy, level, walkBy_eq halike]

theorem growLevelBy_eq (levels depth : Nat) :
    request.growLevelBy narrowing options levels depth
      = request.growLevel options levels depth := by
  induction levels generalizing depth with
  | zero => rfl
  | succ levels ih =>
    funext types sets
    rw [growLevelBy, growLevel, levelBy_eq halike, ih]

end Request

/-- All that narrow alike what is not empty make the same forest, or fail with the same error. -/
theorem Operation.forestBy_eq {schema : Schema} {narrowing : Narrowing}
    (halike : schema.NarrowsAlike narrowing) (operation : Operation) (options : Options)
    (fragments : Fragments) (bindings : Members) (sources : Option TracedInputs) :
    operation.forestBy narrowing schema options fragments bindings sources
      = operation.forestWith schema options fragments bindings sources := by
  rw [forestWith_eq_grow, forestBy]
  dsimp only [Request.growBy, Request.grow]
  rw [Request.growLevelBy_eq halike]

/-- Narrowing is intersection with the types that a condition applies to. Conditions that each find
something left leave of a set the types that all of them apply to, in the order of the set; more of
them leave fewer, and the same ones in another order or more than once leave the same. An interface
stands for the objects that declare it, in the order of the schema. Operations have the same forest,
or fail with the same error, if they are walked with the plain intersection in place of narrowing;
of it the empty set stays empty. -/
theorem Schema.restrict_intersects (schema : Schema) :
    (∀ types conditions, schema.DefinesAll conditions → schema.LeavesSome types conditions →
        ∃ left, conditions.foldlM schema.restrict types = .ok left
          ∧ left.names = types.names.filter (fun type =>
            conditions.all fun condition => schema.appliesTo condition.name type)
          ∧ (∀ before after between, conditions = before ++ after →
            before.foldlM schema.restrict types = .ok between →
            left.names.Sublist between.names)
          ∧ ∀ others, (∀ condition, condition ∈ others ↔ condition ∈ conditions) →
            left.isEmpty = false ∨ schema.LeavesSome types others →
            others.foldlM schema.restrict types = .ok left)
      ∧ (∀ interface, ∃ objects, schema.possibleTypes (.interface interface) = .ok objects
        ∧ objects.names.Sublist (schema.types.map (·.1))
        ∧ ∀ object, object ∈ objects ↔ schema.implements object interface = true)
      ∧ (∀ condition left, schema.intersect .empty condition = .ok left → left = .empty)
      ∧ ∀ (operation : Operation) (options : Options) (fragments : Fragments) (bindings : Members)
        (sources : Option TracedInputs),
        operation.forestBy schema.restrict schema options fragments bindings sources
            = operation.forestWith schema options fragments bindings sources
          ∧ operation.forestBy schema.intersect schema options fragments bindings sources
            = operation.forestWith schema options fragments bindings sources := by
  refine ⟨fun types conditions hdefined hsome => ?_, fun interface => ?_,
    fun condition left => intersect_empty,
    fun operation options fragments bindings sources => ⟨?_, ?_⟩⟩
  · refine ⟨schema.passing types conditions, foldlM_restrict hdefined hsome, rfl, ?_,
      fun others => foldlM_restrict_congr hdefined⟩
    rintro before after between rfl hbetween
    have hbefore : schema.DefinesAll before := fun condition hmem =>
      hdefined condition (List.mem_append_left _ hmem)
    rw [foldlM_restrict hbefore hsome.of_append] at hbetween
    obtain rfl := Except.ok.inj hbetween
    rw [passing_append]
    exact List.filter_sublist
  · exact ⟨_, rfl, schema.objectsImplementing_sublist interface,
      fun object => mem_objectsImplementing⟩
  · exact operation.forestBy_eq schema.narrowsAlike_restrict options fragments bindings sources
  · exact operation.forestBy_eq schema.narrowsAlike_intersect options fragments bindings sources

/-! ## A sample

A dog is no search result, so what is selected on cats below is pruned. -/

namespace Pets

/-- `type Query { pets: [Pet] }`, where `Dog` and `Cat` are `Pet` and `Named`, `Person` is `Named`,
and a `SearchResult` is a `Person` or a `Cat`. -/
def schema : Schema where
  types := Schema.builtInTypes ++ [
    ("Query", .object [] [⟨"pets", [], .list (.named "Pet" false) false⟩]),
    ("Pet", .interface [] [⟨"name", [], .named "String" false⟩]),
    ("Named", .interface [] [⟨"name", [], .named "String" false⟩]),
    ("Dog", .object ["Pet", "Named"] [⟨"name", [], .named "String" false⟩]),
    ("Cat", .object ["Pet", "Named"] [⟨"name", [], .named "String" false⟩]),
    ("Person", .object ["Named"] [⟨"name", [], .named "String" false⟩]),
    ("SearchResult", .union ["Person", "Cat"])]
  query := some "Query"
  mutation := none
  subscription := none
  directives := Schema.builtInDirectives

/-- The object types of `Pet`. -/
def pets : TypeSet := .ofList ["Dog", "Cat"]

def named : CompositeType := .interface "Named"
def searchResult : CompositeType := .union "SearchResult"

/-- `{ pets { ... on Dog { ... on SearchResult { ... on Cat { name } } }
... on SearchResult { name } } }` -/
def operation : Operation :=
  ⟨none, "Query", [], [.field (Sample.plain 0 "pets" [
    .inline "Dog" [] [.inline "SearchResult" [] [.inline "Cat" [] [
      .field (Sample.plain 1 "name" [])]]],
    .inline "SearchResult" [] [.field (Sample.plain 2 "name" [])]])]⟩

/-- Of the pets, cats are search results, however often and in whatever order this is asked. Nothing
is selected on the cats below dogs, so the forest has the pets and the names of cats only. -/
theorem pets_narrowed :
    (∃ left, [named, searchResult].foldlM schema.restrict pets = .ok left ∧ left.names = ["Cat"]
        ∧ [searchResult, named, searchResult].foldlM schema.restrict pets = .ok left)
      ∧ (∃ objects, schema.possibleTypes named = .ok objects ∧ "Person" ∈ objects)
      ∧ ∃ forest, operation.forestBy schema.intersect schema {} [] [] none = .ok forest
        ∧ forest.size = 2 := by
  obtain ⟨hchains, hinterfaces, -, hforests⟩ := schema.restrict_intersects
  have hdefined : schema.DefinesAll [named, searchResult] :=
    List.forall_mem_cons.2 ⟨rfl, List.forall_mem_singleton.2 rfl⟩
  have hsome : schema.LeavesSome pets [named, searchResult] :=
    Schema.leavesSome_of_passing hdefined rfl
  refine ⟨?_, ?_, ?_⟩
  · obtain ⟨left, hleft, hnames, -, hothers⟩ := hchains pets [named, searchResult] hdefined hsome
    have hcats : left.names = ["Cat"] := hnames
    refine ⟨left, hleft, hcats, hothers _ (fun condition => ?_) (.inl ?_)⟩
    · simp only [List.mem_cons, List.not_mem_nil, or_false]
      tauto
    · rw [TypeSet.isEmpty, hcats]
      rfl
  · obtain ⟨objects, hobjects, -, hmem⟩ := hinterfaces "Named"
    exact ⟨objects, hobjects, (hmem "Person").2 rfl⟩
  · obtain ⟨forest, hforest, hsize⟩ : ∃ forest,
        operation.forestWith schema {} [] [] none = .ok forest ∧ forest.size = 2 :=
      ⟨_, rfl, rfl⟩
    exact ⟨forest, (hforests operation {} [] [] none).2.trans hforest, hsize⟩

/-- Behind a condition that leaves nothing, the next one lets in all that it applies to. -/
example : [CompositeType.object "Dog", searchResult, named].foldlM schema.restrict pets
    = .ok (.ofList ["Dog", "Cat", "Person"]) := rfl

end Pets

end SelectionForest
