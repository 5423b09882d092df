import SelectionForest.Proofs.Walk.Occurrences

/-!
# The steps of a walk

A walk comes to one field after the other, and may end with an error on the way. Its steps list
both, without a state (`Request.steps`): the fields that it visits with their object types, and the
errors that end it. Nothing behind an error is come to, but the steps go on there, as if the walk
did.

* `walk_eq_visitSteps`: a walk visits its steps, up to the first error;
* `level_eq_visitSteps`: a level comes from the steps of all its selection sets;
* `stepsOf_append`, `steps_flatMap`: the steps of selections that stand one behind the other.
-/

namespace SelectionForest

/-- What a walk comes to: a field that it visits, or the error that ends it. -/
abbrev Step := Outcome Occurrence

/-- The steps that depend on a result, or the error in its place. -/
def stepsAfter {α : Type} (result : Outcome α) (next : α → List Step) : List Step :=
  match result with
  | .ok value => next value
  | .error error => [.error error]

namespace Request

/-- The object types that a type condition leaves of a set, if there is a condition. -/
def narrow (request : Request) (types : TypeSet) : Option Name → Outcome TypeSet
  | some condition => request.restrict types condition
  | none => .ok types

/-- The steps below directives and a type condition. -/
def stepsUnder (request : Request) (condition : Option Name) (directives : List Directive)
    (types : TypeSet) (next : TypeSet → List Step) : List Step :=
  stepsAfter (isIncluded request.bindings directives) fun included =>
    if included && !types.isEmpty then stepsAfter (request.narrow types condition) next else []

mutual

/-- The steps of a walk through a selection; `enter` has those through a spread fragment. -/
def stepsOfSelection (request : Request) (enter : Name → TypeSet → List Step) :
    Selection → TypeSet → List Step
  | .field field, types =>
    request.stepsUnder none field.directives types fun types => [.ok ⟨field, types⟩]
  | .inline condition directives selections, types =>
    request.stepsUnder condition directives types (stepsOf request enter selections)
  | .spread fragment directives, types =>
    stepsAfter (isIncluded request.bindings directives) fun included =>
      if included then enter fragment types else []

/-- The steps of a walk through selections. -/
def stepsOf (request : Request) (enter : Name → TypeSet → List Step) :
    List Selection → TypeSet → List Step
  | [], _ => []
  | selection :: selections, types =>
    stepsOfSelection request enter selection types ++ stepsOf request enter selections types

end

/-- The steps of a walk through a fragment, entering at most `nesting` fragments one inside the
other. -/
def enterSteps (request : Request) : Nat → Name → TypeSet → List Step
  | 0, _, _ => [.error .endless]
  | nesting + 1, name, types =>
    match request.fragments.get? name with
    | none => [.error (.internal (.undefinedFragment name))]
    | some fragment =>
      request.stepsUnder (some fragment.condition) fragment.directives types
        (request.stepsOf (request.enterSteps nesting) fragment.selections)

/-- The steps of a walk through a selection set. -/
def steps (request : Request) (types : TypeSet) (selections : List Selection) : List Step :=
  request.stepsOf (request.enterSteps (request.nestingBound types)) selections types

variable {request : Request} {enter : Name → TypeSet → List Step}

section Related

variable {P : List Step → List Step → Prop}

/-- Steps that depend on one result are related if they are for each value. -/
theorem stepsAfter_rel {α : Type} (herror : ∀ error, P [.error error] [.error error])
    (result : Outcome α) {next next' : α → List Step} (h : ∀ value, P (next value) (next' value)) :
    P (stepsAfter result next) (stepsAfter result next') := by
  cases result with
  | ok value => exact h value
  | error error => exact herror error

/-- Steps below the same directives and the same type condition are related if those further below
are. -/
theorem stepsUnder_rel (hnil : P [] []) (herror : ∀ error, P [.error error] [.error error])
    (condition : Option Name) (directives : List Directive) (types : TypeSet)
    {next next' : TypeSet → List Step} (h : ∀ left, P (next left) (next' left)) :
    P (request.stepsUnder condition directives types next)
      (request.stepsUnder condition directives types next') := by
  refine stepsAfter_rel herror _ fun included => ?_
  by_cases hincluded : (included && !types.isEmpty) = true
  · rw [if_pos hincluded, if_pos hincluded]
    exact stepsAfter_rel herror _ h
  · rw [if_neg hincluded, if_neg hincluded]
    exact hnil

end Related

theorem stepsOf_append (xs ys : List Selection) (types : TypeSet) :
    request.stepsOf enter (xs ++ ys) types
      = request.stepsOf enter xs types ++ request.stepsOf enter ys types := by
  induction xs with
  | nil => rfl
  | cons x xs ih => rw [List.cons_append, stepsOf, stepsOf, ih, List.append_assoc]

theorem stepsOf_singleton (selection : Selection) (types : TypeSet) :
    request.stepsOf enter [selection] types = request.stepsOfSelection enter selection types := by
  rw [stepsOf, stepsOf, List.append_nil]

theorem stepsOf_concat (selections : List Selection) (selection : Selection) (types : TypeSet) :
    request.stepsOf enter (selections ++ [selection]) types
      = request.stepsOf enter selections types
        ++ request.stepsOfSelection enter selection types := by
  rw [stepsOf_append, stepsOf_singleton]

theorem steps_append (types : TypeSet) (xs ys : List Selection) :
    request.steps types (xs ++ ys) = request.steps types xs ++ request.steps types ys :=
  stepsOf_append xs ys types

/-- The steps of the selection sets of several fields. -/
theorem steps_flatMap (fields : List Field) (types : TypeSet) :
    request.steps types (fields.flatMap (·.selections))
      = fields.flatMap fun field => request.steps types field.selections := by
  induction fields with
  | nil => rfl
  | cons field fields ih =>
    rw [List.flatMap_cons, steps_append, ih, List.flatMap_cons]

/-! ## Visiting steps -/

section Visits

variable {σ : Type} {visit : Visit σ}

/-- Visits the fields that are come to, up to the first error. -/
def visitSteps (visit : Visit σ) (steps : List Step) (state : σ) : Outcome σ :=
  steps.foldlM (fun state step => do visitAt visit state (← step)) state

theorem visitSteps_append (steps others : List Step) (state : σ) :
    visitSteps visit (steps ++ others) state
      = visitSteps visit steps state >>= visitSteps visit others := by
  rw [visitSteps, List.foldlM_append]
  rfl

theorem visitSteps_singleton (step : Step) (state : σ) :
    visitSteps visit [step] state = step >>= visitAt visit state := by
  rw [visitSteps, List.foldlM_cons]
  exact bind_pure _

theorem visitSteps_stepsAfter {α : Type} (result : Outcome α) (next : α → List Step) (state : σ) :
    visitSteps visit (stepsAfter result next) state
      = result >>= fun value => visitSteps visit (next value) state := by
  cases result <;> rfl

/-- Visiting the steps below directives and a type condition: both are tested, the empty set of
object types in between. -/
theorem visitSteps_stepsUnder (condition : Option Name) (directives : List Directive)
    (types : TypeSet) (next : TypeSet → List Step) (state : σ) :
    visitSteps visit (request.stepsUnder condition directives types next) state
      = (do
        if ← isIncluded request.bindings directives then
          if types.isEmpty then pure state
          else
            let left ← request.narrow types condition
            visitSteps visit (next left) state
        else pure state) := by
  rw [stepsUnder, visitSteps_stepsAfter]
  refine congrArg _ (funext fun included => ?_)
  cases included with
  | false => rfl
  | true =>
    cases hempty : types.isEmpty with
    | true => rfl
    | false => exact visitSteps_stepsAfter ..

variable {enterWalk : Name → TypeSet → σ → Outcome σ}

mutual

theorem walkSelection_eq (henter : ∀ name types state,
    enterWalk name types state = visitSteps visit (enter name types) state) :
    ∀ (selection : Selection) (types : TypeSet) (state : σ),
    walkSelection request enterWalk visit selection types state
      = visitSteps visit (request.stepsOfSelection enter selection types) state
  | .field field, types, state => by
    rw [walkSelection, stepsOfSelection, visitSteps_stepsUnder]
    refine congrArg _ (funext fun included => ?_)
    cases included with
    | false => rfl
    | true =>
      cases hempty : types.isEmpty with
      | true =>
        rw [TypeSet.first?_eq_none.2 hempty]
        rfl
      | false =>
        obtain ⟨first, hfirst, -⟩ := TypeSet.exists_first hempty
        simp only [if_true, Bool.false_eq_true, if_false]
        exact (visitSteps_singleton (.ok ⟨field, types⟩) state).symm
  | .inline condition directives selections, types, state => by
    rw [stepsOfSelection, visitSteps_stepsUnder, walkSelection.eq_def]
    dsimp only
    refine congrArg _ (funext fun included => ?_)
    cases included with
    | false => rfl
    | true =>
      cases condition with
      | none =>
        rw [walkSelections_eq henter selections types state]
        rfl
      | some condition =>
        simp only [walkSelections_eq henter selections]
        rfl
  | .spread fragment directives, types, state => by
    rw [walkSelection, stepsOfSelection, visitSteps_stepsAfter]
    refine congrArg _ (funext fun included => ?_)
    cases included with
    | false => rfl
    | true => exact henter fragment types state

theorem walkSelections_eq (henter : ∀ name types state,
    enterWalk name types state = visitSteps visit (enter name types) state) :
    ∀ (selections : List Selection) (types : TypeSet) (state : σ),
    walkSelections request enterWalk visit selections types state
      = visitSteps visit (request.stepsOf enter selections types) state
  | [], _, _ => by
    rw [walkSelections, stepsOf]
    rfl
  | selection :: selections, types, state => by
    rw [walkSelections, stepsOf, visitSteps_append, walkSelection_eq henter selection types state]
    simp only [walkSelections_eq henter selections]

end

theorem enterFragment_eq (nesting : Nat) : ∀ (name : Name) (types : TypeSet) (state : σ),
    enterFragment request visit nesting name types state
      = visitSteps visit (request.enterSteps nesting name types) state := by
  induction nesting with
  | zero => exact fun _ _ _ => rfl
  | succ nesting ih =>
    intro name types state
    rw [enterFragment, enterSteps]
    cases request.fragments.get? name with
    | none => rfl
    | some fragment =>
      rw [visitSteps_stepsUnder]
      simp only [walkSelections_eq ih]
      rfl

/-- A walk visits its steps, up to the first error. -/
theorem walk_eq_visitSteps (types : TypeSet) (selections : List Selection) (state : σ) :
    request.walk visit types selections state
      = visitSteps visit (request.steps types selections) state :=
  walkSelections_eq (enterFragment_eq _) selections types state

end Visits

/-- A level comes from the steps of all its selection sets. -/
theorem level_eq_visitSteps (types : TypeSet) (sets : List (List Selection)) :
    request.level types sets = visitSteps request.add (request.steps types sets.flatten) [] := by
  rw [level]
  generalize ([] : Level) = level
  induction sets generalizing level with
  | nil => rfl
  | cons selections sets ih =>
    rw [List.foldlM_cons, walk_eq_visitSteps, List.flatten_cons, steps_append, visitSteps_append]
    exact congrArg _ (funext ih)

end Request

end SelectionForest
