import SelectionForest.Proofs.Conditions
import SelectionForest.Proofs.Input.Faults
import SelectionForest.Proofs.Walk.Nesting
import SelectionForest.Proofs.Walk.Steps

/-!
# Walks that end

A walk enters fragments, and collects what stands below the fields that it meets only later. So it
ends if no fragment reaches itself through spreads that are not below a field: if the fragments are
acyclic when all that stands below fields is left out (`Fragments.onLevel`).

The model of a walk may enter a number of fragments one inside the other, and gives up beyond that.
Walks with different such bounds are compared (`Request.walkWithin`).

* `walkWithin_eq_walk`: a bound that is more than there are fragments gives the outcome of the walk;
* `steps_proceed`: a walk is ended early only by inputs that do not fit together, and is never given
  up.
-/

namespace SelectionForest

/-! ## Selections on one level -/

mutual

/-- A selection without what stands below fields. -/
def Selection.onLevel : Selection → Selection
  | .field field => .field { field with selections := [] }
  | .inline condition directives selections => .inline condition directives (onLevelOf selections)
  | .spread fragment directives => .spread fragment directives

/-- Selections without what stands below fields. -/
def onLevelOf : List Selection → List Selection
  | [] => []
  | selection :: selections => selection.onLevel :: onLevelOf selections

end

/-- A fragment without what stands below fields. -/
def Fragment.onLevel (fragment : Fragment) : Fragment :=
  { fragment with selections := onLevelOf fragment.selections }

/-- Fragments without what stands below fields. They are acyclic if no fragment reaches itself
without crossing a field. -/
def Fragments.onLevel (fragments : Fragments) : Fragments := fragments.map Fragment.onLevel

theorem Fragments.get?_onLevel (fragments : Fragments) (name : Name) :
    fragments.onLevel.get? name = (fragments.get? name).map Fragment.onLevel := by
  rw [get?, onLevel, List.find?_map]
  rfl

theorem Fragments.length_onLevel (fragments : Fragments) :
    fragments.onLevel.length = fragments.length :=
  List.length_map _

/-- What a fragment spreads without crossing a field. -/
theorem Fragments.spreads_onLevel {fragments : Fragments} {name other : Name} {fragment : Fragment}
    (h : fragments.get? name = some fragment)
    (hother : other ∈ spreadsOf (onLevelOf fragment.selections)) :
    fragments.onLevel.Spreads name other :=
  ⟨fragment.onLevel, by rw [get?_onLevel, h]; rfl, hother⟩

/-! ## Bounds that have no part in a walk -/

namespace Request

variable {request : Request} {enter enter' : Name → TypeSet → List Step}

mutual

theorem stepsOfSelection_congr : ∀ (selection : Selection),
    (∀ name ∈ selection.onLevel.spreads, enter name = enter' name) → ∀ types : TypeSet,
    request.stepsOfSelection enter selection types = request.stepsOfSelection enter' selection types
  | .field _, _, _ => rfl
  | .inline condition directives selections, h, types => by
    have hinner := funext (stepsOf_congr selections h)
    rw [stepsOfSelection, stepsOfSelection, hinner]
  | .spread name directives, h, types => by
    rw [stepsOfSelection, stepsOfSelection, h name List.mem_cons_self]

/-- The steps of selections depend on what is entered for the spreads on their level only. -/
theorem stepsOf_congr : ∀ (selections : List Selection),
    (∀ name ∈ spreadsOf (onLevelOf selections), enter name = enter' name) → ∀ types : TypeSet,
    request.stepsOf enter selections types = request.stepsOf enter' selections types
  | [], _, _ => rfl
  | selection :: selections, h, types => by
    obtain ⟨hfirst, hrest⟩ := List.forall_mem_append.1 h
    rw [stepsOf, stepsOf, stepsOfSelection_congr selection hfirst, stepsOf_congr selections hrest]

end

section Bounds

variable (hacyclic : request.fragments.onLevel.AreAcyclic)

include hacyclic

/-- What a fragment spreads on its level reaches fewer fragments. -/
theorem height_onLevel_lt {name other : Name} {fragment : Fragment} {nesting : Nat}
    (hget : request.fragments.get? name = some fragment)
    (hother : other ∈ spreadsOf (onLevelOf fragment.selections))
    (h : request.fragments.onLevel.height name < nesting + 1) :
    request.fragments.onLevel.height other < nesting :=
  Nat.lt_of_lt_of_le (hacyclic.height_lt (Fragments.spreads_onLevel hget hother))
    (Nat.le_of_lt_succ h)

/-- Bounds beyond the fragments that are reached on a level give the same steps. -/
theorem enterSteps_congr {nesting more : Nat} {name : Name}
    (hnesting : request.fragments.onLevel.height name < nesting)
    (hmore : request.fragments.onLevel.height name < more) :
    request.enterSteps nesting name = request.enterSteps more name := by
  induction nesting generalizing more name with
  | zero => exact absurd hnesting (Nat.not_lt_zero _)
  | succ nesting ih =>
    obtain ⟨more, rfl⟩ : ∃ n, more = n + 1 := ⟨more - 1, by omega⟩
    funext types
    rw [enterSteps, enterSteps]
    cases hget : request.fragments.get? name with
    | none => rfl
    | some fragment =>
      have hsame : request.stepsOf (request.enterSteps nesting) fragment.selections
          = request.stepsOf (request.enterSteps more) fragment.selections :=
        funext (stepsOf_congr fragment.selections fun other hother =>
          ih (height_onLevel_lt hacyclic hget hother hnesting)
            (height_onLevel_lt hacyclic hget hother hmore))
      dsimp only
      rw [hsame]

end Bounds

theorem height_onLevel_le (request : Request) (name : Name) :
    request.fragments.onLevel.height name ≤ request.fragments.length :=
  Nat.le_trans (Fragments.height_le _ name) (Nat.le_of_eq request.fragments.length_onLevel)

theorem length_lt_nestingBound (request : Request) (types : TypeSet) :
    request.fragments.length < request.nestingBound types :=
  Nat.lt_succ_of_le (Nat.le_mul_of_pos_right _ (Nat.succ_pos _))

section Walks

variable {σ : Type} {visit : Visit σ} (hacyclic : request.fragments.onLevel.AreAcyclic)

/-- Walks through a selection set, entering at most `nesting` fragments one inside the other. -/
def walkWithin (request : Request) (nesting : Nat) (visit : Visit σ) (types : TypeSet)
    (selections : List Selection) (state : σ) : Outcome σ :=
  walkSelections request (enterFragment request visit nesting) visit selections types state

include hacyclic

/-- A walk may enter any number of fragments that is more than there are. -/
theorem walkWithin_eq_walk {nesting : Nat} (hnesting : request.fragments.length < nesting)
    (types : TypeSet) (selections : List Selection) (state : σ) :
    request.walkWithin nesting visit types selections state
      = request.walk visit types selections state := by
  have henter (name : Name) : request.enterSteps nesting name
      = request.enterSteps (request.nestingBound types) name :=
    enterSteps_congr hacyclic (Nat.lt_of_le_of_lt (request.height_onLevel_le name) hnesting)
      (Nat.lt_of_le_of_lt (request.height_onLevel_le name) (request.length_lt_nestingBound types))
  rw [walkWithin, walk, walkSelections_eq (enterFragment_eq nesting),
    walkSelections_eq (enterFragment_eq _), stepsOf_congr selections fun name _ => henter name]

end Walks

/-! ## What ends a walk early -/

theorem isIncluded_fails (bindings : Members) (directives : List Directive) :
    FailsWith (·.isInternal = true) (isIncluded bindings directives) := by
  rcases isIncluded_cases bindings directives with ⟨flaw, h⟩ | h
  · rw [h]
    exact .error rfl
  · rw [h]
    exact .ok trivial

theorem typesOf_fails (request : Request) (name : Name) :
    FailsWith (·.isInternal = true) (request.typesOf name) := by
  have hcomposite : FailsWith (·.isInternal = true) (request.schema.compositeOf name) := by
    unfold Schema.compositeOf
    split
    · exact .ok trivial
    · exact .ok trivial
    · exact .ok trivial
    · exact .error rfl
    · exact .error rfl
  refine hcomposite.bind fun composite => ?_
  cases composite with
  | object => exact .ok trivial
  | interface => exact .ok trivial
  | union name =>
    rw [Schema.possibleTypes]
    split
    · exact .ok trivial
    · exact .error rfl

theorem narrow_fails (request : Request) (types : TypeSet) (condition : Option Name) :
    FailsWith (·.isInternal = true) (request.narrow types condition) := by
  cases condition with
  | none => exact .ok trivial
  | some name =>
    rw [narrow, restrict_eq]
    exact (request.typesOf_fails name).bind fun _ => .ok trivial

/-- Whether steps end a walk only where inputs do not fit together. -/
def Proceed (steps : List Step) : Prop :=
  ∀ step ∈ steps, FailsWith (·.isInternal = true) step

theorem Proceed.stepsAfter {α : Type} {result : Outcome α} {next : α → List Step}
    (hresult : FailsWith (·.isInternal = true) result) (hnext : ∀ value, Proceed (next value)) :
    Proceed (stepsAfter result next) := by
  cases hresult with
  | ok => exact hnext _
  | error herror => exact List.forall_mem_singleton.2 (.error herror)

theorem Proceed.stepsUnder {condition : Option Name} {directives : List Directive}
    {types : TypeSet} {next : TypeSet → List Step} (hnext : ∀ left, Proceed (next left)) :
    Proceed (request.stepsUnder condition directives types next) := by
  refine .stepsAfter (isIncluded_fails _ directives) fun included => ?_
  split
  · exact .stepsAfter (request.narrow_fails types condition) hnext
  · exact List.forall_mem_nil _

mutual

theorem stepsOfSelection_proceed : ∀ (selection : Selection),
    (∀ name ∈ selection.onLevel.spreads, ∀ types, Proceed (enter name types)) → ∀ types : TypeSet,
    Proceed (request.stepsOfSelection enter selection types)
  | .field field, _, types => by
    rw [stepsOfSelection]
    exact .stepsUnder fun _ => List.forall_mem_singleton.2 (.ok trivial)
  | .inline condition directives selections, h, types => by
    rw [stepsOfSelection]
    exact .stepsUnder (stepsOf_proceed selections h)
  | .spread name directives, h, types => by
    rw [stepsOfSelection]
    refine .stepsAfter (isIncluded_fails _ directives) fun included => ?_
    split
    · exact h name List.mem_cons_self types
    · exact List.forall_mem_nil _

/-- The steps of selections proceed if those of the spreads on their level do. -/
theorem stepsOf_proceed : ∀ (selections : List Selection),
    (∀ name ∈ spreadsOf (onLevelOf selections), ∀ types, Proceed (enter name types)) →
    ∀ types : TypeSet, Proceed (request.stepsOf enter selections types)
  | [], _, _ => List.forall_mem_nil _
  | selection :: selections, h, types => by
    obtain ⟨hfirst, hrest⟩ := List.forall_mem_append.1 h
    rw [stepsOf]
    exact List.forall_mem_append.2 ⟨stepsOfSelection_proceed selection hfirst types,
      stepsOf_proceed selections hrest types⟩

end

section Ends

variable (hacyclic : request.fragments.onLevel.AreAcyclic)

include hacyclic

/-- The steps of a fragment proceed if no more fragments are reached on its level than may be
entered. -/
theorem enterSteps_proceed {nesting : Nat} {name : Name}
    (hnesting : request.fragments.onLevel.height name < nesting) (types : TypeSet) :
    Proceed (request.enterSteps nesting name types) := by
  induction nesting generalizing name types with
  | zero => exact absurd hnesting (Nat.not_lt_zero _)
  | succ nesting ih =>
    rw [enterSteps]
    cases hget : request.fragments.get? name with
    | none => exact List.forall_mem_singleton.2 (.error rfl)
    | some fragment =>
      exact .stepsUnder (stepsOf_proceed fragment.selections fun other hother =>
        ih (height_onLevel_lt hacyclic hget hother hnesting))

/-- A walk is ended early only by inputs that do not fit together. -/
theorem steps_proceed (types : TypeSet) (selections : List Selection) :
    Proceed (request.steps types selections) :=
  stepsOf_proceed selections (fun name _ => enterSteps_proceed hacyclic
    (Nat.lt_of_le_of_lt (request.height_onLevel_le name) (request.length_lt_nestingBound types)))
    types

end Ends

end Request

end SelectionForest
