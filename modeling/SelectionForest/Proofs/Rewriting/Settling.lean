import SelectionForest.Proofs.Conditions
import SelectionForest.Proofs.Forest.Levels
import SelectionForest.Proofs.Forest.Mirroring

/-!
# Conditions that are settled

A condition is static if it is a boolean literal or a variable (`Directive.isStatic`). Once the
variables have values, static conditions can be settled: what they exclude is left out of the
document, at any depth, and the conditions themselves are left out of what stays
(`settledOf`, `Fragments.settled`). A spread is left out if its own conditions exclude it, or those
of its fragment do.

Reading static conditions does not fail, and excludes what one of them does
(`isIncluded_of_static`). So settling them changes neither the steps of a walk
(`Request.steps_settled`) nor the forest (`forestWith_settled`).
-/

namespace SelectionForest

/-! ## Documents -/

mutual

/-- The directives of a selection, at any depth. -/
def Selection.allDirectives : Selection → List Directive
  | .field field => field.allDirectives
  | .inline _ directives selections => directives ++ directivesOf selections
  | .spread _ directives => directives

/-- The directives of a field, at any depth. -/
def Field.allDirectives : Field → List Directive
  | ⟨_, _, _, _, directives, selections⟩ => directives ++ directivesOf selections

/-- The directives of selections, at any depth. -/
def directivesOf : List Selection → List Directive
  | [] => []
  | selection :: selections => selection.allDirectives ++ directivesOf selections

end

/-- The directives of a fragment, at any depth. -/
def Fragment.allDirectives (fragment : Fragment) : List Directive :=
  fragment.directives ++ directivesOf fragment.selections

/-- The directives of selections and of the fragments, at any depth. -/
def Fragments.allDirectives (fragments : Fragments) (selections : List Selection) :
    List Directive :=
  directivesOf selections ++ fragments.flatMap Fragment.allDirectives

/-- Whether the conditions of a fragment exclude all its spreads. -/
def Fragments.exclude (fragments : Fragments) (bindings : Members) (name : Name) : Bool :=
  (fragments.get? name).any fun fragment => SelectionForest.exclude bindings fragment.directives

mutual

/-- What settled conditions leave of a selection. -/
def Selection.settled (bindings : Members) (fragments : Fragments) : Selection → List Selection
  | .field field =>
    if exclude bindings field.directives then [] else [.field (field.settled bindings fragments)]
  | .inline condition directives selections =>
    if exclude bindings directives then []
    else [.inline condition (withoutConditions directives) (settledOf bindings fragments selections)]
  | .spread name directives =>
    if exclude bindings directives || fragments.exclude bindings name then []
    else [.spread name (withoutConditions directives)]

/-- A field without conditions, and with what settled conditions leave below it. -/
def Field.settled (bindings : Members) (fragments : Fragments) : Field → Field
  | ⟨place, aliasName, name, arguments, directives, selections⟩ =>
    ⟨place, aliasName, name, arguments, withoutConditions directives,
      settledOf bindings fragments selections⟩

/-- What settled conditions leave of selections. -/
def settledOf (bindings : Members) (fragments : Fragments) : List Selection → List Selection
  | [] => []
  | selection :: selections =>
    selection.settled bindings fragments ++ settledOf bindings fragments selections

end

theorem Field.settled_head (bindings : Members) (fragments : Fragments) :
    ∀ field : Field, field.SameHead (field.settled bindings fragments)
  | ⟨_, _, _, _, _, _⟩ => ⟨rfl, rfl, rfl⟩

/-- A fragment without conditions, and with what settled conditions leave of its selections. -/
def Fragment.settled (bindings : Members) (fragments : Fragments) (fragment : Fragment) :
    Fragment :=
  { fragment with
    directives := withoutConditions fragment.directives
    selections := settledOf bindings fragments fragment.selections }

namespace Fragments

variable {bindings : Members} {fragments : Fragments}

/-- The fragments with their conditions settled. -/
def settled (bindings : Members) (fragments : Fragments) : Fragments :=
  fragments.map (·.settled bindings fragments)

theorem get?_settled (name : Name) : (fragments.settled bindings).get? name
    = (fragments.get? name).map (·.settled bindings fragments) := by
  rw [get?, settled, List.find?_map]
  rfl

/-- Fields stand in place of those that they settle, and none is copied. -/
def settling (bindings : Members) (fragments : Fragments) : Pairing :=
  .withoutCopies
    (fun field other =>
      areStatic field.allDirectives = true ∧ other = field.settled bindings fragments)
    fun h => h.2 ▸ Field.settled_head ..

/-! ## Steps -/

mutual

theorem spreads_settled_subset : ∀ (selection : Selection),
    spreadsOf (selection.settled bindings fragments) ⊆ selection.spreads
  | .field ⟨place, aliasName, name, arguments, directives, selections⟩ => by
    rw [Selection.settled]
    split
    · exact List.nil_subset _
    · rw [spreadsOf, spreadsOf, List.append_nil]
      exact spreadsOf_settledOf_subset selections
  | .inline condition directives selections => by
    rw [Selection.settled]
    split
    · exact List.nil_subset _
    · rw [spreadsOf, spreadsOf, List.append_nil]
      exact spreadsOf_settledOf_subset selections
  | .spread name directives => by
    rw [Selection.settled]
    split
    · exact List.nil_subset _
    · exact List.Subset.refl _

/-- Settling conditions adds no spread. -/
theorem spreadsOf_settledOf_subset : ∀ (selections : List Selection),
    spreadsOf (settledOf bindings fragments selections) ⊆ spreadsOf selections
  | [] => List.Subset.refl _
  | selection :: selections => by
    rw [settledOf, spreadsOf_append, spreadsOf]
    exact List.append_subset.2
      ⟨List.Subset.trans (spreads_settled_subset selection) (List.subset_append_left _ _),
        List.Subset.trans (spreadsOf_settledOf_subset selections) (List.subset_append_right _ _)⟩

end

theorem AreAcyclic.settled (hacyclic : fragments.AreAcyclic) (bindings : Members) :
    (fragments.settled bindings).AreAcyclic := by
  refine hacyclic.of_spreads fun name other ⟨fragment, hget, hother⟩ => ?_
  rw [get?_settled] at hget
  obtain ⟨original, horiginal, rfl⟩ := Option.map_eq_some_iff.1 hget
  exact ⟨original, horiginal, spreadsOf_settledOf_subset original.selections hother⟩

end Fragments

namespace Request

variable {request : Request}

/-- Settled conditions leave the steps below them as they are, or there are none. -/
theorem stepsUnder_settled (condition : Option Name) {directives : List Directive}
    (hstatic : areStatic directives = true) (types : TypeSet) (next : TypeSet → List Step) :
    request.stepsUnder condition directives types next
      = if exclude request.bindings directives then []
        else request.stepsUnder condition (withoutConditions directives) types next := by
  rw [stepsUnder, stepsUnder, isIncluded_of_static hstatic,
    isIncluded_withoutConditions]
  cases exclude request.bindings directives <;> rfl

/-- Whether entering a fragment has the same steps once its conditions are settled. -/
def EntersSettled (request : Request) (enter enter' : Name → TypeSet → List Step) (name : Name) :
    Prop :=
  ∀ types, if request.fragments.exclude request.bindings name then enter name types = []
    else (request.fragments.settling request.bindings).Steps (enter name types) (enter' name types)

variable {enter enter' : Name → TypeSet → List Step}

mutual

theorem stepsOfSelection_settled : ∀ (selection : Selection),
    areStatic selection.allDirectives = true →
    (∀ name ∈ selection.spreads, request.EntersSettled enter enter' name) → ∀ types : TypeSet,
    (request.fragments.settling request.bindings).Steps
      (request.stepsOfSelection enter selection types)
      ((request.spreading (request.fragments.settled request.bindings)).stepsOf enter'
        (selection.settled request.bindings request.fragments) types)
  | .field ⟨place, aliasName, name, arguments, directives, selections⟩, hstatic, _, types => by
    have ⟨hown, _⟩ := areStatic_append.1 hstatic
    rw [stepsOfSelection, stepsUnder_settled none hown, Selection.settled]
    by_cases hexclude : exclude request.bindings directives
    · rw [if_pos hexclude, if_pos hexclude]
      exact .nil
    · have hmatched : (request.fragments.settling request.bindings).matched
          ⟨place, aliasName, name, arguments, directives, selections⟩ _ := ⟨hstatic, rfl⟩
      rw [if_neg hexclude, if_neg hexclude, stepsOf_singleton, stepsOfSelection]
      exact Pairing.Steps.under (Pairing.Steps.visit hmatched) types
  | .inline condition directives selections, hstatic, henter, types => by
    have ⟨hown, hinner⟩ := areStatic_append.1 hstatic
    rw [stepsOfSelection, stepsUnder_settled condition hown, Selection.settled]
    by_cases hexclude : exclude request.bindings directives
    · rw [if_pos hexclude, if_pos hexclude]
      exact .nil
    · rw [if_neg hexclude, if_neg hexclude, stepsOf_singleton, stepsOfSelection]
      exact Pairing.Steps.under (stepsOf_settled selections hinner henter) types
  | .spread name directives, hstatic, henter, types => by
    have hown : areStatic directives = true := hstatic
    have hname := henter name List.mem_cons_self types
    rw [stepsOfSelection, isIncluded_of_static hown, Selection.settled]
    by_cases hexclude : exclude request.bindings directives
    · rw [hexclude, Bool.true_or, if_pos rfl]
      exact .nil
    · rw [Bool.not_eq_true] at hexclude
      rw [hexclude, Bool.false_or]
      by_cases hfragment : request.fragments.exclude request.bindings name
      · -- The spread is left out, since its fragment has no steps.
        rw [if_pos hfragment] at hname ⊢
        show Pairing.Steps _ (enter name types) []
        rw [hname]
        exact .nil
      · rw [if_neg hfragment] at hname ⊢
        rw [stepsOf_singleton, stepsOfSelection]
        show Pairing.Steps _ _ (stepsAfter (isIncluded request.bindings _) _)
        rw [isIncluded_withoutConditions]
        exact hname

theorem stepsOf_settled : ∀ (selections : List Selection),
    areStatic (directivesOf selections) = true →
    (∀ name ∈ spreadsOf selections, request.EntersSettled enter enter' name) → ∀ types : TypeSet,
    (request.fragments.settling request.bindings).Steps (request.stepsOf enter selections types)
      ((request.spreading (request.fragments.settled request.bindings)).stepsOf enter'
        (settledOf request.bindings request.fragments selections) types)
  | [], _, _, _ => .nil
  | selection :: selections, hstatic, henter, types => by
    rw [directivesOf, areStatic_append] at hstatic
    rw [spreadsOf, List.forall_mem_append] at henter
    rw [stepsOf, settledOf, stepsOf_append]
    exact (stepsOfSelection_settled selection hstatic.1 henter.1 types).append
      (stepsOf_settled selections hstatic.2 henter.2 types)

end

/-- Entering a fragment has the same steps once its conditions are settled, if a walk may enter all
fragments that it reaches. -/
theorem enterSteps_settled (hacyclic : request.fragments.AreAcyclic)
    (hstatic : areStatic (request.fragments.flatMap Fragment.allDirectives) = true) {nesting : Nat}
    {name : Name} (hnesting : request.fragments.height name < nesting) :
    request.EntersSettled (request.enterSteps nesting)
      ((request.spreading (request.fragments.settled request.bindings)).enterSteps nesting)
      name := by
  induction nesting generalizing name with
  | zero => omega
  | succ nesting ih =>
    intro types
    rw [Fragments.exclude, enterSteps, enterSteps, fragments_spreading, Fragments.get?_settled]
    cases hget : request.fragments.get? name with
    | none => exact Pairing.Steps.error _ _
    | some fragment =>
      have hall := hstatic
      rw [areStatic, List.all_flatMap, List.all_eq_true] at hall
      have hfragment := hall fragment (List.mem_of_find?_eq_some hget)
      rw [Fragment.allDirectives, ← areStatic, areStatic_append] at hfragment
      have hinner (left : TypeSet) := stepsOf_settled fragment.selections hfragment.2
        (fun other hother => ih (Nat.lt_of_lt_of_le (hacyclic.height_lt ⟨fragment, hget, hother⟩)
          (Nat.le_of_lt_succ hnesting))) left
      rw [Option.any_some]
      dsimp only [Option.map_some]
      rw [stepsUnder_settled _ hfragment.1]
      by_cases hexclude : exclude request.bindings fragment.directives
      · rw [if_pos hexclude, if_pos hexclude]
      · rw [if_neg hexclude, if_neg hexclude]
        exact Pairing.Steps.under hinner types

/-- A walk through selections has the same steps once all conditions are settled. -/
theorem steps_settled (hacyclic : request.fragments.AreAcyclic) {selections : List Selection}
    (hfragments : areStatic (request.fragments.flatMap Fragment.allDirectives) = true)
    (hstatic : areStatic (directivesOf selections) = true) (types : TypeSet) :
    (request.fragments.settling request.bindings).Steps (request.steps types selections)
      ((request.spreading (request.fragments.settled request.bindings)).steps types
        (settledOf request.bindings request.fragments selections)) := by
  have hlength : (request.fragments.settled request.bindings).length = request.fragments.length :=
    List.length_map _
  rw [steps, steps, nestingBound_spreading hlength]
  refine stepsOf_settled selections hstatic (fun name _ => ?_) types
  exact enterSteps_settled hacyclic hfragments (request.height_lt_nestingBound name types)

theorem mirrors_settled (hacyclic : request.fragments.AreAcyclic)
    (hfragments : areStatic (request.fragments.flatMap Fragment.allDirectives) = true) :
    request.Mirrors (request.fragments.settling request.bindings)
      (request.fragments.settled request.bindings) where
  matched := by
    rintro ⟨place, aliasName, name, arguments, directives, selections⟩ _ ⟨hstatic, rfl⟩ types
    have ⟨_, hbelow⟩ := areStatic_append.1 hstatic
    exact steps_settled hacyclic hfragments hbelow types
  copied h := h.elim

end Request

/-- If all conditions are static and fragments are acyclic, settling the conditions leaves the nodes
of the forest as they are, the roots and the coordinates, and from each merged field only what is
excluded below it is gone; or both operations are refused with the same error. -/
theorem Operation.forestWith_settled {operation : Operation} {schema : Schema} {options : Options}
    {fragments : Fragments} {bindings : Members} {sources : Option TracedInputs}
    (hacyclic : fragments.AreAcyclic)
    (hstatic : areStatic (fragments.allDirectives operation.selections) = true) :
    Agree (Forest.IsLike fun field other => other = field.settled bindings fragments)
      (operation.forestWith schema options fragments bindings sources)
      ({ operation with
        selections := settledOf bindings fragments operation.selections }.forestWith schema options
          (fragments.settled bindings) bindings sources) := by
  rw [Fragments.allDirectives, areStatic_append] at hstatic
  let request : Request := ⟨schema, fragments, bindings, sources⟩
  have hmirrors : request.Mirrors (fragments.settling bindings) (fragments.settled bindings) :=
    request.mirrors_settled hacyclic hstatic.2
  have hsteps (types : TypeSet) : (fragments.settling bindings).Steps
      (request.steps types operation.selections)
      ((request.spreading (fragments.settled bindings)).steps types
        (settledOf bindings fragments operation.selections)) :=
    request.steps_settled hacyclic hstatic.2 hstatic.1 types
  have hagree : Agree (Forest.Mirrors (fragments.settling bindings))
      (operation.forestWith schema options fragments bindings sources)
      ({ operation with
        selections := settledOf bindings fragments operation.selections }.forestWith schema options
          (fragments.settled bindings) bindings sources) :=
    forestWith_mirrors hmirrors hacyclic (hacyclic.settled bindings) rfl hsteps
  exact hagree.imp fun _ _ hforests =>
    (hforests.isLike fun _ _ hcopied => hcopied).imp fun _ _ hmatched => hmatched.2

/-! ## A sample

Fields and fragments that a variable or a literal leaves out. -/

namespace Conditional

/-- A condition on the variable `brief`. -/
def onBrief (name : Name) : Directive := ⟨name, [⟨"if", .variable "brief"⟩]⟩

/-- `fragment ofThing on Thing @skip(if: $brief) { y }` -/
def ofThing : Fragment := ⟨"ofThing", "Thing", [onBrief "skip"], [.field Sample.y]⟩

/-- `child { x ...ofThing }` -/
def child : Field := Sample.plain 1 "child" [.field Sample.x, .spread "ofThing" []]

/-- `{ node { ... on A @include(if: $brief) { child { x ...ofThing } } ... on B @skip(if: true)
{ child { y } } } }` -/
def operation : Operation :=
  ⟨none, "Query", [⟨"brief", .named "Boolean" false, none⟩], [.field (Sample.plain 0 "node" [
    .inline "A" [onBrief "include"] [.field child],
    .inline "B" [⟨"skip", [⟨"if", .boolean true⟩]⟩] [.field Sample.childOfB]])]⟩

/-- The variable is true. -/
def bindings : Members := [("brief", .bool true)]

/-- `{ node { ... on A { child { x } } } }` -/
def settled : List Selection :=
  [.field (Sample.plain 0 "node" [
    .inline "A" [] [.field (Sample.plain 1 "child" [.field Sample.x])]])]

theorem settledOf_eq : settledOf bindings [ofThing] operation.selections = settled := rfl

theorem areAcyclic : Fragments.AreAcyclic [ofThing] :=
  .of_rank (fun _ => 0) (by decide +kernel)

/-- What is left without the excluded fields has the three nodes that the operation has. -/
theorem settled_forest :
    ∃ forest other,
      operation.forestWith Sample.schema {} [ofThing] bindings none = .ok forest
        ∧ { operation with selections := settled }.forestWith Sample.schema {}
          (Fragments.settled bindings [ofThing]) bindings none = .ok other
        ∧ forest.size = 3
        ∧ forest.IsLike (fun field other => other = field.settled bindings [ofThing]) other := by
  have hagree : Agree _ (operation.forestWith Sample.schema {} [ofThing] bindings none)
      ({ operation with
        selections := settledOf bindings [ofThing] operation.selections }.forestWith Sample.schema
          {} (Fragments.settled bindings [ofThing]) bindings none) :=
    Operation.forestWith_settled areAcyclic (by decide +kernel)
  rw [settledOf_eq] at hagree
  obtain ⟨forest, hforest, hsize⟩ : ∃ forest,
      operation.forestWith Sample.schema {} [ofThing] bindings none = .ok forest
        ∧ forest.size = 3 :=
    ⟨_, rfl, rfl⟩
  obtain ⟨other, hother, hlike⟩ := hagree.exists_right hforest
  exact ⟨forest, other, hforest, hother, hsize, hlike⟩

end Conditional

end SelectionForest
