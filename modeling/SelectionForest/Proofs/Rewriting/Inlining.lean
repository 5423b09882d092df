import SelectionForest.Proofs.Conditions
import SelectionForest.Proofs.Forest.Levels
import SelectionForest.Proofs.Forest.Mirroring

/-!
# Fragments in place of their spreads

A spread stands for an inline fragment with the type condition and the selections of its fragment,
and with the directives of both, those of the spread first. Selections are inlined if every spread
is replaced in this way, at any depth and in the fragments too (`Fragments.Inlines`). Selections
whose spreads are of acyclic fragments that are all defined can be inlined (`exists_inlines`).

The steps of a walk stay the same (`Inlines.steps`), and so does the forest
(`forestWith_inlined`).
-/

namespace SelectionForest

namespace Fragments

/-- Whether selections are others with fragments in place of their spreads. -/
inductive Inlines (fragments : Fragments) : List Selection → List Selection → Prop
  | nil : Inlines fragments [] []
  | field {field other : Field} {rest rest' : List Selection} (hhead : field.SameHead other)
      (hdirectives : other.directives = field.directives)
      (hbelow : Inlines fragments field.selections other.selections)
      (hrest : Inlines fragments rest rest') :
      Inlines fragments (.field field :: rest) (.field other :: rest')
  | inline {condition : Option Name} {directives : List Directive}
      {inner inner' rest rest' : List Selection} (hinner : Inlines fragments inner inner')
      (hrest : Inlines fragments rest rest') :
      Inlines fragments (.inline condition directives inner :: rest)
        (.inline condition directives inner' :: rest')
  | spread {name : Name} {directives : List Directive} {fragment : Fragment}
      {inner rest rest' : List Selection} (hget : fragments.get? name = some fragment)
      (hinner : Inlines fragments fragment.selections inner)
      (hrest : Inlines fragments rest rest') :
      Inlines fragments (.spread name directives :: rest)
        (.inline (some fragment.condition) (directives ++ fragment.directives) inner :: rest')

/-- Whether a field is another one with fragments in place of the spreads below it. -/
structure InlinesField (fragments : Fragments) (field other : Field) : Prop where
  head : field.SameHead other
  directives : other.directives = field.directives
  selections : fragments.Inlines field.selections other.selections

/-- Fields stand in place of those that they inline, and none is copied. -/
def inlining (fragments : Fragments) : Pairing :=
  .withoutCopies fragments.InlinesField fun h => h.head

variable {fragments : Fragments}

/-! ## Selections that can be inlined -/

/-- Whether the fragment of a name is defined, and its selections can be inlined. -/
def HasInlined (fragments : Fragments) (name : Name) : Prop :=
  ∃ fragment selections, fragments.get? name = some fragment
    ∧ fragments.Inlines fragment.selections selections

theorem Inlines.append {xs xs' ys ys' : List Selection} (hx : fragments.Inlines xs xs')
    (hy : fragments.Inlines ys ys') : fragments.Inlines (xs ++ ys) (xs' ++ ys') := by
  induction hx with
  | nil => exact hy
  | field hhead hdirectives hbelow _ _ ih => exact .field hhead hdirectives hbelow ih
  | inline hinner _ _ ih => exact .inline hinner ih
  | spread hget hinner _ _ ih => exact .spread hget hinner ih

mutual

theorem exists_inlines_selection : ∀ (selection : Selection),
    (∀ name ∈ selection.spreads, fragments.HasInlined name) →
    ∃ selections, fragments.Inlines [selection] selections
  | .field ⟨place, aliasName, name, arguments, directives, selections⟩, h => by
    obtain ⟨below, hbelow⟩ := exists_inlines_selections selections h
    exact ⟨[.field ⟨place, aliasName, name, arguments, directives, below⟩],
      .field ⟨rfl, rfl, rfl⟩ rfl hbelow .nil⟩
  | .inline condition directives selections, h => by
    obtain ⟨inner, hinner⟩ := exists_inlines_selections selections h
    exact ⟨[.inline condition directives inner], .inline hinner .nil⟩
  | .spread name directives, h => by
    obtain ⟨fragment, inner, hget, hinner⟩ := h name List.mem_cons_self
    exact ⟨_, .spread hget hinner .nil⟩

/-- Selections can be inlined if their fragments can. -/
theorem exists_inlines_selections : ∀ (selections : List Selection),
    (∀ name ∈ spreadsOf selections, fragments.HasInlined name) →
    ∃ others, fragments.Inlines selections others
  | [], _ => ⟨[], .nil⟩
  | selection :: selections, h => by
    rw [spreadsOf, List.forall_mem_append] at h
    obtain ⟨first, hfirst⟩ := exists_inlines_selection selection h.1
    obtain ⟨rest, hrest⟩ := exists_inlines_selections selections h.2
    exact ⟨first ++ rest, hfirst.append hrest⟩

end

/-- Whether the fragments of names are all defined. -/
def defines (fragments : Fragments) (names : List Name) : Bool :=
  names.all fun name => (fragments.get? name).isSome

/-- The names that selections and the fragments spread, at any depth. -/
def allSpreads (fragments : Fragments) (selections : List Selection) : List Name :=
  spreadsOf selections ++ fragments.flatMap fun fragment => spreadsOf fragment.selections

/-- Selections can be inlined if their fragments are acyclic, and all that is spread is defined. -/
theorem exists_inlines (hacyclic : fragments.AreAcyclic) {selections : List Selection}
    (hdefined : fragments.defines (fragments.allSpreads selections) = true) :
    ∃ others, fragments.Inlines selections others := by
  rw [defines, List.all_eq_true, allSpreads, List.forall_mem_append] at hdefined
  obtain ⟨houter, hinside⟩ := hdefined
  have hall (name : Name) : (fragments.get? name).isSome → fragments.HasInlined name := by
    induction name using hacyclic.induction with
    | step name ih =>
      intro hname
      obtain ⟨fragment, hget⟩ := Option.isSome_iff_exists.1 hname
      have hmem := List.mem_of_find?_eq_some hget
      obtain ⟨inner, hinner⟩ := exists_inlines_selections fragment.selections fun other hother =>
        ih other ⟨fragment, hget, hother⟩ (hinside other (List.mem_flatMap_of_mem hmem hother))
      exact ⟨fragment, inner, hget, hinner⟩
  exact exists_inlines_selections selections fun name hname => hall name (houter name hname)

end Fragments

/-! ## Steps -/

namespace Request

theorem stepsUnder_append {request : Request} (condition : Option Name)
    (directives others : List Directive) (types : TypeSet) (next : TypeSet → List Step) :
    request.stepsUnder condition (directives ++ others) types next
      = stepsAfter (isIncluded request.bindings directives) fun included =>
        if included then request.stepsUnder condition others types next else [] := by
  rw [stepsUnder, isIncluded_append]
  cases isIncluded request.bindings directives with
  | error error => rfl
  | ok included => cases included <;> rfl

variable {request : Request}

/-- Fragments in place of their spreads leave the steps of a walk as they are, if the walk may enter
all fragments one inside the other. -/
theorem steps_inlined (hacyclic : request.fragments.AreAcyclic) {enter : Name → TypeSet → List Step}
    {selections others : List Selection} (h : request.fragments.Inlines selections others)
    {nesting : Nat} (hnesting : ∀ name ∈ spreadsOf selections,
      request.fragments.height name < nesting) (types : TypeSet) :
    request.fragments.inlining.Steps
      (request.stepsOf (request.enterSteps nesting) selections types)
      ((request.spreading []).stepsOf enter others types) := by
  induction h generalizing nesting types with
  | nil => exact .nil
  | @field field other _ _ hhead hdirectives hbelow _ _ ihrest =>
    rw [spreadsOf, List.forall_mem_append] at hnesting
    have hfield : request.fragments.InlinesField field other := ⟨hhead, hdirectives, hbelow⟩
    rw [stepsOf, stepsOf, stepsOfSelection, stepsOfSelection, hdirectives]
    refine Padded.append ?_ (ihrest hnesting.2 types)
    exact Pairing.Steps.under (Pairing.Steps.visit hfield) types
  | inline _ _ ihinner ihrest =>
    rw [spreadsOf, List.forall_mem_append] at hnesting
    rw [stepsOf, stepsOf, stepsOfSelection, stepsOfSelection]
    refine Padded.append ?_ (ihrest hnesting.2 types)
    exact Pairing.Steps.under (ihinner hnesting.1) types
  | @spread name directives fragment inner rest rest' hget _ _ ihinner ihrest =>
    rw [spreadsOf, List.forall_mem_append] at hnesting
    have hheight := hnesting.1 name List.mem_cons_self
    obtain ⟨nesting, rfl⟩ : ∃ n, nesting = n + 1 := ⟨nesting - 1, by omega⟩
    rw [stepsOf, stepsOf, stepsOfSelection, stepsOfSelection, stepsUnder_append]
    refine Padded.append ?_ (ihrest hnesting.2 types)
    refine stepsAfter_rel (Pairing.Steps.error _) _ fun included => ?_
    cases included with
    | false => exact .nil
    | true =>
      rw [if_pos rfl, if_pos rfl, enterSteps, hget]
      refine Pairing.Steps.under (ihinner fun other hother => ?_) types
      have hlower := hacyclic.height_lt ⟨fragment, hget, hother⟩
      omega

/-- A walk through selections has the steps of one through the inlined selections. -/
theorem walk_inlined (hacyclic : request.fragments.AreAcyclic) {selections others : List Selection}
    (h : request.fragments.Inlines selections others) (types : TypeSet) :
    request.fragments.inlining.Steps (request.steps types selections)
      ((request.spreading []).steps types others) :=
  steps_inlined hacyclic h (fun name _ => request.height_lt_nestingBound name types) types

theorem mirrors_inlined (hacyclic : request.fragments.AreAcyclic) :
    request.Mirrors request.fragments.inlining [] where
  matched h := walk_inlined hacyclic h.selections
  copied h := h.elim

end Request

/-- The spreads of an operation can be replaced by their fragments, if these are acyclic and all
defined. The forest with fragments in place of their spreads, and without any fragment, has the same
nodes, roots and coordinates, and merged fields that differ by that replacement only; or both
operations are refused with the same error. -/
theorem Operation.forestWith_inlined {operation : Operation} {schema : Schema} {options : Options}
    {fragments : Fragments} {bindings : Members} {sources : Option TracedInputs}
    (hacyclic : fragments.AreAcyclic)
    (hdefined : fragments.defines (fragments.allSpreads operation.selections) = true) :
    (∃ selections, fragments.Inlines operation.selections selections)
      ∧ ∀ selections, fragments.Inlines operation.selections selections →
        Agree (Forest.IsLike fragments.InlinesField)
          (operation.forestWith schema options fragments bindings sources)
          ({ operation with selections }.forestWith schema options [] bindings sources) := by
  refine ⟨Fragments.exists_inlines hacyclic hdefined, fun selections h => ?_⟩
  let request : Request := ⟨schema, fragments, bindings, sources⟩
  have hmirrors : request.Mirrors fragments.inlining [] := request.mirrors_inlined hacyclic
  have hempty : Fragments.AreAcyclic [] := .of_rank (fun _ => 0) (List.forall_mem_nil _)
  have hwalk (types : TypeSet) : fragments.inlining.Steps
      (request.steps types operation.selections) ((request.spreading []).steps types selections) :=
    request.walk_inlined hacyclic h types
  have hagree : Agree (Forest.Mirrors fragments.inlining)
      (operation.forestWith schema options fragments bindings sources)
      ({ operation with selections }.forestWith schema options [] bindings sources) :=
    forestWith_mirrors hmirrors hacyclic hempty rfl hwalk
  exact hagree.imp fun _ _ hforests => hforests.isLike fun _ _ hcopied => hcopied

/-! ## A sample

A fragment with a field whose selections are those of another fragment. -/

namespace Spreading

/-- `fragment ofA on A { child { ...ofThing } }` -/
def ofA : Fragment := ⟨"ofA", "A", [], [.field (Sample.plain 1 "child" [.spread "ofThing" []])]⟩

/-- `fragment ofThing on Thing { x }` -/
def ofThing : Fragment := ⟨"ofThing", "Thing", [], [.field Sample.x]⟩

def fragments : Fragments := [ofA, ofThing]

/-- `{ node { ...ofA } }` -/
def operation : Operation :=
  ⟨none, "Query", [], [.field (Sample.plain 0 "node" [.spread "ofA" []])]⟩

/-- `{ node { ... on A { child { ... on Thing { x } } } } }` -/
def inlined : List Selection :=
  [.field (Sample.plain 0 "node" [.inline "A" []
    [.field (Sample.plain 1 "child" [.inline "Thing" [] [.field Sample.x]])]])]

theorem inlines : fragments.Inlines operation.selections inlined := by
  have hA : fragments.get? "ofA" = some ofA := rfl
  have hThing : fragments.get? "ofThing" = some ofThing := rfl
  have hleaf : fragments.Inlines ofThing.selections [.field Sample.x] :=
    .field ⟨rfl, rfl, rfl⟩ rfl .nil .nil
  refine .field ⟨rfl, rfl, rfl⟩ rfl (.spread hA ?_ .nil) .nil
  exact .field ⟨rfl, rfl, rfl⟩ rfl (.spread hThing hleaf .nil) .nil

theorem areAcyclic : fragments.AreAcyclic :=
  .of_rank (fun name => if name = "ofA" then 1 else 0) (by decide +kernel)

/-- The forest with fragments in place of their spreads has the three nodes that the operation
has. -/
theorem inlined_forest :
    ∃ forest other, operation.forestWith Sample.schema {} fragments [] none = .ok forest
      ∧ { operation with selections := inlined }.forestWith Sample.schema {} [] [] none = .ok other
      ∧ forest.size = 3 ∧ forest.IsLike fragments.InlinesField other := by
  have hdefined : fragments.defines (fragments.allSpreads operation.selections) = true := by
    decide +kernel
  obtain ⟨-, hall⟩ := Operation.forestWith_inlined areAcyclic hdefined
  have hagree : Agree _ (operation.forestWith Sample.schema {} fragments [] none)
      ({ operation with selections := inlined }.forestWith Sample.schema {} [] [] none) :=
    hall inlined inlines
  obtain ⟨forest, hforest, hsize⟩ : ∃ forest,
      operation.forestWith Sample.schema {} fragments [] none = .ok forest ∧ forest.size = 3 :=
    ⟨_, rfl, rfl⟩
  obtain ⟨other, hother, hlike⟩ := hagree.exists_right hforest
  exact ⟨forest, other, hforest, hother, hsize, hlike⟩

end Spreading

end SelectionForest
