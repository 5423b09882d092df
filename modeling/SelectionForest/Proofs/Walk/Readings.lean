import SelectionForest.Proofs.Rewriting.Settling
import SelectionForest.Proofs.Walk.Steps

/-!
# What walks read of variables

A walk reads variables in conditions only, and of a condition only whether its variable is true,
false, or neither (`readingOf`). Two maps of values that give each of these variables the same
reading (`ReadAlike`) let in the same selections (`isIncluded_congr`), and so walks with them take
the same steps (`steps_given`). What stands below the fields on the way is read alike again.
-/

namespace SelectionForest

/-! ## Conditions -/

/-- The boolean that is the value of a variable, if it is one. -/
def readingOf (bindings : Members) (name : Name) : Option Bool :=
  (bindings.get? name).bind Json.asBool?

/-- Whether a directive is a condition on the variable of a name. -/
def Directive.Reads (directive : Directive) (name : Name) : Prop :=
  directive.isCondition = true ∧ findArgument? directive.arguments "if" = some (.variable name)

/-- Whether two maps of values give the same reading to each variable that is a condition. -/
def ReadAlike (bindings others : Members) (directives : List Directive) : Prop :=
  ∀ directive ∈ directives, ∀ name, directive.Reads name →
    readingOf others name = readingOf bindings name

section Conditions

variable {bindings others : Members} {directive : Directive} {directives : List Directive}

theorem ReadAlike.refl (bindings : Members) (directives : List Directive) :
    ReadAlike bindings bindings directives := fun _ _ _ _ => rfl

theorem readAlike_append {more : List Directive} :
    ReadAlike bindings others (directives ++ more)
      ↔ ReadAlike bindings others directives ∧ ReadAlike bindings others more :=
  List.forall_mem_append

theorem letsIn_congr (hcondition : directive.isCondition = true) (excludesOn : Bool)
    (h : ∀ name, directive.Reads name → readingOf others name = readingOf bindings name) :
    directive.letsIn others excludesOn = directive.letsIn bindings excludesOn := by
  unfold Directive.letsIn
  cases hargument : findArgument? directive.arguments "if" with
  | none => rfl
  | some value =>
    cases value with
    | «variable» name =>
      have hreading := h name ⟨hcondition, hargument⟩
      show Except.map _ (.ok (readingOf others name)) = Except.map _ (.ok (readingOf bindings name))
      rw [hreading]
    | _ => rfl

/-- Values that are read alike let in the same selections, with the same errors. -/
theorem isIncluded_congr (h : ReadAlike bindings others directives) :
    isIncluded others directives = isIncluded bindings directives := by
  induction directives with
  | nil => rfl
  | cons directive directives ih =>
    obtain ⟨hdirective, hrest⟩ := List.forall_mem_cons.1 h
    have hincluded := ih hrest
    unfold isIncluded
    cases hexcludes : directive.excludesOn? with
    | none => exact hincluded
    | some excludesOn =>
      have hcondition : directive.isCondition = true := by
        rw [← Bool.not_eq_false, ← excludesOn?_eq_none, hexcludes]
        simp
      dsimp only
      rw [letsIn_congr hcondition excludesOn hdirective, hincluded]

end Conditions

/-! ## Documents -/

theorem directivesOf_append (xs ys : List Selection) :
    directivesOf (xs ++ ys) = directivesOf xs ++ directivesOf ys := by
  induction xs with
  | nil => rfl
  | cons x xs ih => rw [List.cons_append, directivesOf, directivesOf, ih, List.append_assoc]

theorem directivesOf_flatMap (fields : List Field) :
    directivesOf (fields.flatMap (·.selections))
      = fields.flatMap fun field => directivesOf field.selections := by
  induction fields with
  | nil => rfl
  | cons field fields ih => rw [List.flatMap_cons, directivesOf_append, ih, List.flatMap_cons]

theorem Field.allDirectives_eq (field : Field) :
    field.allDirectives = field.directives ++ directivesOf field.selections := by
  cases field
  rfl

/-- Whether the conditions below a field are read alike. -/
def ReadAlikeBelow (bindings others : Members) (field : Field) : Prop :=
  ReadAlike bindings others (directivesOf field.selections)

/-- What holds below all fields holds of their selection sets taken together. -/
theorem readAlike_flatMap {bindings others : Members} {fields : List Field}
    (h : ∀ field ∈ fields, ReadAlikeBelow bindings others field) :
    ReadAlike bindings others (directivesOf (fields.flatMap (·.selections))) := by
  rw [directivesOf_flatMap]
  intro directive hdirective
  obtain ⟨field, hfield, hdirective⟩ := List.mem_flatMap.1 hdirective
  exact h field hfield directive hdirective

/-! ## Steps -/

/-- Whether walks take the same steps, and all fields that they come to have a property. -/
structure SameSteps (P : Field → Prop) (steps others : List Step) : Prop where
  same : others = steps
  fields : ∀ occ : Occurrence, .ok occ ∈ steps → P occ.field

namespace SameSteps

variable {P : Field → Prop} {steps others more more' : List Step}

theorem nil : SameSteps P [] [] := ⟨rfl, fun _ hocc => absurd hocc List.not_mem_nil⟩

theorem error (error : Error) : SameSteps P [.error error] [.error error] := by
  refine ⟨rfl, fun occ hocc => ?_⟩
  have hfalse := List.mem_singleton.1 hocc
  cases hfalse

theorem visit {occ : Occurrence} (h : P occ.field) : SameSteps P [.ok occ] [.ok occ] := by
  refine ⟨rfl, fun occ' hocc => ?_⟩
  obtain rfl : occ' = occ := Except.ok.inj (List.mem_singleton.1 hocc)
  exact h

theorem append (h : SameSteps P steps others) (hmore : SameSteps P more more') :
    SameSteps P (steps ++ more) (others ++ more') := by
  refine ⟨by rw [h.same, hmore.same], fun occ hocc => ?_⟩
  rcases List.mem_append.1 hocc with hocc | hocc
  · exact h.fields occ hocc
  · exact hmore.fields occ hocc

end SameSteps

namespace Request

variable {request : Request} {bindings : Members} {traced : Option TracedInputs}
  {enter enter' : Name → TypeSet → List Step}

/-- The same request with other values of its variables. -/
def given (request : Request) (bindings : Members) (traced : Option TracedInputs) : Request :=
  { request with bindings := bindings, traced := traced }

theorem stepsUnder_given (condition : Option Name) {directives : List Directive}
    (h : ReadAlike request.bindings bindings directives) (types : TypeSet)
    (next : TypeSet → List Step) :
    (request.given bindings traced).stepsUnder condition directives types next
      = request.stepsUnder condition directives types next := by
  unfold stepsUnder
  show stepsAfter (isIncluded bindings directives) _ = _
  rw [isIncluded_congr h]
  cases condition <;> rfl

mutual

theorem stepsOfSelection_given
    (henter : ∀ name types, SameSteps (ReadAlikeBelow request.bindings bindings)
      (enter name types) (enter' name types)) : ∀ (selection : Selection),
    ReadAlike request.bindings bindings selection.allDirectives → ∀ types,
    SameSteps (ReadAlikeBelow request.bindings bindings)
      (request.stepsOfSelection enter selection types)
      ((request.given bindings traced).stepsOfSelection enter' selection types)
  | .field field, h, types => by
    rw [Selection.allDirectives, Field.allDirectives_eq, readAlike_append] at h
    rw [stepsOfSelection, stepsOfSelection, stepsUnder_given none h.1]
    exact stepsUnder_rel .nil .error none field.directives types fun left => .visit h.2
  | .inline condition directives selections, h, types => by
    rw [Selection.allDirectives, readAlike_append] at h
    rw [stepsOfSelection, stepsOfSelection, stepsUnder_given condition h.1]
    exact stepsUnder_rel .nil .error condition directives types
      (stepsOf_given henter selections h.2)
  | .spread fragment directives, h, types => by
    rw [Selection.allDirectives] at h
    rw [stepsOfSelection, stepsOfSelection]
    show SameSteps _ _ (stepsAfter (isIncluded bindings directives) _)
    rw [isIncluded_congr h]
    refine stepsAfter_rel .error _ fun included => ?_
    cases included with
    | false => exact .nil
    | true => exact henter fragment types

theorem stepsOf_given
    (henter : ∀ name types, SameSteps (ReadAlikeBelow request.bindings bindings)
      (enter name types) (enter' name types)) : ∀ (selections : List Selection),
    ReadAlike request.bindings bindings (directivesOf selections) → ∀ types,
    SameSteps (ReadAlikeBelow request.bindings bindings)
      (request.stepsOf enter selections types)
      ((request.given bindings traced).stepsOf enter' selections types)
  | [], _, _ => .nil
  | selection :: selections, h, types => by
    rw [directivesOf, readAlike_append] at h
    rw [stepsOf, stepsOf]
    exact (stepsOfSelection_given henter selection h.1 types).append
      (stepsOf_given henter selections h.2 types)

end

theorem enterSteps_given
    (hfragments : ∀ fragment ∈ request.fragments,
      ReadAlike request.bindings bindings fragment.allDirectives) (nesting : Nat) :
    ∀ (name : Name) (types : TypeSet), SameSteps (ReadAlikeBelow request.bindings bindings)
      (request.enterSteps nesting name types)
      ((request.given bindings traced).enterSteps nesting name types) := by
  induction nesting with
  | zero => exact fun _ _ => .error _
  | succ nesting ih =>
    intro name types
    have hfragment {fragment : Fragment} (hget : request.fragments.get? name = some fragment) :
        ReadAlike request.bindings bindings fragment.allDirectives :=
      hfragments fragment (List.mem_of_find?_eq_some hget)
    have hfound : (request.given bindings traced).fragments = request.fragments := rfl
    rw [enterSteps, enterSteps, hfound]
    cases hget : request.fragments.get? name with
    | none => exact .error _
    | some fragment =>
      obtain ⟨hdirectives, hbelow⟩ := readAlike_append.1 (hfragment hget)
      dsimp only
      rw [stepsUnder_given (some fragment.condition) hdirectives]
      exact stepsUnder_rel .nil .error _ _ _ (stepsOf_given ih fragment.selections hbelow)

/-- Walks with values that are read alike take the same steps, and read alike what is below. -/
theorem steps_given (traced : Option TracedInputs)
    (hfragments : ∀ fragment ∈ request.fragments,
      ReadAlike request.bindings bindings fragment.allDirectives) {selections : List Selection}
    (h : ReadAlike request.bindings bindings (directivesOf selections)) (types : TypeSet) :
    SameSteps (ReadAlikeBelow request.bindings bindings) (request.steps types selections)
      ((request.given bindings traced).steps types selections) :=
  stepsOf_given (enterSteps_given hfragments _) selections h types

end Request

end SelectionForest
