import SelectionForest.Condition
import SelectionForest.Proofs.Outcome

/-!
# Reading conditions

The conditions of a selection are read from left to right. A directive decides if it is malformed
(`Directive.flaw?`), which is an error, or if it excludes the selection (`Directive.excludes`); the
first that decides is the outcome, and a selection is included if none does
(`isIncluded_eq_decision`). So a malformed condition is an error only if nothing before it excludes.

A condition is static if it is on a boolean literal or a variable (`Directive.isStatic`), that is if
it is not malformed. Static conditions exclude a selection if one of them does
(`isIncluded_of_static`), in whatever order they stand. Two lists of directives let a selection in
one after the other (`isIncluded_append`).
-/

namespace SelectionForest

namespace Directive

/-- Whether a directive is a condition. -/
def isCondition (directive : Directive) : Bool :=
  directive.name == "skip" || directive.name == "include"

/-- Whether a directive is no condition, or one on a boolean literal or a variable. -/
def isStatic (directive : Directive) : Bool :=
  !directive.isCondition || match findArgument? directive.arguments "if" with
    | some (.boolean _) => true
    | some (.variable _) => true
    | _ => false

/-- The boolean that a directive depends on, if there is one. -/
def condition? (bindings : Members) (directive : Directive) : Option Bool :=
  match findArgument? directive.arguments "if" with
  | some (.boolean value) => some value
  | some (.variable name) => (bindings.get? name).bind Json.asBool?
  | _ => none

/-- Whether a directive is `@skip` on `true` or `@include` on `false`. -/
def excludes (bindings : Members) (directive : Directive) : Bool :=
  (directive.name == "skip" && directive.condition? bindings == some true)
    || (directive.name == "include" && directive.condition? bindings == some false)

end Directive

/-- Whether all conditions are on boolean literals or variables. -/
def areStatic (directives : List Directive) : Bool := directives.all (·.isStatic)

/-- Whether one of several directives excludes what they stand on. -/
def exclude (bindings : Members) (directives : List Directive) : Bool :=
  directives.any (·.excludes bindings)

/-- The directives that are no conditions. -/
def withoutConditions (directives : List Directive) : List Directive :=
  directives.filter (!·.isCondition)

/-! ## Decisions -/

namespace Directive

/-- What is wrong with a condition that is neither a boolean literal nor a variable. -/
def flaw? (directive : Directive) : Option Inconsistency :=
  if directive.isCondition then
    match findArgument? directive.arguments "if" with
    | none => some (.conditionMissing directive.name)
    | some (.boolean _) => none
    | some (.variable _) => none
    | some value => some (.conditionMalformed value)
  else none

/-- The outcome that a directive decides on, and nothing if it leaves that to those behind it. -/
def decision? (bindings : Members) (directive : Directive) : Option (Outcome Bool) :=
  match directive.flaw? with
  | some flaw => some (.error (.internal flaw))
  | none => if directive.excludes bindings then some (.ok false) else none

end Directive

section Conditions

variable {bindings : Members} {directive : Directive} {directives : List Directive}

theorem areStatic_append {others : List Directive} :
    areStatic (directives ++ others) = true
      ↔ areStatic directives = true ∧ areStatic others = true := by
  rw [areStatic, List.all_append, Bool.and_eq_true]
  rfl

theorem excludesOn?_eq_none : directive.excludesOn? = none ↔ directive.isCondition = false := by
  rw [Directive.excludesOn?, Directive.isCondition]
  by_cases hskip : directive.name = "skip"
  · simp [hskip]
  · by_cases hinclude : directive.name = "include" <;> simp [hskip, hinclude]

theorem excludes_of_not_condition (h : directive.isCondition = false) :
    directive.excludes bindings = false := by
  obtain ⟨hskip, hinclude⟩ := Bool.or_eq_false_iff.1 h
  rw [Directive.excludes, hskip, hinclude, Bool.false_and, Bool.false_and, Bool.false_or]

/-- A condition excludes on the one value that it leaves a selection out on. -/
theorem excludes_of_excludesOn? {excludesOn : Bool} (h : directive.excludesOn? = some excludesOn) :
    directive.isCondition = true
      ∧ directive.excludes bindings = (directive.condition? bindings == some excludesOn) := by
  rw [Directive.excludesOn?] at h
  rw [Directive.isCondition, Directive.excludes]
  split at h
  · rename_i hname
    obtain rfl := Option.some.inj h
    simp [hname]
  · split at h
    · rename_i hname
      obtain rfl := Option.some.inj h
      simp [hname]
    · cases h

theorem flaw?_eq_none : directive.flaw? = none ↔ directive.isStatic = true := by
  rw [Directive.flaw?, Directive.isStatic]
  cases directive.isCondition with
  | false => simp
  | true =>
    cases findArgument? directive.arguments "if" with
    | none => simp
    | some value => cases value <;> simp

/-- A condition is an error if it is malformed, and lets in what it does not exclude otherwise. -/
theorem letsIn_eq {excludesOn : Bool} (h : directive.excludesOn? = some excludesOn) :
    directive.letsIn bindings excludesOn = match directive.flaw? with
      | some flaw => .error (.internal flaw)
      | none => .ok (!directive.excludes bindings) := by
  obtain ⟨hcondition, hexcludes⟩ := excludes_of_excludesOn? h
  rw [hexcludes, Directive.letsIn, Directive.condition?, Directive.flaw?, if_pos hcondition]
  have hread (read : Option Bool) :
      decide (read ≠ some excludesOn) = !(read == some excludesOn) := by
    rw [decide_not, beq_eq_decide]
  cases findArgument? directive.arguments "if" with
  | none => rfl
  | some value =>
    cases value with
    | boolean value => exact congrArg Except.ok (hread _)
    | «variable» name => exact congrArg Except.ok (hread _)
    | _ => rfl

theorem decision?_eq_none :
    directive.decision? bindings = none
      ↔ directive.isStatic = true ∧ directive.excludes bindings = false := by
  rw [← flaw?_eq_none, Directive.decision?]
  cases directive.flaw? with
  | some flaw => simp
  | none => simp

/-- A directive that decides is malformed, or is static and excludes. -/
theorem decision?_eq_some {outcome : Outcome Bool} :
    directive.decision? bindings = some outcome
      ↔ (∃ flaw, directive.flaw? = some flaw ∧ outcome = .error (.internal flaw))
        ∨ directive.isStatic = true ∧ directive.excludes bindings = true
          ∧ outcome = .ok false := by
  rw [← flaw?_eq_none, Directive.decision?]
  cases directive.flaw? with
  | some flaw =>
    constructor
    · exact fun h => .inl ⟨flaw, rfl, (Option.some.inj h).symm⟩
    · rintro (⟨_, hflaw, rfl⟩ | ⟨hflaw, -⟩) <;> cases hflaw
      rfl
  | none =>
    simp only [reduceCtorEq, false_and, exists_false, false_or, true_and,
      Option.ite_none_right_eq_some, Option.some.injEq]
    exact and_congr_right fun _ => eq_comm

/-- The first directive that decides gives the outcome. -/
theorem isIncluded_eq_decision (bindings : Members) (directives : List Directive) :
    isIncluded bindings directives
      = (directives.findSome? (·.decision? bindings)).getD (.ok true) := by
  induction directives with
  | nil => rfl
  | cons directive directives ih =>
    rw [isIncluded, List.findSome?_cons, Directive.decision?]
    cases hexcludes : directive.excludesOn? with
    | none =>
      have hcondition := excludesOn?_eq_none.1 hexcludes
      have hflaw : directive.flaw? = none := by rw [Directive.flaw?, hcondition]; rfl
      rw [hflaw, excludes_of_not_condition hcondition]
      exact ih
    | some excludesOn =>
      dsimp only
      rw [letsIn_eq hexcludes]
      cases directive.flaw? with
      | some flaw => rfl
      | none =>
        cases directive.excludes bindings with
        | true => rfl
        | false => exact ih

/-- The error is that of a malformed condition with no decision before it. -/
theorem isIncluded_eq_error {error : Error} :
    isIncluded bindings directives = .error error
      ↔ ∃ before directive after, directives = before ++ directive :: after
        ∧ (∃ flaw, directive.flaw? = some flaw ∧ error = .internal flaw)
        ∧ ∀ earlier ∈ before, earlier.decision? bindings = none := by
  have hgetD (decision : Option (Outcome Bool)) :
      decision.getD (.ok true) = .error error ↔ decision = some (.error error) := by
    cases decision <;> simp
  rw [isIncluded_eq_decision, hgetD, List.findSome?_eq_some_iff]
  simp only [decision?_eq_some, Except.error.injEq, reduceCtorEq, and_false, or_false]

/-- What is not an error is decided by whether a directive excludes. -/
theorem isIncluded_eq_ok {included : Bool} (h : isIncluded bindings directives = .ok included) :
    included = !exclude bindings directives := by
  rw [isIncluded_eq_decision] at h
  rw [exclude]
  cases hdecision : directives.findSome? (·.decision? bindings) with
  | none =>
    rw [hdecision] at h
    have hnone : directives.any (·.excludes bindings) = false :=
      List.any_eq_false.2 fun directive hmem => by
        simp [(decision?_eq_none.1 (List.findSome?_eq_none_iff.1 hdecision directive hmem)).2]
    rw [hnone]
    exact (Except.ok.inj h).symm
  | some outcome =>
    rw [hdecision] at h
    obtain ⟨before, directive, after, rfl, hdirective, -⟩ := List.findSome?_eq_some_iff.1 hdecision
    rcases decision?_eq_some.1 hdirective with ⟨flaw, -, rfl⟩ | ⟨-, hexcludes, rfl⟩
    · cases h
    · have hany : (before ++ directive :: after).any (·.excludes bindings) = true :=
        List.any_eq_true.2 ⟨directive, List.mem_append_right _ List.mem_cons_self, hexcludes⟩
      rw [hany]
      exact (Except.ok.inj h).symm

/-- Static conditions exclude a selection if one of them does. -/
theorem isIncluded_of_static (hstatic : areStatic directives = true) :
    isIncluded bindings directives = .ok (!exclude bindings directives) := by
  cases h : isIncluded bindings directives with
  | ok included => rw [isIncluded_eq_ok h]
  | error error =>
    obtain ⟨before, directive, after, rfl, ⟨flaw, hflaw, -⟩, -⟩ := isIncluded_eq_error.1 h
    have hmem : directive ∈ before ++ directive :: after :=
      List.mem_append_right _ List.mem_cons_self
    rw [flaw?_eq_none.2 (List.all_eq_true.1 hstatic directive hmem)] at hflaw
    cases hflaw

/-- What has no condition is not excluded. -/
theorem isIncluded_withoutConditions (bindings : Members) (directives : List Directive) :
    isIncluded bindings (withoutConditions directives) = .ok true := by
  induction directives with
  | nil => rfl
  | cons directive directives ih =>
    cases hcondition : directive.isCondition with
    | true =>
      rw [withoutConditions, List.filter_cons_of_neg (by simp [hcondition])]
      exact ih
    | false =>
      rw [withoutConditions, List.filter_cons_of_pos (by simp [hcondition]), isIncluded,
        excludesOn?_eq_none.2 hcondition]
      exact ih

/-- Two lists of directives let a selection in one after the other. -/
theorem isIncluded_append (bindings : Members) (directives others : List Directive) :
    isIncluded bindings (directives ++ others) = (do
      if ← isIncluded bindings directives then isIncluded bindings others else pure false) := by
  induction directives with
  | nil => rfl
  | cons directive directives ih =>
    rw [List.cons_append, isIncluded, isIncluded, ih]
    cases directive.excludesOn? with
    | none => rfl
    | some excludesOn =>
      dsimp only
      cases directive.letsIn bindings excludesOn with
      | error error => rfl
      | ok letsIn => cases letsIn <;> rfl

/-- An outcome is an internal error, or what the directives say that exclude. -/
theorem isIncluded_cases (bindings : Members) (directives : List Directive) :
    (∃ flaw, isIncluded bindings directives = .error (.internal flaw))
      ∨ isIncluded bindings directives = .ok (!exclude bindings directives) := by
  cases h : isIncluded bindings directives with
  | ok included => exact .inr (by rw [isIncluded_eq_ok h])
  | error error =>
    obtain ⟨_, _, _, _, ⟨flaw, -, rfl⟩, -⟩ := isIncluded_eq_error.1 h
    exact .inl ⟨flaw, rfl⟩

/-- Conditions are read by the first that decides. A malformed one is an error exactly if no
directive before it excludes; else the selection is left out exactly if one directive excludes. The
order of static conditions does not matter. What stands behind other directives is read only if
these let the selection in. -/
theorem isIncluded_firstDecides (bindings : Members) (directives : List Directive) :
    ((∃ flaw, isIncluded bindings directives = .error (.internal flaw))
        ↔ ∃ before directive after, directives = before ++ directive :: after
          ∧ directive.isStatic = false ∧ exclude bindings before = false)
      ∧ ((∃ flaw, isIncluded bindings directives = .error (.internal flaw))
        ∨ isIncluded bindings directives = .ok (!exclude bindings directives))
      ∧ (areStatic directives = true → ∀ others, directives.Perm others →
        isIncluded bindings others = isIncluded bindings directives)
      ∧ ∀ others, isIncluded bindings (directives ++ others) = (do
        if ← isIncluded bindings directives then isIncluded bindings others else pure false) := by
  refine ⟨⟨?_, ?_⟩, isIncluded_cases bindings directives, fun hstatic others hperm => ?_,
    isIncluded_append bindings directives⟩
  · rintro ⟨flaw, h⟩
    obtain ⟨before, directive, after, heq, ⟨flaw', hflaw, -⟩, hbefore⟩ := isIncluded_eq_error.1 h
    refine ⟨before, directive, after, heq, ?_, List.any_eq_false.2 fun earlier hmem => ?_⟩
    · rw [← Bool.not_eq_true, ← flaw?_eq_none, hflaw]
      exact Option.some_ne_none flaw'
    · simp [(decision?_eq_none.1 (hbefore earlier hmem)).2]
  · rintro ⟨before, directive, after, rfl, hmalformed, hbefore⟩
    rw [isIncluded_append]
    rcases isIncluded_cases bindings before with ⟨flaw, herror⟩ | hincluded
    · exact ⟨flaw, by rw [herror]; rfl⟩
    · obtain ⟨flaw, hflaw⟩ : ∃ flaw, directive.flaw? = some flaw := by
        rw [← Option.ne_none_iff_exists', Ne, flaw?_eq_none, hmalformed]
        exact Bool.false_ne_true
      have hdirective : isIncluded bindings (directive :: after) = .error (.internal flaw) :=
        isIncluded_eq_error.2 ⟨[], directive, after, rfl, ⟨flaw, hflaw, rfl⟩,
          List.forall_mem_nil _⟩
      exact ⟨flaw, by rw [hincluded, hbefore]; exact hdirective⟩
  · have hothers : areStatic others = true := by rwa [areStatic, ← hperm.all_eq]
    rw [isIncluded_of_static hstatic, isIncluded_of_static hothers, exclude, exclude, hperm.any_eq]

end Conditions

/-! ## A sample -/

namespace Sample

/-- `@skip(if: $brief)` -/
def skipped : Directive := ⟨"skip", [⟨"if", .variable "brief"⟩]⟩

/-- `@include(if: $full)` -/
def included : Directive := ⟨"include", [⟨"if", .variable "full"⟩]⟩

/-- `@include(if: 1)`, which is malformed. -/
def flawed : Directive := ⟨"include", [⟨"if", .int "1"⟩]⟩

/-- A malformed condition is not read behind one that excludes. It is read if the variable before it
is unset, and the error is its own. Two conditions on variables may change places. -/
theorem conditions_decide :
    isIncluded [("brief", .bool true)] [skipped, flawed] = .ok false
      ∧ (∃ flaw, isIncluded [] [skipped, flawed] = .error (.internal flaw))
      ∧ isIncluded [("full", .bool false)] [included, skipped]
        = isIncluded [("full", .bool false)] [skipped, included] := by
  obtain ⟨hmalformed, hcases, -, -⟩ := isIncluded_firstDecides [("brief", .bool true)]
    [skipped, flawed]
  obtain ⟨hunset, -, -, -⟩ := isIncluded_firstDecides [] [skipped, flawed]
  obtain ⟨-, -, horder, -⟩ := isIncluded_firstDecides [("full", .bool false)] [skipped, included]
  refine ⟨?_, hunset.2 ⟨[skipped], flawed, [], rfl, by decide, by decide⟩,
    horder (by decide) _ (.swap _ _ _)⟩
  rcases hcases with ⟨flaw, h⟩ | h
  · cases h
  · exact h

end Sample

end SelectionForest
