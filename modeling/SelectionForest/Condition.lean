import SelectionForest.Error

/-!
# Conditions on selections

The directives `@skip` and `@include` decide whether a selection takes part in an operation
(`isIncluded`). They are read from left to right, and the first that leaves the selection out
decides. A condition is a boolean literal or a variable; a variable that is absent, or is not a
boolean, leaves nothing out.
-/

namespace SelectionForest

/-- The value of its condition with which a directive leaves a selection out. -/
def Directive.excludesOn? (directive : Directive) : Option Bool :=
  if directive.name = "skip" then some true
  else if directive.name = "include" then some false
  else none

/-- The boolean that a condition reads as, and nothing for a variable without a boolean. -/
def readCondition (bindings : Members) : Value → Outcome (Option Bool)
  | .boolean value => .ok (some value)
  | .variable name => .ok ((bindings.get? name).bind Json.asBool?)
  | value => .error (.internal (.conditionMalformed value))

/-- Whether a directive, which leaves a selection out on `excludesOn`, lets it in. -/
def Directive.letsIn (bindings : Members) (directive : Directive) (excludesOn : Bool) :
    Outcome Bool :=
  match findArgument? directive.arguments "if" with
  | none => .error (.internal (.conditionMissing directive.name))
  | some value => (readCondition bindings value).map (· ≠ some excludesOn)

/-- Whether a selection with the given directives takes part. -/
def isIncluded (bindings : Members) : List Directive → Outcome Bool
  | [] => .ok true
  | directive :: directives =>
    match directive.excludesOn? with
    | none => isIncluded bindings directives
    | some excludesOn => do
      if ← directive.letsIn bindings excludesOn then isIncluded bindings directives
      else pure false

end SelectionForest
