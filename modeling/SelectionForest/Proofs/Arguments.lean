import SelectionForest.Input.Arguments
import SelectionForest.Proofs.Likeness
import SelectionForest.Proofs.Outcome

/-!
# Where arguments take their values

An argument takes its value from what is written for it or from its default
(`InputDefinition.source?`). Its definition takes part in that with its default, with the type at
which a literal is resolved, and with whether it may be `null`; nothing else does
(`resolveArgument_eq`).

* `resolveArguments_eq_ok`: the values of arguments with different names are those of each, in the
  order of their definitions;
* `resolveArguments_agree`: on two definitions of a field, arguments that take their values from the
  same source have the same value;
* `resolveArguments_refused`: if they are refused on one of the two only, it is for an argument that
  takes its value from different sources.
-/

namespace SelectionForest

/-- What the value of an argument is taken from. -/
inductive ArgumentSource where
  /-- The value of a variable. -/
  | given (value : Json)
  /-- A literal, which is resolved at a type. -/
  | literal (value : Value) (type : TypeRef)
  /-- A default, which is taken as it is written. -/
  | default (value : Value)
  /-- Nothing that the argument may have. -/
  | refused (fault : InputFault)

/-- The value that is taken from a source, for an argument of a name. -/
def ArgumentSource.resolve (schema : Schema) (bindings : Members) (name : Name) :
    ArgumentSource → Outcome Json
  | .given value => .ok value
  | .literal value type => value.resolve schema bindings (.argument name) type
  | .default value => value.toJson (.argument name)
  | .refused fault => .error (.argument fault)

/-- The value of an argument of a name, and nothing without a source. -/
def resolveSource (schema : Schema) (bindings : Members) (name : Name) :
    Option ArgumentSource → Outcome (Option Json)
  | some source => (source.resolve schema bindings name).map some
  | none => .ok none

namespace InputDefinition

/-- Where an argument without a value of its own takes one, unless it stays absent. -/
def unwrittenSource? (definition : InputDefinition) : Option ArgumentSource :=
  match definition.default with
  | some default => some (.default default)
  | none =>
    if definition.type.isNonNull then some (.refused (.missingArgument definition.name)) else none

/-- Where an argument takes its value, unless it stays absent. -/
def source? (definition : InputDefinition) (bindings : Members) (arguments : List Argument) :
    Option ArgumentSource :=
  match findArgument? arguments definition.name with
  | some literal =>
    match literal.asVariable? with
    | some name =>
      match bindings.get? name with
      | some value =>
        if value.isNull && definition.type.isNonNull then
          some (.refused (.nullArgument definition.name))
        else some (.given value)
      | none => definition.unwrittenSource?
    | none => some (.literal literal definition.type)
  | none => definition.unwrittenSource?

end InputDefinition

/-- Where the argument of a name takes its value, if the field defines it. -/
def FieldDefinition.source? (definition : FieldDefinition) (bindings : Members)
    (arguments : List Argument) (name : Name) : Option ArgumentSource :=
  (findDefinition? definition.arguments name).bind (·.source? bindings arguments)

section Resolve

variable {schema : Schema} {bindings : Members} {arguments : List Argument}

theorem resolveUnwritten_eq (schema : Schema) (bindings : Members) (definition : InputDefinition) :
    resolveUnwritten definition
      = resolveSource schema bindings definition.name definition.unwrittenSource? := by
  rw [resolveUnwritten, InputDefinition.unwrittenSource?]
  cases definition.default with
  | some default => rfl
  | none => cases definition.type.isNonNull <;> rfl

theorem Value.eq_of_asVariable? {literal : Value} {name : Name}
    (h : literal.asVariable? = some name) : literal = .variable name := by
  cases literal <;> cases h
  rfl

/-- A literal that is no variable is resolved at the type of its argument. -/
theorem resolveWritten_of_literal {literal : Value} (h : literal.asVariable? = none)
    (definition : InputDefinition) : resolveWritten schema bindings definition literal
      = (literal.resolve schema bindings (.argument definition.name) definition.type).map some := by
  cases literal <;> first | rfl | cases h

/-- An argument that is written as a literal has the value of that. -/
theorem resolveArgument_of_literal {definition : InputDefinition} {literal : Value}
    (hfound : findArgument? arguments definition.name = some literal)
    (hvariable : literal.asVariable? = none) :
    resolveArgument schema bindings arguments definition
      = (literal.resolve schema bindings (.argument definition.name) definition.type).map some := by
  rw [resolveArgument, hfound]
  dsimp only
  rw [resolveWritten_of_literal hvariable]
  cases literal.resolve schema bindings (.argument definition.name) definition.type <;> rfl

/-- An argument that is written as a variable has the value of that, if it may. -/
theorem resolveArgument_of_variable {definition : InputDefinition} {name : Name} {value : Json}
    (hfound : findArgument? arguments definition.name = some (.variable name))
    (hbound : bindings.get? name = some value)
    (hnullable : ¬ (value.isNull && definition.type.isNonNull) = true) :
    resolveArgument schema bindings arguments definition = .ok (some value) := by
  rw [resolveArgument, hfound]
  dsimp only
  rw [resolveWritten, hbound]
  dsimp only
  rw [if_neg hnullable]
  rfl

/-- The value of an argument depends on its source and its name only. -/
theorem resolveArgument_eq (definition : InputDefinition) :
    resolveArgument schema bindings arguments definition
      = resolveSource schema bindings definition.name (definition.source? bindings arguments) := by
  have hunwritten := resolveUnwritten_eq schema bindings definition
  rw [resolveArgument, InputDefinition.source?]
  cases findArgument? arguments definition.name with
  | none => exact hunwritten
  | some literal =>
    dsimp only
    cases hvariable : literal.asVariable? with
    | none =>
      rw [resolveWritten_of_literal hvariable, resolveSource, ArgumentSource.resolve]
      cases literal.resolve schema bindings (.argument definition.name) definition.type <;> rfl
    | some name =>
      obtain rfl := Value.eq_of_asVariable? hvariable
      dsimp only [resolveWritten]
      cases bindings.get? name with
      | none => exact hunwritten
      | some value =>
        dsimp only
        by_cases hnull : (value.isNull && definition.type.isNonNull) = true
        · rw [if_pos hnull, if_pos hnull]
          rfl
        · rw [if_neg hnull, if_neg hnull]
          rfl

/-! ## All arguments of a field -/

variable (schema bindings arguments) in
/-- The entry of an argument among the values of a field, if it takes a value. -/
def argumentMember? (definition : InputDefinition) : Option (Name × Json) :=
  (resolveArgument schema bindings arguments definition).toOption.join.map (definition.name, ·)

/-- The entries of arguments of which the first is resolved. -/
theorem argumentMembers_cons {definition : InputDefinition} {value : Option Json}
    (h : resolveArgument schema bindings arguments definition = .ok value)
    (definitions : List InputDefinition) :
    (definition :: definitions).filterMap (argumentMember? schema bindings arguments)
      = (value.map (definition.name, ·)).toList
        ++ definitions.filterMap (argumentMember? schema bindings arguments) := by
  rw [List.filterMap_cons, argumentMember?, h]
  cases value <;> rfl

/-- Names that are new stay so behind an entry of another name. -/
theorem not_mem_append_entry {names : List Name} {name : Name} (hname : name ∉ names)
    {resolved : Members} (hnew : ∀ later ∈ names, later ∉ resolved.map (·.1))
    (value : Option Json) :
    ∀ later ∈ names, later ∉ (resolved ++ (value.map (name, ·)).toList).map (·.1) := by
  intro later hlater hin
  rw [List.map_append, List.mem_append] at hin
  rcases hin with hin | hin
  · exact hnew later hlater hin
  · cases value with
    | none => exact absurd hin List.not_mem_nil
    | some value =>
      obtain rfl : later = name := List.mem_singleton.1 hin
      exact hname hlater

variable (schema bindings arguments) in
/-- The values of some arguments, with that of one more if it takes one. -/
def addArgument (resolved : Members) (definition : InputDefinition) : Outcome Members := do
  match ← resolveArgument schema bindings arguments definition with
  | some value => pure (resolved.insert definition.name value)
  | none => pure resolved

theorem resolveArguments_eq_foldlM (definition : FieldDefinition) :
    resolveArguments schema bindings definition arguments
      = definition.arguments.foldlM (addArgument schema bindings arguments) [] :=
  rfl

/-- One more argument adds its entry at the end, if its name is new. -/
theorem addArgument_eq_ok {definition : InputDefinition} {resolved next : Members}
    (hnew : definition.name ∉ resolved.map (·.1)) :
    addArgument schema bindings arguments resolved definition = .ok next
      ↔ ∃ value, resolveArgument schema bindings arguments definition = .ok value
        ∧ resolved ++ (value.map (definition.name, ·)).toList = next := by
  rw [addArgument, bind_eq_ok]
  refine exists_congr fun value => and_congr_right fun _ => ?_
  cases value with
  | none => rw [pure_eq_ok, Option.map_none, Option.toList_none, List.append_nil]
  | some value => rw [pure_eq_ok, OrderedMap.insert_of_new hnew]; rfl

/-- One more argument is only refused as it is alone. -/
theorem error_of_addArgument {definition : InputDefinition} {resolved : Members} {error : Error}
    (h : addArgument schema bindings arguments resolved definition = .error error) :
    resolveArgument schema bindings arguments definition = .error error := by
  rw [addArgument] at h
  cases hresolve : resolveArgument schema bindings arguments definition with
  | error fault =>
    rw [hresolve] at h
    obtain rfl : fault = error := Except.error.inj h
    rfl
  | ok value =>
    rw [hresolve] at h
    cases value <;> cases h

/-- Arguments whose names are new and different add their entries one behind the other. -/
theorem addArguments_eq_ok {definitions : List InputDefinition}
    (hnd : (definitions.map (·.name)).Nodup) {resolved values : Members}
    (hnew : ∀ name ∈ definitions.map (·.name), name ∉ resolved.map (·.1)) :
    definitions.foldlM (addArgument schema bindings arguments) resolved = .ok values
      ↔ (∀ definition ∈ definitions, ∃ value,
          resolveArgument schema bindings arguments definition = .ok value)
        ∧ resolved ++ definitions.filterMap (argumentMember? schema bindings arguments)
          = values := by
  induction definitions generalizing resolved with
  | nil =>
    rw [List.foldlM_nil, pure_eq_ok, List.filterMap_nil, List.append_nil]
    exact (and_iff_right (List.forall_mem_nil _)).symm
  | cons definition definitions ih =>
    obtain ⟨hfirst, hnd⟩ := List.nodup_cons.1 hnd
    obtain ⟨hdefinition, hnew⟩ := List.forall_mem_cons.1 hnew
    have hlater := not_mem_append_entry hfirst hnew
    rw [List.foldlM_cons, bind_eq_ok, List.forall_mem_cons]
    constructor
    · rintro ⟨next, hnext, hrest⟩
      obtain ⟨value, hvalue, rfl⟩ := (addArgument_eq_ok hdefinition).1 hnext
      obtain ⟨hall, rfl⟩ := (ih hnd (hlater value)).1 hrest
      rw [argumentMembers_cons hvalue, List.append_assoc]
      exact ⟨⟨⟨value, hvalue⟩, hall⟩, rfl⟩
    · rintro ⟨⟨⟨value, hvalue⟩, hall⟩, rfl⟩
      refine ⟨_, (addArgument_eq_ok hdefinition).2 ⟨value, hvalue, rfl⟩,
        (ih hnd (hlater value)).2 ⟨hall, ?_⟩⟩
      rw [argumentMembers_cons hvalue, List.append_assoc]

/-- Arguments are only refused for one of them. -/
theorem exists_of_addArguments_error {definitions : List InputDefinition} {resolved : Members}
    {error : Error}
    (h : definitions.foldlM (addArgument schema bindings arguments) resolved = .error error) :
    ∃ argument ∈ definitions,
      resolveArgument schema bindings arguments argument = .error error := by
  induction definitions generalizing resolved with
  | nil => cases h
  | cons definition definitions ih =>
    rw [List.foldlM_cons] at h
    cases hnext : addArgument schema bindings arguments resolved definition with
    | ok next =>
      rw [hnext] at h
      obtain ⟨argument, hmem, hargument⟩ := ih h
      exact ⟨argument, List.mem_cons_of_mem _ hmem, hargument⟩
    | error fault =>
      rw [hnext] at h
      obtain rfl : fault = error := Except.error.inj h
      exact ⟨definition, List.mem_cons_self, error_of_addArgument hnext⟩

/-- Arguments of different names are resolved if each of them is, and have the values of each, in
the order of their definitions. -/
theorem resolveArguments_eq_ok {definition : FieldDefinition}
    (hnd : (definition.arguments.map (·.name)).Nodup) {values : Members} :
    resolveArguments schema bindings definition arguments = .ok values
      ↔ (∀ argument ∈ definition.arguments, ∃ value,
          resolveArgument schema bindings arguments argument = .ok value)
        ∧ definition.arguments.filterMap (argumentMember? schema bindings arguments) = values := by
  rw [resolveArguments_eq_foldlM, addArguments_eq_ok hnd fun _ _ => List.not_mem_nil,
    List.nil_append]

theorem name_of_findDefinition? {definitions : List InputDefinition} {name : Name}
    {definition : InputDefinition} (h : findDefinition? definitions name = some definition) :
    definition.name = name := by
  rw [findDefinition?] at h
  simpa using List.find?_some h

/-- The value of a name among the entries of arguments of different names. -/
theorem get?_argumentMembers {definitions : List InputDefinition}
    (hnd : (definitions.map (·.name)).Nodup) (name : Name) :
    OrderedMap.get? (definitions.filterMap (argumentMember? schema bindings arguments)) name
      = (findDefinition? definitions name).bind fun definition =>
        (resolveArgument schema bindings arguments definition).toOption.join := by
  induction definitions with
  | nil => rfl
  | cons definition definitions ih =>
    obtain ⟨hfirst, hnd⟩ := List.nodup_cons.1 hnd
    rw [List.filterMap_cons, argumentMember?, findDefinition?, List.find?_cons]
    by_cases hname : definition.name = name
    · subst hname
      have hlater : findDefinition? definitions definition.name = none :=
        List.find?_eq_none.2 fun later hmem heq =>
          hfirst (List.mem_map.2 ⟨later, hmem, of_decide_eq_true heq⟩)
      rw [decide_eq_true rfl]
      dsimp only [Option.bind_some]
      cases (resolveArgument schema bindings arguments definition).toOption.join with
      | none => exact (ih hnd).trans (by rw [hlater]; rfl)
      | some value => simp [OrderedMap.get?]
    · rw [decide_eq_false hname]
      cases (resolveArgument schema bindings arguments definition).toOption.join with
      | none => exact ih hnd
      | some value =>
        refine Eq.trans ?_ (ih hnd)
        simp [OrderedMap.get?, hname]

/-- What the arguments of a field have for a name is what its source gives. -/
theorem resolveSource_of_ok {definition : FieldDefinition}
    (hnd : (definition.arguments.map (·.name)).Nodup) {values : Members}
    (h : resolveArguments schema bindings definition arguments = .ok values) (name : Name) :
    resolveSource schema bindings name (definition.source? bindings arguments name)
      = .ok (values.get? name) := by
  obtain ⟨hall, rfl⟩ := (resolveArguments_eq_ok hnd).1 h
  rw [get?_argumentMembers hnd, FieldDefinition.source?]
  cases hfind : findDefinition? definition.arguments name with
  | none => rfl
  | some argument =>
    obtain rfl := name_of_findDefinition? hfind
    obtain ⟨value, hvalue⟩ := hall argument (List.mem_of_find?_eq_some hfind)
    rw [Option.bind_some, Option.bind_some, ← resolveArgument_eq, hvalue]
    rfl

section Definitions

variable {definition other : FieldDefinition}
  (hnd : (definition.arguments.map (·.name)).Nodup)
  (hother : (other.arguments.map (·.name)).Nodup) {values : Members}
  (h : resolveArguments schema bindings definition arguments = .ok values)

include hnd hother h

/-- On two definitions of a field, arguments that take their values from the same source have the
same value. -/
theorem resolveArguments_agree {others : Members}
    (hothers : resolveArguments schema bindings other arguments = .ok others) {name : Name}
    (hsource : other.source? bindings arguments name = definition.source? bindings arguments name) :
    others.get? name = values.get? name := by
  have hvalue := resolveSource_of_ok hother hothers name
  rw [hsource, resolveSource_of_ok hnd h name] at hvalue
  exact (Except.ok.inj hvalue).symm

/-- If the arguments of a field are resolved on one definition and refused on another, it is for one
that takes its value from another source there. -/
theorem resolveArguments_refused {error : Error}
    (herror : resolveArguments schema bindings other arguments = .error error) :
    ∃ argument ∈ other.arguments,
      resolveArgument schema bindings arguments argument = .error error
      ∧ other.source? bindings arguments argument.name
        ≠ definition.source? bindings arguments argument.name := by
  obtain ⟨argument, hargument, hrefused⟩ := exists_of_addArguments_error herror
  refine ⟨argument, hargument, hrefused, fun hsource => ?_⟩
  have hvalue := resolveSource_of_ok hnd h argument.name
  have hfind : findDefinition? other.arguments argument.name = some argument :=
    find?_of_nodup hother hargument
  rw [← hsource, FieldDefinition.source?, hfind, Option.bind_some, ← resolveArgument_eq,
    hrefused] at hvalue
  cases hvalue

end Definitions

end Resolve

end SelectionForest
