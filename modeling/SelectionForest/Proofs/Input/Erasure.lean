import SelectionForest.Input.Provenance
import SelectionForest.Proofs.Input.Parts

/-!
# The values that provenances describe

Arguments are resolved along their types, with coerced variables; they are traced along the literals
that are written for them, with the values of the request. Both go through a literal on their own.
Erasure (`Provenance.erase`) takes a traced value back to a JSON value: variables are looked up among
the coerced ones, and the type says where lists of one and defaults of fields are put in. The values
that are recovered in this way are the resolved ones.

* `Value.erase_trace`: this holds of a literal at any type;
* `traceArguments_describes`: it holds of the arguments of a field, of which as many are traced as are
  resolved.
-/

namespace SelectionForest

/-- An object with one more field of its type: with its recovered value, if the object had one, or
with its default. -/
def recoverField (type : Name) (outcomes : OrderedMap Name (Outcome Json)) (members : Members)
    (field : InputDefinition) : Outcome Members :=
  match outcomes.get? field.name with
  | some outcome => outcome.map (members.insert field.name)
  | none =>
    match field.default with
    | some default => (default.toJson (.inputField type field.name)).map (members.insert field.name)
    | none => .ok members

/-- The place and the type of each field of an input object. -/
def placeOfField (type : Name) (fields : List InputDefinition) (key : Name) :
    Option (Position × TypeRef) :=
  (findDefinition? fields key).map fun field => (.inputField type key, field.type)

/-- The members of an object whose values have outcomes. -/
def gatherMembers (outcomes : OrderedMap Name (Outcome Json)) : Outcome (List (Name × Json)) :=
  outcomes.mapM fun entry => entry.2.map (entry.1, ·)

mutual

/-- The JSON value of an input value at a type. Variables have their coerced values. -/
def Provenance.erase (schema : Schema) (bindings : Members) :
    Provenance → Position → TypeRef → Outcome Json
  | .variable name _, position, _ =>
    match bindings.get? name with
    | some value => .ok value
    | none => .error (.argument (.unsetVariable position))
  | .input value, _, _ => .ok value
  | .default value, position, _ => value.toJson position
  | .literal value, position, type =>
    if value.isNull then .ok .null else (value.toJson position).map type.wrap
  | .list items, position, .list item _ =>
    (eraseItems schema bindings items position item).map .array
  | .list items, position, .named name nonNull =>
    (eraseItems schema bindings items position (.named name nonNull)).map .array
  | .object fields, position, type =>
    match schema.type? type.innerName with
    | some (.inputObject definitions) =>
      let outcomes := eraseFields schema bindings fields (placeOfField type.innerName definitions)
      (definitions.foldlM (recoverField type.innerName outcomes) []).map
        fun members => type.wrap (.object members)
    | _ =>
      let outcomes := eraseFields schema bindings fields
        fun _ => some (position, .named type.innerName type.isNonNull)
      (gatherMembers outcomes).map fun members => type.wrap (.object (OrderedMap.ofList members))

/-- The JSON values of the items of a list, each at the type of the items. -/
def eraseItems (schema : Schema) (bindings : Members) :
    List Provenance → Position → TypeRef → Outcome (List Json)
  | [], _, _ => .ok []
  | item :: items, position, type => do
    let first ← item.erase schema bindings position type
    let rest ← eraseItems schema bindings items position type
    pure (first :: rest)

/-- The outcomes of erasing the fields of an object, of those that have a place. -/
def eraseFields (schema : Schema) (bindings : Members) :
    List (Name × Provenance) → (Name → Option (Position × TypeRef)) →
    OrderedMap Name (Outcome Json)
  | [], _ => []
  | (key, value) :: fields, place =>
    match place key with
    | some (position, type) =>
      (key, value.erase schema bindings position type) :: eraseFields schema bindings fields place
    | none => eraseFields schema bindings fields place

end

/-! ## Look-ups -/

section Lookups

variable {schema : Schema} {bindings : Members} {sources : TracedInputs}

theorem get?_eraseFields {place : Name → Option (Position × TypeRef)} {key : Name}
    {position : Position} {type : TypeRef} (hplace : place key = some (position, type))
    (fields : List (Name × Provenance)) :
    (eraseFields schema bindings fields place).get? key
      = (OrderedMap.get? fields key).map (·.erase schema bindings position type) := by
  induction fields with
  | nil => rfl
  | cons field fields ih =>
    obtain ⟨name, value⟩ := field
    rw [eraseFields, OrderedMap.get?_cons]
    by_cases hname : name = key
    · subst hname
      rw [hplace, if_pos rfl]
      dsimp only
      rw [OrderedMap.get?_cons, if_pos rfl]
      rfl
    · rw [if_neg hname, ← ih]
      cases place name with
      | none => rfl
      | some found =>
        dsimp only
        rw [OrderedMap.get?_cons, if_neg hname]

theorem traceFields_keys (fields : List (Name × Value)) :
    ((traceFields sources fields).map (·.1)).Sublist (fields.map (·.1)) := by
  induction fields with
  | nil => exact .slnil
  | cons field fields ih =>
    obtain ⟨name, value⟩ := field
    rw [traceFields]
    cases value.trace? sources with
    | none => exact ih.cons _
    | some traced => exact ih.cons_cons _

/-- A field is traced if its value is, where no key comes twice. -/
theorem get?_traceFields {fields : List (Name × Value)} (hnd : (fields.map (·.1)).Nodup)
    (key : Name) : OrderedMap.get? (traceFields sources fields) key
      = (OrderedMap.get? fields key).bind (Value.trace? sources) := by
  induction fields with
  | nil => rfl
  | cons field fields ih =>
    obtain ⟨name, value⟩ := field
    obtain ⟨hfirst, hnd⟩ := List.nodup_cons.1 hnd
    rw [traceFields, OrderedMap.get?_cons]
    by_cases hname : name = key
    · subst hname
      rw [if_pos rfl, Option.bind_some]
      cases value.trace? sources with
      | some traced => exact (OrderedMap.get?_cons ..).trans (if_pos rfl)
      | none =>
        have hnone : ¬ OrderedMap.has (traceFields sources fields) name = true := fun hhas =>
          hfirst ((traceFields_keys fields).subset (OrderedMap.has_iff_mem.1 hhas))
        rwa [OrderedMap.has, Option.not_isSome_iff_eq_none] at hnone
    · rw [if_neg hname, ← ih hnd]
      cases value.trace? sources with
      | some traced => exact (OrderedMap.get?_cons ..).trans (if_neg hname)
      | none => rfl

end Lookups

/-! ## Literals -/

section Literals

variable {schema : Schema} {bindings : Members} {sources : TracedInputs}

theorem Provenance.erase_literal {value : Value} (hnull : value.isNull = false)
    {position : Position} {type : TypeRef} :
    (Provenance.literal value).erase schema bindings position type
      = (value.toJson position).map type.wrap := by
  rw [Provenance.erase, hnull]
  rfl

/-- An object at a type that is no input object is recovered field by field, whatever lists it stands
for. -/
theorem Provenance.erase_object_leaf {position : Position} {type : TypeRef}
    (hleaf : ∀ definitions, schema.type? type.innerName ≠ some (.inputObject definitions))
    (fields : List (Name × Provenance)) :
    (Provenance.object fields).erase schema bindings position type
      = ((Provenance.object fields).erase schema bindings position
          (.named type.innerName type.isNonNull)).map type.wrap := by
  rw [Provenance.erase, Provenance.erase]
  split
  · rename_i definitions htype
    exact absurd htype (hleaf definitions)
  · dsimp only [TypeRef.innerName]
    split
    · rename_i definitions htype
      exact absurd htype (hleaf definitions)
    · show Except.map _ _ = (Except.map _ (gatherMembers (eraseFields schema bindings fields
        fun _ => some (position, .named type.innerName type.isNonNull)))).map type.wrap
      generalize gatherMembers _ = outcome
      cases outcome <;> rfl

theorem eraseItems_eq_mapM (items : List Provenance) (position : Position) (type : TypeRef) :
    eraseItems schema bindings items position type
      = items.mapM (·.erase schema bindings position type) := by
  induction items with
  | nil => rfl
  | cons item items ih => rw [eraseItems, List.mapM_cons, ih]

theorem traceItems_eq_map (items : List Value) :
    traceItems sources items = items.map fun item => (item.trace? sources).getD (.literal .null) := by
  induction items with
  | nil => rfl
  | cons item items ih => rw [traceItems, List.map_cons, ih]

/-- The traced items of a list describe values that each of them describes. -/
theorem eraseItems_traceItems {items : List Value} {position : Position} {type : TypeRef}
    {read : Value → Outcome Json} {values : List Json}
    (hitems : ∀ item ∈ items, ∀ value, read item = .ok value →
      ((item.trace? sources).getD (.literal .null)).erase schema bindings position type = .ok value)
    (h : items.mapM read = .ok values) :
    eraseItems schema bindings (traceItems sources items) position type = .ok values := by
  rw [eraseItems_eq_mapM, traceItems_eq_map, mapM_eq_ok, List.forall₂_map_left_iff]
  exact forall₂_imp_of_mem hitems (mapM_eq_ok.1 h)

theorem eraseFields_toJson {fields : List (Name × Value)} {position : Position} {type : TypeRef}
    {members : List (Name × Json)}
    (hfields : ∀ field ∈ fields, ∀ value, field.2.toJson position = .ok value →
      ∃ traced, field.2.trace? sources = some traced
        ∧ traced.erase schema bindings position type = .ok value)
    (h : fieldsToJson position fields = .ok members) :
    gatherMembers (eraseFields schema bindings (traceFields sources fields)
      fun _ => some (position, type)) = .ok members := by
  rw [fieldsToJson_eq_mapM, mapM_eq_ok] at h
  rw [gatherMembers, mapM_eq_ok]
  induction h with
  | nil => exact .nil
  | @cons field member fields members hmember _ ih =>
    obtain ⟨hfield, hrest⟩ := List.forall_mem_cons.1 hfields
    obtain ⟨name, literal⟩ := field
    obtain ⟨value, hvalue, rfl⟩ := map_eq_ok.1 hmember
    obtain ⟨traced, htraced, herase⟩ := hfield value hvalue
    have htraced : literal.trace? sources = some traced := htraced
    rw [traceFields, htraced]
    dsimp only
    rw [eraseFields]
    exact .cons (map_eq_ok.2 ⟨value, herase, rfl⟩) (ih hrest)

/-- At a type that is no input object, what is traced from a literal is its JSON value. -/
theorem Value.erase_of_toJson {name : Name} {nonNull : Bool}
    (hleaf : ∀ definitions, schema.type? name ≠ some (.inputObject definitions))
    {literal : Value} (hkeys : literal.hasUniqueKeys) {position : Position} {json : Json}
    (h : literal.toJson position = .ok json) :
    ∃ traced, literal.trace? sources = some traced
      ∧ traced.erase schema bindings position (.named name nonNull) = .ok json := by
  induction literal using Value.induction generalizing json with
  | atom literal hatom =>
    cases literal with
    | list => cases hatom
    | object => cases hatom
    | «variable» => cases h
    | null => exact ⟨_, rfl, h⟩
    | _ => exact ⟨_, rfl, (Provenance.erase_literal rfl).trans (map_eq_ok.2 ⟨json, h, rfl⟩)⟩
  | list items ih =>
    rw [Value.toJson] at h
    obtain ⟨values, hvalues, rfl⟩ := map_eq_ok.1 h
    refine ⟨_, rfl, ?_⟩
    rw [itemsToJson_eq_mapM] at hvalues
    rw [Provenance.erase]
    refine map_eq_ok.2
      ⟨values, eraseItems_traceItems (fun item hitem value hvalue => ?_) hvalues, rfl⟩
    obtain ⟨traced, htraced, herase⟩ :=
      ih item hitem (hasUniqueKeys_list.1 hkeys item hitem) hvalue
    rw [htraced]
    exact herase
  | object fields ih =>
    obtain ⟨hnd, hkeys⟩ := hasUniqueKeys_object.1 hkeys
    rw [Value.toJson] at h
    obtain ⟨members, hmembers, rfl⟩ := map_eq_ok.1 h
    have hfields := eraseFields_toJson (fun field hfield value hvalue =>
      ih field hfield (hkeys field hfield) hvalue) hmembers
    refine ⟨_, rfl, ?_⟩
    rw [OrderedMap.ofList_of_nodup ((traceFields_keys fields).nodup hnd), Provenance.erase]
    split
    · rename_i definitions htype
      exact absurd htype (hleaf definitions)
    · exact map_eq_ok.2 ⟨members, hfields, rfl⟩

variable (hsame : ∀ name, sources.has name = bindings.has name)

include hsame

/-- What is traced has a value. -/
theorem trace?_eq_none_iff {literal : Value} :
    literal.trace? sources = none ↔ literal.isUnset bindings = true := by
  cases literal with
  | «variable» name =>
    have hname := hsame name
    rw [Value.trace?, Option.map_eq_none_iff]
    show _ ↔ (!bindings.has name) = true
    rw [← hname, OrderedMap.has]
    cases sources.get? name <;> simp
  | _ => simp [Value.trace?, Value.isUnset, Value.asVariable?]

/-- A variable that has a value is traced as what describes that value, and one without is not. -/
theorem trace?_variable (name : Name) :
    bindings.get? name = none ∧ (Value.variable name).trace? sources = none
      ∨ ∃ value traced, bindings.get? name = some value
        ∧ (Value.variable name).trace? sources = some traced
        ∧ ∀ position type, traced.erase schema bindings position type = .ok value := by
  have hname := hsame name
  rw [OrderedMap.has, OrderedMap.has] at hname
  rw [Value.trace?]
  cases hbound : bindings.get? name with
  | none =>
    rw [hbound] at hname
    exact .inl ⟨rfl, Option.map_eq_none_iff.2
      (Option.not_isSome_iff_eq_none.1 (Bool.eq_false_iff.1 hname))⟩
  | some value =>
    rw [hbound] at hname
    obtain ⟨source, hsource⟩ := Option.isSome_iff_exists.1 hname
    refine .inr ⟨value, _, rfl, Option.map_eq_some_iff.2 ⟨source, hsource, rfl⟩,
      fun position type => ?_⟩
    rw [Provenance.erase, hbound]

/-- A field that is resolved is recovered from what is traced of it. -/
theorem recoverField_of_resolveField {fields : List (Name × Value)} (hnd : (fields.map (·.1)).Nodup)
    (hfields : ∀ field ∈ fields, ∀ {position : Position} {type : TypeRef} {value : Json},
      field.2.resolve schema bindings position type = .ok value →
      ((field.2.trace? sources).getD (.literal .null)).erase schema bindings position type
        = .ok value) {type : Name} {definitions : List InputDefinition}
    {definition : InputDefinition} {found : InputDefinition}
    (hfound : findDefinition? definitions definition.name = some found) {members next : Members}
    (h : resolveField type (resolveEntries schema bindings fields type definitions) members
      definition = .ok next) :
    recoverField type (eraseFields schema bindings (traceFields sources fields)
      (placeOfField type definitions)) members definition = .ok next := by
  have hplace : placeOfField type definitions definition.name
      = some (.inputField type definition.name, found.type) := by rw [placeOfField, hfound]; rfl
  rw [resolveField, get?_resolveEntries, hfound] at h
  rw [recoverField, get?_eraseFields hplace, get?_traceFields hnd]
  have hdefault (h : (match definition.default with
      | some default =>
        (default.toJson (.inputField type definition.name)).map (members.insert definition.name)
      | none =>
        if definition.type.isNonNull then .error (.argument (.missingField type definition.name))
        else .ok members) = Except.ok next) :
      (match definition.default with
      | some default =>
        (default.toJson (.inputField type definition.name)).map (members.insert definition.name)
      | none => .ok members) = Except.ok next := by
    cases hdefault : definition.default with
    | some default => rwa [hdefault] at h
    | none =>
      rw [hdefault] at h
      dsimp only at h ⊢
      split at h
      · cases h
      · exact h
  cases hwritten : OrderedMap.get? fields definition.name with
  | none =>
    rw [hwritten] at h
    exact hdefault h
  | some literal =>
    rw [hwritten] at h
    cases htraced : literal.trace? sources with
    | none =>
      rw [Option.map_some, if_pos ((trace?_eq_none_iff hsame).1 htraced)] at h
      rw [Option.bind_some, htraced]
      exact hdefault h
    | some traced =>
      have hset : ¬ literal.isUnset bindings = true := fun hunset => by
        rw [(trace?_eq_none_iff hsame).2 hunset] at htraced
        cases htraced
      rw [Option.map_some, if_neg hset] at h
      obtain ⟨value, hvalue, hnext⟩ := map_eq_ok.1 h
      have herase := hfields _ (OrderedMap.mem_of_get? hwritten) hvalue
      rw [htraced] at herase
      rw [Option.bind_some, htraced]
      exact map_eq_ok.2 ⟨value, herase, hnext⟩

/-- What is traced of a literal describes its value at every type. -/
theorem Value.erase_trace {literal : Value} (hkeys : literal.hasUniqueKeys) {position : Position}
    {type : TypeRef} {json : Json}
    (h : literal.resolve schema bindings position type = .ok json) :
    ((literal.trace? sources).getD (.literal .null)).erase schema bindings position type
      = .ok json := by
  induction literal using Value.induction generalizing position type json with
  | atom literal hatom =>
    cases literal with
    | list => cases hatom
    | object => cases hatom
    | «variable» name =>
      rw [Value.resolve, resolveVariable] at h
      rcases trace?_variable hsame name with ⟨hnone, htraced⟩ | ⟨value, traced, hvalue, htraced, herase⟩
      · rw [hnone] at h
        rw [htraced]
        dsimp only at h
        split at h
        · cases h
        · exact h
      · rw [hvalue] at h
        rw [htraced, Option.getD_some, herase]
        dsimp only at h
        split at h
        · cases h
        · exact h
    | null =>
      rw [Value.resolve] at h
      split at h
      · cases h
      · exact h
    | _ =>
      obtain ⟨value, hvalue, rfl⟩ := map_eq_ok.1 h
      exact (Provenance.erase_literal rfl).trans
        (map_eq_ok.2 ⟨value, (resolveLeaf_eq_ok hvalue).2, rfl⟩)
  | list items ih =>
    cases type with
    | list item nonNull =>
      rw [Value.resolve] at h
      obtain ⟨values, hvalues, rfl⟩ := map_eq_ok.1 h
      rw [resolveItems_eq_mapM] at hvalues
      have hitems := eraseItems_traceItems (fun literal hliteral value hvalue =>
        ih literal hliteral (hasUniqueKeys_list.1 hkeys literal hliteral) hvalue) hvalues
      rw [Value.trace?, Option.getD_some, Provenance.erase]
      exact map_eq_ok.2 ⟨values, hitems, rfl⟩
    | named name nonNull =>
      rw [Value.resolve] at h
      obtain ⟨hleaf, hjson⟩ := resolveLeaf_eq_ok h
      obtain ⟨traced, htraced, herase⟩ := Value.erase_of_toJson hleaf hkeys hjson
      rw [htraced]
      exact herase
  | object fields ih =>
    obtain ⟨hnd, hfields⟩ := hasUniqueKeys_object.1 hkeys
    rw [Value.trace?, Option.getD_some]
    rw [Value.resolve] at h
    split at h
    · rename_i definitions htype
      rw [OrderedMap.ofList_of_nodup ((traceFields_keys fields).nodup hnd), Provenance.erase, htype]
      obtain ⟨value, hvalue, rfl⟩ := map_eq_ok.1 h
      rw [resolveFields] at hvalue
      split at hvalue
      · cases hvalue
      · obtain ⟨members, hmembers, rfl⟩ := map_eq_ok.1 hvalue
        refine map_eq_ok.2 ⟨members, foldlM_mono (fun definition hmem state next hnext => ?_) hmembers,
          rfl⟩
        obtain ⟨found, hfound⟩ := exists_findDefinition? hmem
        exact recoverField_of_resolveField hsame hnd
          (fun field hfield _ _ _ => ih field hfield (hfields field hfield)) hfound hnext
    · obtain ⟨value, hvalue, rfl⟩ := map_eq_ok.1 h
      obtain ⟨hleaf, hjson⟩ := resolveLeaf_eq_ok hvalue
      obtain ⟨traced, htraced, herase⟩ := Value.erase_of_toJson hleaf hkeys hjson
      rw [Value.trace?] at htraced
      obtain rfl := Option.some.inj htraced
      rw [Provenance.erase_object_leaf hleaf]
      exact map_eq_ok.2 ⟨value, herase, rfl⟩

end Literals

/-! ## Arguments -/

section Inputs

variable {schema : Schema} {definitions : List VariableDefinition} {values bindings : Members}

/-- The variables that are traced are those that have coerced values. -/
theorem traceVariables_has (h : coerceVariables schema definitions values = .ok bindings)
    (name : Name) : (traceVariables definitions values).has name = bindings.has name := by
  have hsame : List.Forall₂ (fun traced coerced => traced.1 = coerced.1)
      (traceVariables definitions values) bindings := by
    rw [coerceVariables_eq_foldlM] at h
    refine forall₂_ofList_filterMap (fun _ _ => id) (fun definition _ value hvalue => ?_) h
    rw [coerceVariable] at hvalue
    rw [traceVariable?]
    cases hgiven : values.get? definition.name with
    | some given =>
      rw [hgiven] at hvalue
      obtain ⟨coerced, -, rfl⟩ := map_eq_ok.1 hvalue
      exact .some rfl
    | none =>
      rw [hgiven] at hvalue
      cases hdefault : definition.default with
      | some default =>
        rw [hdefault] at hvalue
        obtain ⟨coerced, -, rfl⟩ := map_eq_ok.1 hvalue
        exact .some rfl
      | none =>
        rw [hdefault] at hvalue
        dsimp only at hvalue
        split at hvalue
        · cases hvalue
        · obtain rfl := Except.ok.inj hvalue
          exact .none
  have hkeys := map_eq_of_forall₂ (f := (·.1)) (g := (·.1)) (fun _ _ heq => heq.symm) hsame
  rw [Bool.eq_iff_iff, OrderedMap.has_iff_mem, OrderedMap.has_iff_mem, hkeys]

/-- Whether a traced value of an argument describes its resolved value. -/
def ValueDescribes (schema : Schema) (bindings : Members) (argument : InputDefinition)
    (traced : Provenance) (value : Json) : Prop :=
  traced.erase schema bindings (.argument argument.name) argument.type = .ok value

theorem resolveUnwritten_describes {argument : InputDefinition} {value : Option Json}
    (h : resolveUnwritten argument = .ok value) :
    Option.Rel (ValueDescribes schema bindings argument) (argument.default.map .default) value := by
  rw [resolveUnwritten] at h
  cases hdefault : argument.default with
  | some default =>
    rw [hdefault] at h
    obtain ⟨json, hjson, rfl⟩ := map_eq_ok.1 h
    exact .some hjson
  | none =>
    rw [hdefault] at h
    dsimp only at h
    split at h
    · cases h
    · obtain rfl := Except.ok.inj h
      exact .none

/-- What is written for an argument is traced if it has a value, and what is traced describes it. -/
theorem resolveWritten_describes {sources : TracedInputs}
    (hsame : ∀ name, sources.has name = bindings.has name) {argument : InputDefinition}
    {literal : Value} (hkeys : literal.hasUniqueKeys) {value : Option Json}
    (h : resolveWritten schema bindings argument literal = .ok value) :
    Option.Rel (ValueDescribes schema bindings argument) (literal.trace? sources) value := by
  cases hvariable : literal.asVariable? with
  | none =>
    rw [resolveWritten_of_literal hvariable] at h
    obtain ⟨json, hjson, rfl⟩ := map_eq_ok.1 h
    have herase := Value.erase_trace hsame hkeys hjson
    cases htraced : literal.trace? sources with
    | none =>
      have hunset := (trace?_eq_none_iff hsame).1 htraced
      rw [Value.isUnset, hvariable] at hunset
      cases hunset
    | some traced =>
      rw [htraced] at herase
      exact .some herase
  | some name =>
    obtain rfl := Value.eq_of_asVariable? hvariable
    rw [resolveWritten] at h
    rcases trace?_variable hsame name with ⟨hnone, htraced⟩ | ⟨json, traced, hjson, htraced, herase⟩
    · rw [hnone] at h
      obtain rfl := Except.ok.inj h
      rw [htraced]
      exact .none
    · rw [hjson] at h
      dsimp only at h
      split at h
      · cases h
      · obtain rfl := Except.ok.inj h
        rw [htraced]
        exact .some (herase _ _)

/-- An argument that is resolved is traced if it has a value, and what is traced describes it. -/
theorem resolveArgument_describes {sources : TracedInputs}
    (hsame : ∀ name, sources.has name = bindings.has name) {arguments : List Argument}
    (hkeys : ∀ argument ∈ arguments, argument.value.hasUniqueKeys) {argument : InputDefinition}
    {value : Option Json} (h : resolveArgument schema bindings arguments argument = .ok value) :
    Option.Rel (ValueDescribes schema bindings argument)
      (traceArgument? sources arguments argument) value := by
  rw [resolveArgument] at h
  rw [traceArgument?]
  cases hfind : findArgument? arguments argument.name with
  | none =>
    rw [hfind] at h
    exact resolveUnwritten_describes h
  | some literal =>
    rw [hfind] at h
    obtain ⟨written, hwritten, h⟩ := bind_eq_ok.1 h
    obtain ⟨argument', hmem, rfl⟩ := Option.map_eq_some_iff.1 hfind
    have hrel := resolveWritten_describes hsame (hkeys _ (List.mem_of_find?_eq_some hmem)) hwritten
    rw [Option.bind_some]
    cases htraced : argument'.value.trace? sources with
    | none =>
      rw [htraced] at hrel
      cases hrel
      exact resolveUnwritten_describes h
    | some traced =>
      rw [htraced] at hrel
      cases hrel with
      | some hdescribes =>
        obtain rfl := pure_eq_ok.1 h
        exact .some hdescribes

/-- Whether a traced argument of a field describes a resolved one: it has the same name and the type
that the field declares for it, and the value that it describes is the resolved one. -/
def Describes (schema : Schema) (bindings : Members) (definition : FieldDefinition)
    (traced : Name × TracedInput) (resolved : Name × Json) : Prop :=
  ∃ argument ∈ definition.arguments, traced.1 = argument.name ∧ resolved.1 = argument.name
    ∧ traced.2.type = argument.type
    ∧ ValueDescribes schema bindings argument traced.2.value resolved.2

/-- The arguments of a field are traced if they are resolved, in the order of their definitions, and
what is traced describes their values. -/
theorem traceArguments_describes {definition : FieldDefinition} {arguments : List Argument}
    {resolved : Members} (hbindings : coerceVariables schema definitions values = .ok bindings)
    (hkeys : ∀ argument ∈ arguments, argument.value.hasUniqueKeys)
    (h : resolveArguments schema bindings definition arguments = .ok resolved) :
    List.Forall₂ (Describes schema bindings definition)
        (traceArguments (traceVariables definitions values) definition arguments) resolved
      ∧ (resolved.map (·.1)).Sublist (definition.arguments.map (·.name)) := by
  rw [resolveArguments_eq_foldlM_addEntry] at h
  refine ⟨forall₂_ofList_filterMap (fun _ _ hentry => ?_) (fun argument hmem value hvalue => ?_) h,
    foldlM_addEntry_keys h⟩
  · obtain ⟨argument, -, htraced, hresolved, -⟩ := hentry
    exact htraced.trans hresolved.symm
  · have hrel := resolveArgument_describes (traceVariables_has hbindings) hkeys hvalue
    cases htraced : traceArgument? (traceVariables definitions values) arguments argument with
    | none =>
      rw [htraced] at hrel
      cases hrel
      exact .none
    | some traced =>
      rw [htraced] at hrel
      cases hrel with
      | some hdescribes => exact .some ⟨argument, hmem, rfl, rfl, rfl, hdescribes⟩

end Inputs

namespace Sample

/-- `($id: ID, $size: Int)` -/
def searchVariables : List VariableDefinition :=
  [⟨"id", .named "ID" false, none⟩, ⟨"size", .named "Int" false, none⟩]

/-- `(any: [{ k: null }], ids: [$id, $size], filter: { limit: $size, tags: "a" }, size: $size)` -/
def searchArguments : List Argument :=
  [⟨"any", .list [.object [("k", .null)]]⟩,
    ⟨"ids", .list [.variable "id", .variable "size"]⟩,
    ⟨"filter", .object [("limit", .variable "size"), ("tags", .string "a")]⟩,
    ⟨"size", .variable "size"⟩]

/-- The filter stands for a list of one, and so does its tag; without a value of `size`, the limit
and the page are defaults, and an identifier is null. -/
def searchResolved : Members :=
  [("filter", .array [.object [("tags", .array [.string "a"]), ("limit", .number (.int 10))]]),
    ("ids", .array [.string "x", .null]), ("any", .array [.object [("k", .null)]]),
    ("page", .number (.int 1))]

theorem search_describes :
    List.Forall₂ (Describes searchSchema [("id", .string "x")] search)
        (traceArguments (traceVariables searchVariables [("id", .string "x")]) search
          searchArguments) searchResolved
      ∧ (searchResolved.map (·.1)).Sublist (search.arguments.map (·.name)) :=
  traceArguments_describes rfl (by decide) rfl

end Sample

end SelectionForest
