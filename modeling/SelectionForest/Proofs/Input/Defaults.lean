import SelectionForest.Proofs.Input.SpelledOut

/-!
# Inputs that are left out

An argument, a variable or a field of an object that is left out takes its default as the JSON value
of the literal; what is written or given in its place goes along the type. So both come to the same
only as far as the default is spelled out.

* `resolve_leftOut`: an argument that is not written, and a field that an object literal leaves out;
* `coerce_leftOut`: a variable without a value, and a field that a given object leaves out.

In both cases leaving the default out succeeds where giving it does, and changes the value of that
input only.
-/

namespace SelectionForest

/-! ## One value replaced -/

section Replaced

variable {members : Members} {key : String} {value : Json}

/-- With one value replaced, a map is the one that it was if the two values are equal. -/
theorem insert_eq_self_iff (hvalue : members.get? key = some value) (other : Json) :
    members.insert key other = members ↔ other = value := by
  constructor
  · intro h
    have hget := members.get?_insert key key other
    rw [h, hvalue, if_pos rfl] at hget
    exact (Option.some.inj hget).symm
  · rintro rfl
    exact OrderedMap.insert_of_get? hvalue

/-- With one value replaced, a map has alike entries if the two values are alike. -/
theorem entriesAlike_insert_iff (hvalue : members.get? key = some value) (other : Json) :
    List.Forall₂ EntriesAlike (members.insert key other) members ↔ other.IsLike value := by
  have hrefl (members : Members) : List.Forall₂ EntriesAlike members members :=
    List.forall₂_same.2 fun entry _ => ⟨rfl, .refl entry.2⟩
  induction members with
  | nil => cases hvalue
  | cons entry members ih =>
    obtain ⟨first, found⟩ := entry
    rw [OrderedMap.get?_cons] at hvalue
    rw [OrderedMap.insert]
    by_cases hkey : first = key
    · rw [if_pos hkey] at hvalue ⊢
      obtain rfl := Option.some.inj hvalue
      rw [List.forall₂_cons, EntriesAlike]
      exact (and_iff_left (hrefl members)).trans (and_iff_right hkey.symm)
    · rw [if_neg hkey] at hvalue ⊢
      rw [List.forall₂_cons]
      exact (and_iff_right ⟨rfl, .refl found⟩).trans (ih hvalue)

/-- Maps that differ in one value only give like values if those are alike. -/
theorem lookUpAlike_iff {others : Members} {other : Json} (hvalue : members.get? key = some value)
    (hother : others.get? key = some other)
    (hsame : ∀ name, name ≠ key → members.get? name = others.get? name) :
    LookUpAlike members others ↔ value.IsLike other := by
  constructor
  · intro h
    have hkey := h key
    rw [hvalue, hother] at hkey
    cases hkey with
    | some hlike => exact hlike
  · intro hlike name
    by_cases hname : name = key
    · subst hname
      rw [hvalue, hother]
      exact .some hlike
    · rw [hsame name hname]
      cases others.get? name with
      | none => exact .none
      | some found => exact .some (.refl found)

end Replaced

section Middle

variable {α : Type} {p : α → Bool} {before after : List α} {entry : α}

/-- What is looked for is not the entry in the middle. -/
theorem find?_middle_of_neg (hentry : p entry = false) :
    (before ++ entry :: after).find? p = (before ++ after).find? p := by
  rw [List.find?_append, List.find?_append, List.find?_cons_of_neg (ne_true_of_eq_false hentry)]

/-- What is looked for is the entry in the middle, and no other. -/
theorem find?_middle_of_pos (hentry : p entry = true) (hnew : (before ++ after).find? p = none) :
    (before ++ entry :: after).find? p = some entry := by
  rw [List.find?_append, Option.or_eq_none_iff] at hnew
  rw [List.find?_append, hnew.1, List.find?_cons_of_pos hentry]
  rfl

end Middle

/-! ## Literals -/

section Written

variable {schema : Schema} {bindings : Members} {default : Value}
  (hdistinct : schema.hasDistinctInputs = true)
  (hconstant : default.variables = []) (hkeys : default.hasUniqueKeys = true)

include hdistinct hconstant hkeys

/-- An argument that is left out, and otherwise written as its default. -/
theorem resolveArguments_leftOut {definition : FieldDefinition}
    (hnames : (definition.arguments.map (·.name)).Nodup) {argument : InputDefinition}
    (hmem : argument ∈ definition.arguments) (hdefault : argument.default = some default)
    {before after : List Argument} (hnew : findArgument? (before ++ after) argument.name = none)
    {written : Members}
    (h : resolveArguments schema bindings definition
      (before ++ ⟨argument.name, default⟩ :: after) = .ok written) :
    ∃ json, default.Writes json
      ∧ resolveArguments schema bindings definition (before ++ after)
        = .ok (written.insert argument.name json)
      ∧ (List.Forall₂ EntriesAlike (written.insert argument.name json) written
        ↔ default.isSpelledOut schema argument.type = true) := by
  have hliteral := Value.asVariable?_of_constant hconstant
  have hfound : findArgument? (before ++ ⟨argument.name, default⟩ :: after) argument.name
      = some default := congrArg (Option.map Argument.value)
    (find?_middle_of_pos (decide_eq_true rfl) (Option.map_eq_none_iff.1 hnew))
  rw [resolveArguments_eq_foldlM_addEntry] at h ⊢
  obtain ⟨taken, htaken⟩ := foldlM_addEntry_each h argument hmem
  obtain ⟨value, hvalue, rfl⟩ :=
    map_eq_ok.1 ((resolveArgument_of_literal hfound hliteral).symm.trans htaken)
  obtain ⟨json, hjson⟩ := Value.exists_toJson hdistinct hconstant hkeys hvalue
    (.argument argument.name)
  have hother : resolveArgument schema bindings (before ++ after) argument = .ok (some json) := by
    rw [resolveArgument, hnew]
    dsimp only
    rw [resolveUnwritten, hdefault]
    exact map_eq_ok.2 ⟨json, hjson, rfl⟩
  have hsame : ∀ later ∈ definition.arguments, later.name ≠ argument.name →
      resolveArgument schema bindings (before ++ after) later
        = resolveArgument schema bindings (before ++ ⟨argument.name, default⟩ :: after) later := by
    intro later _ hne
    have hfound : findArgument? (before ++ ⟨argument.name, default⟩ :: after) later.name
        = findArgument? (before ++ after) later.name := congrArg (Option.map Argument.value)
      (find?_middle_of_neg (decide_eq_false (Ne.symm hne)))
    rw [resolveArgument, resolveArgument, hfound]
  refine ⟨json, Value.writes_of_toJson hjson,
    foldlM_addEntry_replace hnames hmem hsame htaken hother h, ?_⟩
  rw [entriesAlike_insert_iff (foldlM_addEntry_value hnames h hmem htaken)]
  exact Value.isLike_resolve_iff hdistinct hkeys hjson hvalue

/-- A field that an object literal leaves out, and otherwise writes as its default. -/
theorem Value.resolve_object_leftOut {type : TypeRef} {definitions : List InputDefinition}
    (htype : schema.type? type.innerName = some (.inputObject definitions))
    {field : InputDefinition} (hmem : field ∈ definitions) (hdefault : field.default = some default)
    {before after : List (Name × Value)}
    (hnew : OrderedMap.get? (before ++ after) field.name = none) {position : Position}
    {written : Json}
    (h : (Value.object (before ++ (field.name, default) :: after)).resolve schema bindings position
      type = .ok written) :
    ∃ left, (Value.object (before ++ after)).resolve schema bindings position type = .ok left
      ∧ (left.IsLike written ↔ default.isSpelledOut schema field.type = true) := by
  have hnames := Schema.inputs_nodup hdistinct htype
  rw [Value.resolve, htype] at h ⊢
  obtain ⟨object, hobject, rfl⟩ := map_eq_ok.1 h
  obtain ⟨hdeclared, members, hmembers, rfl⟩ := (resolveFields_eq_ok hnames).1 hobject
  obtain ⟨taken, htaken⟩ := foldlM_addEntry_each hmembers field hmem
  have hwritten : OrderedMap.get? (before ++ (field.name, default) :: after) field.name
      = some default := congrArg (Option.map Prod.snd)
    (find?_middle_of_pos (decide_eq_true rfl) (Option.map_eq_none_iff.1 hnew))
  have hset : default.isUnset bindings = false :=
    Value.isUnset_of_literal (Value.asVariable?_of_constant hconstant)
  obtain ⟨value, hvalue, rfl⟩ :=
    map_eq_ok.1 ((resolveMember_of_some hwritten hset).symm.trans htaken)
  obtain ⟨json, hjson⟩ := Value.exists_toJson hdistinct hconstant hkeys hvalue
    (.inputField type.innerName field.name)
  have hother : resolveMember schema bindings type.innerName (before ++ after) field
      = .ok (some json) := by
    rw [resolveMember_of_none hnew, hdefault]
    exact map_eq_ok.2 ⟨json, hjson, rfl⟩
  have hsame : ∀ later ∈ definitions, later.name ≠ field.name →
      resolveMember schema bindings type.innerName (before ++ after) later
        = resolveMember schema bindings type.innerName
          (before ++ (field.name, default) :: after) later := by
    intro later _ hne
    have hfound : OrderedMap.get? (before ++ (field.name, default) :: after) later.name
        = OrderedMap.get? (before ++ after) later.name := congrArg (Option.map Prod.snd)
      (find?_middle_of_neg (decide_eq_false (Ne.symm hne)))
    rw [resolveMember, resolveMember, hfound]
  have hleft := foldlM_addEntry_replace hnames hmem hsame htaken hother hmembers
  have hdeclared' : ∀ key ∈ (before ++ after).map (·.1), key ∈ definitions.map (·.name) :=
    fun key hkey => hdeclared key (List.Sublist.subset
      (((List.sublist_cons_self _ after).append_left before).map _) hkey)
  refine ⟨_, map_eq_ok.2 ⟨_, (resolveFields_eq_ok hnames).2 ⟨hdeclared', _, hleft, rfl⟩, rfl⟩, ?_⟩
  have hmember := foldlM_addEntry_value hnames hmembers hmem htaken
  rw [TypeRef.isLike_wrap_iff, Json.isLike_object_iff (nodup_of_resolveMembers hleft)
    (nodup_of_resolveMembers hmembers), ← Value.isLike_resolve_iff hdistinct hkeys hjson hvalue]
  refine lookUpAlike_iff ((OrderedMap.get?_insert ..).trans (if_pos rfl)) hmember fun name hne => ?_
  exact (OrderedMap.get?_insert ..).trans (if_neg (Ne.symm hne))

/-- What is left out takes its default as the JSON value of that, where the written default is
resolved along the type. Both succeed, with the same other values; they are alike if and only if the
default is spelled out. -/
theorem resolve_leftOut :
    (∀ {definition : FieldDefinition} {argument : InputDefinition} {before after : List Argument}
        {written : Members},
      (definition.arguments.map (·.name)).Nodup → argument ∈ definition.arguments →
      argument.default = some default → findArgument? (before ++ after) argument.name = none →
      resolveArguments schema bindings definition (before ++ ⟨argument.name, default⟩ :: after)
        = .ok written →
      ∃ json, default.Writes json
        ∧ resolveArguments schema bindings definition (before ++ after)
          = .ok (written.insert argument.name json)
        ∧ (List.Forall₂ EntriesAlike (written.insert argument.name json) written
          ↔ default.isSpelledOut schema argument.type = true))
    ∧ ∀ {type : TypeRef} {definitions : List InputDefinition} {field : InputDefinition}
        {before after : List (Name × Value)} {position : Position} {written : Json},
      schema.type? type.innerName = some (.inputObject definitions) → field ∈ definitions →
      field.default = some default → OrderedMap.get? (before ++ after) field.name = none →
      (Value.object (before ++ (field.name, default) :: after)).resolve schema bindings position
        type = .ok written →
      ∃ left, (Value.object (before ++ after)).resolve schema bindings position type = .ok left
        ∧ (left.IsLike written ↔ default.isSpelledOut schema field.type = true) :=
  ⟨fun hnames hmem hdefault hnew h =>
      resolveArguments_leftOut hdistinct hconstant hkeys hnames hmem hdefault hnew h,
    fun htype hmem hdefault hnew h =>
      Value.resolve_object_leftOut hdistinct hconstant hkeys htype hmem hdefault hnew h⟩

end Written

namespace Sample

/-- The page of a search that is left out, and the limit of a filter. -/
theorem search_leftOut :
    (∃ left, resolveArguments searchSchema [] search [⟨"size", .int "5"⟩] = .ok left
      ∧ List.Forall₂ EntriesAlike left [("page", .number (.int 1)), ("size", .number (.int 5))])
    ∧ ∃ left, (Value.object [("note", .null)]).resolve searchSchema [] (.argument "filter")
        (.named "Filter" false) = .ok left
      ∧ left.IsLike (.object [("limit", .number (.int 10)), ("note", .null)]) := by
  have hwritten : resolveArguments searchSchema [] search
        ([] ++ ⟨"page", .int "1"⟩ :: [⟨"size", .int "5"⟩])
      = .ok [("page", .number (.int 1)), ("size", .number (.int 5))] := rfl
  have hobject : (Value.object ([] ++ ("limit", .int "10") :: [("note", .null)])).resolve
        searchSchema [] (.argument "filter") (.named "Filter" false)
      = .ok (.object [("limit", .number (.int 10)), ("note", .null)]) := rfl
  have hnames : (search.arguments.map (·.name)).Nodup := by decide
  have hpage : ⟨"page", .named "Int" false, some (.int "1")⟩ ∈ search.arguments :=
    .tail _ (.tail _ (.tail _ (.head _)))
  have hlimit : ⟨"limit", .named "Int" false, some (.int "10")⟩ ∈ filterFields := .tail _ (.head _)
  constructor
  · obtain ⟨json, -, hleft, halike⟩ :=
      (resolve_leftOut rfl rfl rfl).1 hnames hpage rfl rfl hwritten
    exact ⟨_, hleft, halike.2 rfl⟩
  · obtain ⟨left, hleft, halike⟩ := (resolve_leftOut rfl rfl rfl).2 rfl hlimit rfl rfl hobject
    exact ⟨left, hleft, halike.2 rfl⟩

/-- `pages(sizes: [Int] = 1, filter: Filter = {}): Int` -/
def pages : FieldDefinition where
  name := "pages"
  arguments := [⟨"sizes", .list (.named "Int" false) false, some (.int "1")⟩,
    ⟨"filter", .named "Filter" false, some (.object [])⟩]
  type := .named "Int" false

/-- Both defaults may stand where they do, but neither is what it resolves to where it is written:
one is a single value at a list type, and the other leaves a field out that has a default itself. -/
theorem pages_differ :
    (Json.number (.int 1)).IsCoercible searchSchema (.list (.named "Int" false) false)
      ∧ (Json.object []).IsCoercible searchSchema (.named "Filter" false)
      ∧ ∃ left, resolveArguments searchSchema [] pages [] = .ok left
        ∧ (∃ written, resolveArguments searchSchema [] pages [⟨"sizes", .int "1"⟩] = .ok written
          ∧ ¬ List.Forall₂ EntriesAlike left written)
        ∧ ∃ written, resolveArguments searchSchema [] pages [⟨"filter", .object []⟩] = .ok written
          ∧ ¬ List.Forall₂ EntriesAlike left written := by
  have hsizes : ∃ out, (Json.number (.int 1)).coerce searchSchema (.argument "sizes")
      (.list (.named "Int" false) false) = .ok out := ⟨_, rfl⟩
  have hfilter : ∃ out, (Json.object []).coerce searchSchema (.argument "filter")
      (.named "Filter" false) = .ok out := ⟨_, rfl⟩
  refine ⟨(Json.isCoercible_iff rfl searchSchema_defaults).2 hsizes,
    (Json.isCoercible_iff rfl searchSchema_defaults).2 hfilter,
    [("sizes", .number (.int 1)), ("filter", .object [])], rfl,
    ⟨[("sizes", .array [.number (.int 1)]), ("filter", .object [])], rfl, fun h => ?_⟩,
    [("sizes", .number (.int 1)), ("filter", .object [("limit", .number (.int 10))])], rfl,
    fun h => ?_⟩
  · rw [List.forall₂_cons] at h
    cases h.1.2
  · rw [List.forall₂_cons, List.forall₂_cons] at h
    cases h.2.1.2 with
    | object keys => cases keys.length_eq

end Sample

/-! ## Values of variables -/

section Given

variable {schema : Schema} {default : Value} {json : Json}

/-- A variable that has no value, and otherwise that of its default. -/
theorem coerceVariables_leftOut (hdistinct : schema.hasDistinctInputs = true)
    (hkeys : default.hasUniqueKeys = true) (hjson : default.Writes json)
    {definitions : List VariableDefinition} (hnames : (definitions.map (·.name)).Nodup)
    {definition : VariableDefinition} (hmem : definition ∈ definitions)
    (hdefault : definition.default = some default) {values : Members}
    (hnew : values.get? definition.name = none) {supplied : Members}
    (h : coerceVariables schema definitions (values.insert definition.name json) = .ok supplied) :
    coerceVariables schema definitions values = .ok (supplied.insert definition.name json)
      ∧ (supplied.insert definition.name json = supplied
        ↔ default.isSpelledOut schema definition.type = true) := by
  have hvariable : coerceVariable schema (values.insert definition.name json) definition
      = (json.coerce schema (.variable definition.name) definition.type).map some := by
    rw [coerceVariable, OrderedMap.get?_insert, if_pos rfl]
  have hother : coerceVariable schema values definition = .ok (some json) := by
    rw [coerceVariable, hnew, hdefault]
    exact map_eq_ok.2 ⟨json, hjson _, rfl⟩
  have hsame : ∀ later ∈ definitions, later.name ≠ definition.name →
      coerceVariable schema values later
        = coerceVariable schema (values.insert definition.name json) later := by
    intro later _ hne
    rw [coerceVariable, coerceVariable, OrderedMap.get?_insert, if_neg (Ne.symm hne)]
  rw [coerceVariables_eq_foldlM] at h ⊢
  obtain ⟨taken, htaken⟩ := foldlM_addEntry_each h definition hmem
  obtain ⟨coerced, hcoerced, rfl⟩ := map_eq_ok.1 (hvariable.symm.trans htaken)
  refine ⟨foldlM_addEntry_replace hnames hmem hsame htaken hother h, ?_⟩
  rw [insert_eq_self_iff (foldlM_addEntry_value hnames h hmem htaken)]
  exact Value.coerce_eq_iff hdistinct hkeys (hjson (.variable definition.name)) hcoerced

section Fields

variable {type : Name} {definitions : List InputDefinition}
  (hnames : (definitions.map (·.name)).Nodup) {field : InputDefinition} (hmem : field ∈ definitions)
  (hdefault : field.default = some default) (hjson : default.Writes json) {members : Members}
  (hnew : members.get? field.name = none)

include hnames hmem hdefault hjson hnew

/-- An object that leaves a field out is filled in with the default there, and elsewhere as if the
field was given. -/
theorem exists_filled_leftOut {filled : Members}
    (h : definitions.foldlM
      (addEntry (·.name) (supplyField schema type (members.insert field.name json)))
      (members.insert field.name json) = .ok filled) :
    ∃ left, definitions.foldlM (addEntry (·.name) (supplyField schema type members)) members
        = .ok left
      ∧ left.get? field.name = some json
      ∧ ∀ key, key ≠ field.name → left.get? key = filled.get? key := by
  have hget (key : Name) (hne : key ≠ field.name) :
      (members.insert field.name json).get? key = members.get? key :=
    (members.get?_insert field.name key json).trans (if_neg (Ne.symm hne))
  have hfield : supplyField schema type members field = .ok (some json) := by
    rw [supplyField, hnew, hdefault]
    exact map_eq_ok.2 ⟨json, hjson _, rfl⟩
  have hsame : ∀ later ∈ definitions, later.name ≠ field.name →
      supplyField schema type members later = .ok (filled.get? later.name) := by
    intro later hlater hne
    rw [← supplyField_eq_ok hnames h hlater, supplyField, supplyField, hget later.name hne]
  have heach : ∀ later ∈ definitions, ∃ taken,
      supplyField schema type members later = .ok taken := by
    intro later hlater
    by_cases hname : later.name = field.name
    · exact ⟨some json, List.inj_on_of_nodup_map hnames hlater hmem hname ▸ hfield⟩
    · exact ⟨_, hsame later hlater hname⟩
  have hleft : ∃ left, definitions.foldlM
      (addEntry (·.name) (supplyField schema type members)) members = .ok left :=
    exists_foldlM_addEntry heach members
  obtain ⟨left, hleft⟩ := hleft
  refine ⟨left, hleft, ?_, fun key hne => ?_⟩
  · exact (Except.ok.inj (hfield.symm.trans (supplyField_eq_ok hnames hleft hmem))).symm
  · by_cases hkey : key ∈ definitions.map (·.name)
    · obtain ⟨later, hlater, rfl⟩ := List.mem_map.1 hkey
      exact Except.ok.inj
        ((supplyField_eq_ok hnames hleft hlater).symm.trans (hsame later hlater hne))
    · rw [foldlM_addEntry_other hkey hleft, foldlM_addEntry_other hkey h, hget key hne]

end Fields

/-- A field that an object leaves out, and otherwise has as its default. -/
theorem Json.coerce_object_leftOut (hdistinct : schema.hasDistinctInputs = true)
    (hkeys : default.hasUniqueKeys = true) (hjson : default.Writes json) {type : TypeRef}
    {definitions : List InputDefinition}
    (htype : schema.type? type.innerName = some (.inputObject definitions))
    {field : InputDefinition} (hmem : field ∈ definitions) (hdefault : field.default = some default)
    {members : Members} (hnd : (members.map (·.1)).Nodup)
    (hnew : members.get? field.name = none) {position : Position} {supplied : Json}
    (h : (Json.object (members.insert field.name json)).coerce schema position type
      = .ok supplied) :
    ∃ left, (Json.object members).coerce schema position type = .ok left
      ∧ (left.IsLike supplied ↔ default.isSpelledOut schema field.type = true) := by
  have hnames := Schema.inputs_nodup hdistinct htype
  have hnd' := OrderedMap.nodup_insert hnd field.name json
  rw [Json.coerce, htype] at h ⊢
  obtain ⟨object, hobject, rfl⟩ := map_eq_ok.1 h
  obtain ⟨hdeclared, filled, hfilled, rfl⟩ := (fillMembers_eq_ok hnames).1 hobject
  obtain ⟨left, hleft, hvalue, hsame⟩ :=
    exists_filled_leftOut hnames hmem hdefault hjson hnew hfilled
  have hleftDeclared : ∀ key ∈ members.map (·.1), key ∈ definitions.map (·.name) := by
    intro key hkey
    refine hdeclared key ?_
    rw [OrderedMap.keys_insert]
    split
    · exact hkey
    · exact List.mem_append_left _ hkey
  -- With the field given, the value of the default is coerced.
  have hgiven := supplyField_eq_ok hnames hfilled hmem
  rw [supplyField, OrderedMap.get?_insert, if_pos rfl] at hgiven
  obtain ⟨coerced, hcoerced, htaken⟩ := map_eq_ok.1 hgiven
  refine ⟨_, map_eq_ok.2 ⟨_, (fillMembers_eq_ok hnames).2 ⟨hleftDeclared, _, hleft, rfl⟩, rfl⟩, ?_⟩
  rw [TypeRef.isLike_wrap_iff, Json.isLike_object_iff (foldlM_addEntry_nodup hnd hleft)
    (foldlM_addEntry_nodup hnd' hfilled), lookUpAlike_iff hvalue htaken.symm hsame]
  exact Value.isLike_coerce_iff hdistinct hkeys (hjson (.inputField type.innerName field.name))
    hcoerced

variable (hdistinct : schema.hasDistinctInputs = true) (hkeys : default.hasUniqueKeys = true)
  (hjson : default.Writes json)

include hdistinct hkeys hjson

/-- What is left out takes its default as the JSON value of that, where the same value is coerced
along the type if it is given. Both succeed, with the same other values; they are equal if and only
if the default is spelled out, and so are objects up to the order of keys. -/
theorem coerce_leftOut :
    (∀ {definitions : List VariableDefinition} {definition : VariableDefinition}
        {values supplied : Members},
      (definitions.map (·.name)).Nodup → definition ∈ definitions →
      definition.default = some default → values.get? definition.name = none →
      coerceVariables schema definitions (values.insert definition.name json) = .ok supplied →
      coerceVariables schema definitions values = .ok (supplied.insert definition.name json)
        ∧ (supplied.insert definition.name json = supplied
          ↔ default.isSpelledOut schema definition.type = true))
    ∧ ∀ {type : TypeRef} {definitions : List InputDefinition} {field : InputDefinition}
        {members : Members} {position : Position} {supplied : Json},
      schema.type? type.innerName = some (.inputObject definitions) → field ∈ definitions →
      field.default = some default → (members.map (·.1)).Nodup → members.get? field.name = none →
      (Json.object (members.insert field.name json)).coerce schema position type = .ok supplied →
      ∃ left, (Json.object members).coerce schema position type = .ok left
        ∧ (left.IsLike supplied ↔ default.isSpelledOut schema field.type = true) :=
  ⟨fun hnames hmem hdefault hnew h =>
      coerceVariables_leftOut hdistinct hkeys hjson hnames hmem hdefault hnew h,
    fun htype hmem hdefault hnd hnew h =>
      Json.coerce_object_leftOut hdistinct hkeys hjson htype hmem hdefault hnd hnew h⟩

end Given

namespace Sample

/-- The page that has no value, and the limit of a filter that leaves it out. -/
theorem pagedVariables_leftOut :
    coerceVariables searchSchema pagedVariables pagedValues = .ok pagedBindings
      ∧ ∃ left, (Json.object [("note", .null)]).coerce searchSchema (.variable "filter")
          (.named "Filter" false) = .ok left
        ∧ left.IsLike (.object [("note", .null), ("limit", .number (.int 10))]) := by
  have hsupplied : coerceVariables searchSchema pagedVariables
      (OrderedMap.insert pagedValues "page" (.number (.int 1))) = .ok pagedBindings := rfl
  have hobject : (Json.object
        (OrderedMap.insert [("note", .null)] "limit" (.number (.int 10)))).coerce searchSchema
        (.variable "filter") (.named "Filter" false)
      = .ok (.object [("note", .null), ("limit", .number (.int 10))]) := rfl
  have hpage : ⟨"page", .named "Int" true, some (.int "1")⟩ ∈ pagedVariables := .tail _ (.head _)
  have hlimit : ⟨"limit", .named "Int" false, some (.int "10")⟩ ∈ filterFields := .tail _ (.head _)
  have hone : (Value.int "1").Writes (.number (.int 1)) := fun _ => rfl
  have hten : (Value.int "10").Writes (.number (.int 10)) := fun _ => rfl
  constructor
  · obtain ⟨hleft, hsame⟩ :=
      (coerce_leftOut rfl rfl hone).1 (by decide) hpage rfl rfl hsupplied
    rw [hleft, hsame.2 rfl]
  · obtain ⟨left, hleft, halike⟩ :=
      (coerce_leftOut rfl rfl hten).2 rfl hlimit rfl (by decide) rfl hobject
    exact ⟨left, hleft, halike.2 rfl⟩

/-- `($sizes: [Int] = 1)` -/
def sizesVariable : VariableDefinition :=
  ⟨"sizes", .list (.named "Int" false) false, some (.int "1")⟩

/-- A single value is no list if it is the default of a variable, and one if it is given. -/
theorem sizesVariable_differs :
    (Value.int "1").Writes (.number (.int 1))
      ∧ (Json.number (.int 1)).IsCoercible searchSchema sizesVariable.type
      ∧ ∃ left supplied, coerceVariables searchSchema [sizesVariable] [] = .ok left
        ∧ coerceVariables searchSchema [sizesVariable] [("sizes", .number (.int 1))] = .ok supplied
        ∧ left.get? "sizes" ≠ supplied.get? "sizes" := by
  have hsizes : ∃ out, (Json.number (.int 1)).coerce searchSchema (.variable "sizes")
      sizesVariable.type = .ok out := ⟨_, rfl⟩
  exact ⟨fun _ => rfl, (Json.isCoercible_iff rfl searchSchema_defaults).2 hsizes,
    [("sizes", .number (.int 1))], [("sizes", .array [.number (.int 1)])], rfl, rfl, nofun⟩

end Sample

end SelectionForest
