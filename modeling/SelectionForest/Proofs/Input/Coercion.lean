import SelectionForest.Proofs.Input.Coercible
import SelectionForest.Proofs.Input.Faults

/-!
# Which values variables may have

Coercion accepts the coercible values (`Json.isCoercible_iff`) and gives what they are coerced to
(`Json.coercesTo_of_coerce`). Types may mention each other in circles, so the induction is on the
value, and under it on the lists of a type where a single value stands for a list of one.

* `coerceVariables_accepts`: values are accepted for variables if each variable has a value that is
  coercible to its type, or none and needs none. The result has the variables with a value or a
  default, in the order of their definitions.
-/

namespace SelectionForest

/-! ## Parts -/

section Coercing

variable {schema : Schema} {position : Position} {value out : Json}

/-- What is let through at a named type without parts. -/
theorem coerceLeaf_iff {name : Name} :
    coerceLeaf schema position name value = .ok out
      ↔ out = value ∧ (schema.type? name = some .scalar ∧ value.IsOfScalar name
        ∨ ∃ values, schema.type? name = some (.enum values)
          ∧ ∃ text ∈ values, value = .string text) := by
  have hnames (values : List Name) : (value.asString?.any fun text => text ∈ values) = true
      ↔ ∃ text ∈ values, value = .string text := by
    cases value <;> simp [Json.asString?]
  have hleaf (accepted : Bool) (error : Error) :
      (if accepted then .ok value else .error error : Outcome Json) = .ok out
        ↔ out = value ∧ accepted = true := by
    cases accepted with
    | false => simp
    | true => simpa using eq_comm
  rw [coerceLeaf]
  cases schema.type? name with
  | none => simp
  | some definition =>
    cases definition with
    | scalar => simp [hleaf, scalarAccepts_iff]
    | enum values => simp [hleaf, hnames]
    | _ => simp

theorem TypeRef.map_wrap_named {name : Name} {nonNull : Bool} (x : Outcome Json) :
    x.map (TypeRef.named name nonNull).wrap = x := by
  cases x <;> rfl

/-- At a named type, a value is coerced as one without parts, unless it is an object and the type is
an input object. -/
theorem Json.coerce_named (hnull : value.isNull = false) {name : Name} {nonNull : Bool}
    (hleaf : ∀ fields, schema.type? name = some (.inputObject fields) → value.asObject? = none) :
    value.coerce schema position (.named name nonNull) = coerceLeaf schema position name value := by
  cases value with
  | null => cases hnull
  | array items => rfl
  | object members =>
    rw [Json.coerce]
    split
    · rename_i fields htype
      cases hleaf fields htype
    · exact TypeRef.map_wrap_named _
  | _ => exact TypeRef.map_wrap_named _

/-- At an input object type, an object has its members coerced and its fields filled in. -/
theorem Json.coerce_object {name : Name} {nonNull : Bool} {fields : List InputDefinition}
    (htype : schema.type? name = some (.inputObject fields)) (members : Members) :
    (Json.object members).coerce schema position (.named name nonNull)
      = fillMembers name fields (coerceMembers schema members name fields) members := by
  have hname : (TypeRef.named name nonNull).innerName = name := rfl
  rw [Json.coerce, hname, htype]
  exact TypeRef.map_wrap_named _

/-- A single value at a list type is put in a list. -/
theorem Json.coerce_single (hnull : value.isNull = false) (harray : value.asArray? = none)
    {item : TypeRef} {nonNull : Bool} :
    value.coerce schema position (.list item nonNull)
      = (value.coerce schema position item).map fun out => .array [out] := by
  have hmap (x : Outcome Json) :
      x.map (TypeRef.list item nonNull).wrap = (x.map item.wrap).map fun out => .array [out] := by
    cases x <;> rfl
  cases value with
  | null => cases hnull
  | array items => cases harray
  | object members =>
    have hname : (TypeRef.list item nonNull).innerName = item.innerName := rfl
    rw [Json.coerce, Json.coerce, hname]
    cases schema.type? item.innerName with
    | none => exact hmap _
    | some definition => cases definition <;> exact hmap _
  | _ => exact hmap _

end Coercing

/-! ## Objects -/

/-- What an input takes: the value given for it, coerced, or its default. -/
def supply (schema : Schema) (position : Position) (default : Option Value) (type : TypeRef)
    (missing : Error) : Option Json → Outcome (Option Json)
  | some value => (value.coerce schema position type).map some
  | none =>
    match default with
    | some default => (default.toJson position).map some
    | none => if type.isNonNull then .error missing else .ok none

section Supplying

variable {schema : Schema} {position : Position} {default : Option Value} {type : TypeRef}
  {missing : Error} {given : Option Json}

theorem supplies_of_supply {taken : Option Json}
    (h : supply schema position default type missing given = .ok taken) :
    Supplies (fun value out => value.coerce schema position type = .ok out) default type given
      taken := by
  cases given with
  | some value =>
    obtain ⟨out, hout, rfl⟩ := map_eq_ok.1 h
    exact .given hout
  | none =>
    cases default with
    | some literal =>
      obtain ⟨out, hout, rfl⟩ := map_eq_ok.1 h
      exact .default rfl (Value.writes_of_toJson hout)
    | none =>
      rw [supply] at h
      split at h
      · cases h
      · rename_i hnullable
        obtain rfl := Except.ok.inj h
        exact .absent rfl (Bool.eq_false_of_not_eq_true hnullable)

theorem exists_supply (hdefault : DefaultConverts default)
    (hgiven : ∀ value, given = some value → ∃ out, value.coerce schema position type = .ok out)
    (habsent : given = none → MayBeAbsent default type) :
    ∃ taken, supply schema position default type missing given = .ok taken := by
  cases given with
  | some value =>
    obtain ⟨out, hout⟩ := hgiven value rfl
    exact ⟨some out, map_eq_ok.2 ⟨out, hout, rfl⟩⟩
  | none =>
    cases default with
    | some literal =>
      obtain ⟨out, hout⟩ := hdefault literal rfl
      exact ⟨some out, map_eq_ok.2 ⟨out, hout position, rfl⟩⟩
    | none =>
      have hnullable := (habsent rfl).resolve_left Bool.false_ne_true
      exact ⟨none, if_neg (by rw [hnullable]; exact Bool.false_ne_true)⟩

end Supplying

/-- Whether no input object of a schema has two fields of one name. -/
def Schema.hasDistinctInputs (schema : Schema) : Bool :=
  schema.types.all fun (_, type) => distinct (type.inputFields.map (·.name))

/-- Whether the defaults of the fields of input objects have JSON values. -/
def Schema.DefaultsConvert (schema : Schema) : Prop :=
  ∀ entry ∈ schema.types, ∀ field ∈ entry.2.inputFields, DefaultConverts field.default

theorem Schema.inputs_nodup {schema : Schema} (hdistinct : schema.hasDistinctInputs = true)
    {name : Name} {fields : List InputDefinition}
    (htype : schema.type? name = some (.inputObject fields)) : (fields.map (·.name)).Nodup :=
  of_decide_eq_true (List.all_eq_true.1 hdistinct _ (mem_of_type? htype))

section Members

variable {schema : Schema} {type : Name} {fields : List InputDefinition}

/-- What an object with some members has for a field of its type. -/
def supplyField (schema : Schema) (type : Name) (members : Members) (field : InputDefinition) :
    Outcome (Option Json) :=
  supply schema (.inputField type field.name) field.default field.type
    (.variable (.missingField type field.name)) (members.get? field.name)

theorem mem_names_iff {key : Name} :
    key ∈ fields.map (·.name) ↔ (findDefinition? fields key).isSome = true := by
  simp [findDefinition?]

/-- The fields of an object are filled in one after the other. -/
theorem fillMember_eq_addEntry (hnd : (fields.map (·.name)).Nodup) {members : Members}
    {field : InputDefinition} (hfield : field ∈ fields) (filled : Members) :
    fillMember type (coerceMembers schema members type fields) filled field
      = addEntry (·.name) (supplyField schema type members) filled field := by
  have hfind : findDefinition? fields field.name = some field := find?_of_nodup hnd hfield
  rw [fillMember, get?_coerceMembers, hfind]
  cases hgiven : members.get? field.name with
  | some value =>
    refine (addEntry_of_map ?_).symm
    rw [supplyField, hgiven, supply]
  | none =>
    dsimp only [Option.map_none]
    cases hdefault : field.default with
    | some literal =>
      refine (addEntry_of_map ?_).symm
      rw [supplyField, hgiven, hdefault, supply]
    | none =>
      rw [addEntry, supplyField, hgiven, hdefault, supply]
      cases field.type.isNonNull <;> rfl

/-- An object is accepted if it has declared keys only and its fields can be filled in. -/
theorem fillMembers_eq_ok (hnd : (fields.map (·.name)).Nodup) {members : Members} {out : Json} :
    fillMembers type fields (coerceMembers schema members type fields) members = .ok out
      ↔ (∀ key ∈ members.map (·.1), key ∈ fields.map (·.name))
        ∧ ∃ filled, fields.foldlM (addEntry (·.name) (supplyField schema type members)) members
            = .ok filled ∧ Json.object filled = out := by
  have hdeclared : (members.find? fun member => (findDefinition? fields member.1).isNone) = none
      ↔ ∀ key ∈ members.map (·.1), key ∈ fields.map (·.name) := by
    rw [find?_unknown_eq_none]
    exact forall₂_congr fun _ _ => mem_names_iff.symm
  rw [← hdeclared, ← map_eq_ok,
    ← foldlM_congr fun field hfield state => fillMember_eq_addEntry hnd hfield state, fillMembers]
  cases members.find? fun member => (findDefinition? fields member.1).isNone with
  | none => simp
  | some member => simp

/-- Each field of an object that is filled in has what it takes. -/
theorem supplyField_eq_ok (hnd : (fields.map (·.name)).Nodup) {members filled : Members}
    (h : fields.foldlM (addEntry (·.name) (supplyField schema type members)) members = .ok filled)
    {field : InputDefinition} (hfield : field ∈ fields) :
    supplyField schema type members field = .ok (filled.get? field.name) := by
  obtain ⟨taken, htaken⟩ := foldlM_addEntry_each h field hfield
  rw [foldlM_addEntry_value hnd h hfield htaken, (supplies_of_supply htaken).or_eq]
  exact htaken

/-- What the members of an object are filled up to. -/
theorem coercesTo_of_filled {nonNull : Bool}
    (htype : schema.type? type = some (.inputObject fields)) (hnd : (fields.map (·.name)).Nodup)
    {members filled : Members}
    (hdeclared : ∀ key ∈ members.map (·.1), key ∈ fields.map (·.name))
    (h : fields.foldlM (addEntry (·.name) (supplyField schema type members)) members = .ok filled)
    (hmembers : ∀ member ∈ members, ∀ {position type out},
      member.2.coerce schema position type = .ok out → member.2.CoercesTo schema type out) :
    (Json.object members).CoercesTo schema (.named type nonNull) (.object filled) := by
  -- A field that takes a value has it in the result, and one that takes none has no member.
  have hsupplies : ∀ field ∈ fields,
      Supplies (fun value out => value.CoercesTo schema field.type out) field.default field.type
        (members.get? field.name) (filled.get? field.name) := by
    intro field hfield
    have hsupply := supplies_of_supply (supplyField_eq_ok hnd h hfield)
    exact hsupply.imp fun value out hvalue _ hout =>
      hmembers _ (OrderedMap.mem_of_get? hvalue) hout
  refine .object htype hdeclared ?_ ?_ fun field hfield => (hsupplies field hfield).imp
    fun _ _ _ _ _ => trivial
  · refine foldlM_addEntry_keys_eq hnd (fun field hfield hnew taken htaken => ?_) h
    have hgiven : members.get? field.name = none := by
      rw [OrderedMap.has] at hnew
      exact Option.not_isSome_iff_eq_none.1 (ne_true_of_eq_false hnew)
    rw [(supplies_of_supply htaken).isSome_eq, hgiven]
    rfl
  · intro field hfield value out hvalue hout
    have hsupply := hsupplies field hfield
    rw [hvalue, hout] at hsupply
    cases hsupply with
    | given hvalue => exact hvalue

end Members

/-! ## Values -/

section Values

variable {schema : Schema} {position : Position} {value out : Json} {type : TypeRef}

theorem Json.coercesTo_of_leaf (hnull : value.isNull = false) {name : Name} {nonNull : Bool}
    (h : coerceLeaf schema position name value = .ok out) :
    value.CoercesTo schema (.named name nonNull) out := by
  obtain ⟨rfl, ⟨htype, hvalue⟩ | ⟨values, htype, text, htext, rfl⟩⟩ := coerceLeaf_iff.1 h
  · exact .scalar hnull htype hvalue
  · exact .enum htype htext

/-- A single value that is accepted at the named type inside all lists is accepted at the lists as a
list of one. -/
theorem Json.coercesTo_of_single (hnull : value.isNull = false) (harray : value.asArray? = none)
    (hnamed : ∀ {name nonNull out}, value.coerce schema position (.named name nonNull) = .ok out →
      value.CoercesTo schema (.named name nonNull) out)
    (h : value.coerce schema position type = .ok out) : value.CoercesTo schema type out := by
  induction type generalizing out with
  | named name nonNull => exact hnamed h
  | list item nonNull ih =>
    rw [Json.coerce_single hnull harray] at h
    obtain ⟨out, hout, rfl⟩ := map_eq_ok.1 h
    exact .single hnull harray (ih hout)

/-- A value without parts is coerced to itself, or to lists of one. -/
theorem Json.coercesTo_of_atom (hnull : value.isNull = false) (harray : value.asArray? = none)
    (hobject : value.asObject? = none) (h : value.coerce schema position type = .ok out) :
    value.CoercesTo schema type out := by
  refine Json.coercesTo_of_single hnull harray (fun h => ?_) h
  rw [Json.coerce_named hnull fun _ _ => hobject] at h
  exact Json.coercesTo_of_leaf hnull h

/-- What coercion gives is what a value is coerced to. -/
theorem Json.coercesTo_of_coerce (hdistinct : schema.hasDistinctInputs = true)
    (h : value.coerce schema position type = .ok out) : value.CoercesTo schema type out := by
  induction value using Json.induction generalizing position type out with
  | null =>
    rw [Json.coerce] at h
    split at h
    · cases h
    · rename_i hnullable
      obtain rfl := Except.ok.inj h
      exact .null (Bool.eq_false_of_not_eq_true hnullable)
  | array items ih =>
    cases type with
    | named name nonNull => exact Json.coercesTo_of_leaf rfl h
    | list item nonNull =>
      rw [Json.coerce, coerceItems_eq_mapM] at h
      obtain ⟨coerced, hcoerced, rfl⟩ := map_eq_ok.1 h
      have hitems : List.Forall₂ (fun value out => value.CoercesTo schema item out) items coerced :=
        forall₂_imp_of_mem (fun value hvalue _ hout => ih value hvalue hout)
          (mapM_eq_ok.1 hcoerced)
      obtain ⟨hlength, hitems⟩ := List.forall₂_iff_zip.1 hitems
      exact .list hlength hitems
  | object members ih =>
    refine Json.coercesTo_of_single rfl rfl (fun {name nonNull out} h => ?_) h
    by_cases hobject : ∃ fields, schema.type? name = some (.inputObject fields)
    · obtain ⟨fields, htype⟩ := hobject
      have hnd := Schema.inputs_nodup hdistinct htype
      rw [Json.coerce_object htype] at h
      obtain ⟨hdeclared, filled, hfilled, rfl⟩ := (fillMembers_eq_ok hnd).1 h
      exact coercesTo_of_filled htype hnd hdeclared hfilled fun member hmember => ih member hmember
    · rw [Json.coerce_named rfl fun fields htype => absurd ⟨fields, htype⟩ hobject] at h
      exact Json.coercesTo_of_leaf rfl h
  | _ => exact Json.coercesTo_of_atom rfl rfl rfl h

theorem Json.coerce_scalar (hnull : value.isNull = false) {name : Name} {nonNull : Bool}
    (htype : schema.type? name = some .scalar) (hvalue : value.IsOfScalar name) :
    value.coerce schema position (.named name nonNull) = .ok value := by
  rw [Json.coerce_named hnull fun fields hobject => ?_]
  · exact coerceLeaf_iff.2 ⟨rfl, .inl ⟨htype, hvalue⟩⟩
  · rw [htype] at hobject
    cases hobject

theorem Json.coerce_enum {text : String} {name : Name} {nonNull : Bool} {values : List Name}
    (htype : schema.type? name = some (.enum values)) (hvalue : text ∈ values) :
    (Json.string text).coerce schema position (.named name nonNull) = .ok (.string text) := by
  rw [Json.coerce_named rfl fun _ _ => rfl]
  exact coerceLeaf_iff.2 ⟨rfl, .inr ⟨values, htype, text, hvalue, rfl⟩⟩

/-- What may be given is accepted. -/
theorem Json.IsCoercible.exists_coerce (hdistinct : schema.hasDistinctInputs = true)
    (hdefaults : schema.DefaultsConvert) (h : value.IsCoercible schema type)
    (position : Position) : ∃ out, value.coerce schema position type = .ok out := by
  induction h generalizing position with
  | null hnullable => exact ⟨.null, if_neg (by rw [hnullable]; exact Bool.false_ne_true)⟩
  | list _ ih =>
    obtain ⟨coerced, hcoerced⟩ := exists_mapM fun value hvalue => ih value hvalue position
    refine ⟨.array coerced, ?_⟩
    rw [Json.coerce, coerceItems_eq_mapM]
    exact map_eq_ok.2 ⟨coerced, hcoerced, rfl⟩
  | single hnull harray _ ih =>
    obtain ⟨out, hout⟩ := ih position
    rw [Json.coerce_single hnull harray]
    exact ⟨.array [out], map_eq_ok.2 ⟨out, hout, rfl⟩⟩
  | scalar hnull htype hvalue => exact ⟨_, Json.coerce_scalar hnull htype hvalue⟩
  | enum htype hvalue => exact ⟨_, Json.coerce_enum htype hvalue⟩
  | @object members name _ fields htype hdeclared _ habsent ih =>
    have hfields := hdefaults _ (Schema.mem_of_type? htype)
    have hsupply : ∀ field ∈ fields, ∃ taken, supplyField schema name members field = .ok taken :=
      fun field hfield => exists_supply (hfields field hfield)
        (fun value hvalue => ih field hfield value hvalue _) (habsent field hfield)
    have hfill : ∃ filled,
        fields.foldlM (addEntry (·.name) (supplyField schema name members)) members = .ok filled :=
      exists_foldlM_addEntry hsupply members
    obtain ⟨filled, hfilled⟩ := hfill
    rw [Json.coerce_object htype]
    exact ⟨.object filled, (fillMembers_eq_ok (Schema.inputs_nodup hdistinct htype)).2
      ⟨hdeclared, filled, hfilled, rfl⟩⟩

/-- Coercion accepts the coercible values. -/
theorem Json.isCoercible_iff (hdistinct : schema.hasDistinctInputs = true)
    (hdefaults : schema.DefaultsConvert) :
    value.IsCoercible schema type ↔ ∃ out, value.coerce schema position type = .ok out :=
  ⟨fun h => h.exists_coerce hdistinct hdefaults position,
    fun ⟨_, h⟩ => (Json.coercesTo_of_coerce hdistinct h).isCoercible⟩

end Values

/-! ## Variables -/

/-- Whether a variable has a value of its type, or none and needs none. -/
structure VariableDefinition.IsMet (schema : Schema) (values : Members)
    (definition : VariableDefinition) : Prop where
  given : ∀ value, values.get? definition.name = some value →
    value.IsCoercible schema definition.type
  absent : values.get? definition.name = none →
    MayBeAbsent definition.default definition.type

section Variables

variable {schema : Schema} {values : Members}

theorem coerceVariable_eq_supply (definition : VariableDefinition) :
    coerceVariable schema values definition
      = supply schema (.variable definition.name) definition.default definition.type
          (.variable (.missingVariable definition.name)) (values.get? definition.name) := by
  rw [coerceVariable]
  cases values.get? definition.name <;> rfl

/-- What a variable takes. -/
theorem supplies_of_coerceVariable (hdistinct : schema.hasDistinctInputs = true)
    {definition : VariableDefinition} {taken : Option Json}
    (h : coerceVariable schema values definition = .ok taken) :
    Supplies (fun value out => value.CoercesTo schema definition.type out) definition.default
      definition.type (values.get? definition.name) taken := by
  rw [coerceVariable_eq_supply] at h
  exact (supplies_of_supply h).imp fun _ _ _ _ hout => Json.coercesTo_of_coerce hdistinct hout

/-- Variables of different names have what each of them takes. -/
theorem coerceVariable_of_coerceVariables {definitions : List VariableDefinition}
    (hnames : (definitions.map (·.name)).Nodup) {out : Members}
    (h : coerceVariables schema definitions values = .ok out) {definition : VariableDefinition}
    (hmem : definition ∈ definitions) :
    coerceVariable schema values definition = .ok (out.get? definition.name) := by
  rw [coerceVariables_eq_foldlM] at h
  obtain ⟨taken, htaken⟩ := foldlM_addEntry_each h definition hmem
  rw [foldlM_addEntry_value hnames h hmem htaken, htaken]
  exact congrArg Except.ok Option.or_none.symm

/-- A variable that is met is coerced, and others are refused. -/
theorem VariableDefinition.isMet_iff (hdistinct : schema.hasDistinctInputs = true)
    (hfields : schema.DefaultsConvert) {definition : VariableDefinition}
    (hdefault : DefaultConverts definition.default) :
    definition.IsMet schema values
      ↔ ∃ taken, coerceVariable schema values definition = .ok taken := by
  constructor
  · intro h
    rw [coerceVariable_eq_supply]
    exact exists_supply hdefault (fun value hvalue =>
      (Json.isCoercible_iff hdistinct hfields).1 (h.given value hvalue)) h.absent
  · rintro ⟨taken, htaken⟩
    rw [coerceVariable_eq_supply] at htaken
    have hsupply := supplies_of_supply htaken
    refine ⟨fun value hvalue => ?_, hsupply.mayBeAbsent⟩
    rw [hvalue] at hsupply
    cases hsupply with
    | given hout => exact (Json.isCoercible_iff hdistinct hfields).2 ⟨_, hout⟩

/-- Values are accepted for variables if every variable is met. The result then has the variables
that have a value or a default, in the order of their definitions, with what the value is coerced to
or the value of the default. -/
theorem coerceVariables_accepts {definitions : List VariableDefinition}
    (hnames : (definitions.map (·.name)).Nodup) (hdistinct : schema.hasDistinctInputs = true)
    (hfields : schema.DefaultsConvert)
    (hdefaults : ∀ definition ∈ definitions, DefaultConverts definition.default) :
    ((∃ out, coerceVariables schema definitions values = .ok out)
        ↔ ∀ definition ∈ definitions, definition.IsMet schema values)
      ∧ ∀ out, coerceVariables schema definitions values = .ok out →
        out.map (·.1) = (definitions.filter fun definition =>
          values.has definition.name || definition.default.isSome).map (·.name)
        ∧ ∀ definition ∈ definitions,
          Supplies (fun value out => value.CoercesTo schema definition.type out)
            definition.default definition.type (values.get? definition.name)
            (out.get? definition.name) := by
  have hmet : ∀ definition ∈ definitions, definition.IsMet schema values
      ↔ ∃ taken, coerceVariable schema values definition = .ok taken := fun definition hmem =>
    definition.isMet_iff hdistinct hfields (hdefaults definition hmem)
  refine ⟨⟨?_, ?_⟩, fun out h => ⟨?_, ?_⟩⟩
  · rintro ⟨out, h⟩ definition hmem
    exact (hmet definition hmem).2 ⟨_, coerceVariable_of_coerceVariables hnames h hmem⟩
  · intro h
    rw [coerceVariables_eq_foldlM]
    exact exists_foldlM_addEntry (fun definition hmem => (hmet definition hmem).1 (h _ hmem)) []
  · rw [coerceVariables_eq_foldlM] at h
    have hkeys := foldlM_addEntry_keys_eq hnames (fun _ _ _ _ htaken =>
      (supplies_of_coerceVariable hdistinct htaken).isSome_eq) h
    simpa [OrderedMap.has, OrderedMap.get?] using hkeys
  · intro definition hmem
    exact supplies_of_coerceVariable hdistinct (coerceVariable_of_coerceVariables hnames h hmem)

end Variables

/-! ## A sample -/

namespace Sample

/-- `($filter: [Filter], $page: Int! = 1, $note: String)` -/
def pagedVariables : List VariableDefinition :=
  [filterVariable, ⟨"page", .named "Int" true, some (.int "1")⟩,
    ⟨"note", .named "String" false, none⟩]

/-- A filter that stands for a list of one, and nothing for the other variables. -/
def pagedValues : Members :=
  [("filter", .object [("tags", .string "a"), ("note", .null)])]

/-- The limit of the filter and the page have their defaults. -/
def pagedBindings : Members :=
  [("filter", .array [.object [("tags", .array [.string "a"]), ("note", .null),
    ("limit", .number (.int 10))]]), ("page", .number (.int 1))]

theorem searchSchema_defaults : searchSchema.DefaultsConvert := by
  have hfields : ∀ field ∈ filterFields, DefaultConverts field.default := by
    intro field hfield literal hdefault
    simp only [filterFields, List.mem_cons, List.not_mem_nil, or_false] at hfield
    rcases hfield with rfl | rfl | rfl
    · cases hdefault
    · obtain rfl := Option.some.inj hdefault
      exact ⟨.number (.int 10), fun _ => rfl⟩
    · cases hdefault
  intro entry hentry
  simp only [searchSchema, List.mem_cons, List.not_mem_nil, or_false] at hentry
  rcases hentry with rfl | rfl | rfl | rfl | rfl
  · exact List.forall_mem_nil _
  · exact List.forall_mem_nil _
  · exact List.forall_mem_nil _
  · exact List.forall_mem_nil _
  · exact hfields

theorem pagedVariables_defaults :
    ∀ definition ∈ pagedVariables, DefaultConverts definition.default := by
  intro definition hmem literal hdefault
  simp only [pagedVariables, List.mem_cons, List.not_mem_nil, or_false] at hmem
  rcases hmem with rfl | rfl | rfl
  · cases hdefault
  · obtain rfl := Option.some.inj hdefault
    exact ⟨.number (.int 1), fun _ => rfl⟩
  · cases hdefault

/-- The variables of the search are met, and its filter is coerced to a list. -/
theorem pagedVariables_met :
    (∀ definition ∈ pagedVariables, definition.IsMet searchSchema pagedValues)
      ∧ pagedBindings.map (·.1) = ["filter", "page"]
      ∧ ∀ definition ∈ pagedVariables,
        Supplies (fun value out => value.CoercesTo searchSchema definition.type out)
          definition.default definition.type (pagedValues.get? definition.name)
          (pagedBindings.get? definition.name) := by
  have hnames : (pagedVariables.map (·.name)).Nodup := by decide
  have hbindings : coerceVariables searchSchema pagedVariables pagedValues
      = .ok pagedBindings := rfl
  obtain ⟨haccepts, hresult⟩ := coerceVariables_accepts hnames rfl searchSchema_defaults
    pagedVariables_defaults
  exact ⟨haccepts.1 ⟨_, hbindings⟩, hresult _ hbindings⟩

end Sample

end SelectionForest
