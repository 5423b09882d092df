import SelectionForest.Proofs.Input.Literals

/-!
# Coercible values

A value may be given at a type if it is coercible to it (`Json.IsCoercible`), and is then coerced to
one value (`Json.CoercesTo`). Both relations go by the value and the type only: they say nothing of
how coercion finds its faults, and in which order. An input object looks up the fields of its type
among the members of a value; what an input takes if it is left out is said once, for fields and for
variables (`Supplies`).
-/

namespace SelectionForest

/-! ## What may be given -/

/-- Whether a literal writes a JSON value, wherever it stands. -/
def Value.Writes (literal : Value) (json : Json) : Prop :=
  ∀ position, literal.toJson position = .ok json

theorem Value.writes_of_toJson {literal : Value} {position : Position} {json : Json}
    (h : literal.toJson position = .ok json) : literal.Writes json :=
  fun _ => Value.toJson_at h

/-- Whether a default, if there is one, has a JSON value. -/
def DefaultConverts (default : Option Value) : Prop :=
  ∀ literal, default = some literal → ∃ json, literal.Writes json

/-- Whether an input may be left out: it has a default, or its type has `null`. -/
def MayBeAbsent (default : Option Value) (type : TypeRef) : Prop :=
  default.isSome = true ∨ type.isNonNull = false

/-- Whether a value is one of a scalar. The scalars that are built in have values of their own;
every value is one of any other scalar. -/
structure Json.IsOfScalar (value : Json) (scalar : Name) : Prop where
  int : scalar = "Int" → ∃ n, value = .number (.int n) ∧ -Int.pow 2 31 ≤ n ∧ n < Int.pow 2 31
  float : scalar = "Float" → ∃ number, value = .number number
  string : scalar = "String" → ∃ text, value = .string text
  boolean : scalar = "Boolean" → ∃ truth, value = .bool truth
  id : scalar = "ID" → (∃ text, value = .string text)
    ∨ ∃ n, value = .number (.int n) ∧ -Int.pow 2 63 ≤ n ∧ n < Int.pow 2 63

/-- Whether a value may be given at a type. -/
inductive Json.IsCoercible (schema : Schema) : Json → TypeRef → Prop
  | null {type : TypeRef} (hnullable : type.isNonNull = false) : IsCoercible schema .null type
  | list {items : List Json} {item : TypeRef} {nonNull : Bool}
      (hitems : ∀ value ∈ items, IsCoercible schema value item) :
      IsCoercible schema (.array items) (.list item nonNull)
  | single {value : Json} {item : TypeRef} {nonNull : Bool} (hnull : value.isNull = false)
      (harray : value.asArray? = none) (hvalue : IsCoercible schema value item) :
      IsCoercible schema value (.list item nonNull)
  | scalar {value : Json} {name : Name} {nonNull : Bool} (hnull : value.isNull = false)
      (htype : schema.type? name = some .scalar) (hvalue : value.IsOfScalar name) :
      IsCoercible schema value (.named name nonNull)
  | enum {text : String} {name : Name} {nonNull : Bool} {values : List Name}
      (htype : schema.type? name = some (.enum values)) (hvalue : text ∈ values) :
      IsCoercible schema (.string text) (.named name nonNull)
  | object {members : Members} {name : Name} {nonNull : Bool} {fields : List InputDefinition}
      (htype : schema.type? name = some (.inputObject fields))
      (hdeclared : ∀ key ∈ members.map (·.1), key ∈ fields.map (·.name))
      (hgiven : ∀ field ∈ fields, ∀ value, members.get? field.name = some value →
        IsCoercible schema value field.type)
      (habsent : ∀ field ∈ fields, members.get? field.name = none →
        MayBeAbsent field.default field.type) :
      IsCoercible schema (.object members) (.named name nonNull)

/-- Whether an input takes a value: one that is related to the value given for it, or that of its
default; or none, if it may be left out. -/
inductive Supplies (R : Json → Json → Prop) (default : Option Value) (type : TypeRef) :
    Option Json → Option Json → Prop
  | given {value taken : Json} (hvalue : R value taken) :
      Supplies R default type (some value) (some taken)
  | default {literal : Value} {taken : Json} (hdefault : default = some literal)
      (hliteral : literal.Writes taken) : Supplies R default type none (some taken)
  | absent (hdefault : default = none) (hnullable : type.isNonNull = false) :
      Supplies R default type none none

/-- What a value at a type is coerced to. A single value is put in a list, and the defaults of the
fields that an object leaves out follow its members. -/
inductive Json.CoercesTo (schema : Schema) : Json → TypeRef → Json → Prop
  | null {type : TypeRef} (hnullable : type.isNonNull = false) : CoercesTo schema .null type .null
  | list {items coerced : List Json} {item : TypeRef} {nonNull : Bool}
      (hlength : items.length = coerced.length)
      (hitems : ∀ {value out}, (value, out) ∈ items.zip coerced → CoercesTo schema value item out) :
      CoercesTo schema (.array items) (.list item nonNull) (.array coerced)
  | single {value out : Json} {item : TypeRef} {nonNull : Bool} (hnull : value.isNull = false)
      (harray : value.asArray? = none) (hvalue : CoercesTo schema value item out) :
      CoercesTo schema value (.list item nonNull) (.array [out])
  | scalar {value : Json} {name : Name} {nonNull : Bool} (hnull : value.isNull = false)
      (htype : schema.type? name = some .scalar) (hvalue : value.IsOfScalar name) :
      CoercesTo schema value (.named name nonNull) value
  | enum {text : String} {name : Name} {nonNull : Bool} {values : List Name}
      (htype : schema.type? name = some (.enum values)) (hvalue : text ∈ values) :
      CoercesTo schema (.string text) (.named name nonNull) (.string text)
  | object {members coerced : Members} {name : Name} {nonNull : Bool}
      {fields : List InputDefinition} (htype : schema.type? name = some (.inputObject fields))
      (hdeclared : ∀ key ∈ members.map (·.1), key ∈ fields.map (·.name))
      (hkeys : coerced.map (·.1) = members.map (·.1)
        ++ (fields.filter fun field =>
            field.default.isSome && !members.has field.name).map (·.name))
      (hgiven : ∀ field ∈ fields, ∀ {value out}, members.get? field.name = some value →
        coerced.get? field.name = some out → CoercesTo schema value field.type out)
      (hsupplies : ∀ field ∈ fields, Supplies (fun _ _ => True) field.default field.type
        (members.get? field.name) (coerced.get? field.name)) :
      CoercesTo schema (.object members) (.named name nonNull) (.object coerced)

namespace Supplies

variable {R S : Json → Json → Prop} {default : Option Value} {type : TypeRef}
  {given taken : Option Json}

theorem imp (h : Supplies R default type given taken)
    (hRS : ∀ value json, given = some value → taken = some json → R value json → S value json) :
    Supplies S default type given taken := by
  cases h with
  | given hvalue => exact .given (hRS _ _ rfl rfl hvalue)
  | default hdefault hliteral => exact .default hdefault hliteral
  | absent hdefault hnullable => exact .absent hdefault hnullable

/-- An input takes a value if it is given one or has a default. -/
theorem isSome_eq (h : Supplies R default type given taken) :
    taken.isSome = (given.isSome || default.isSome) := by
  cases h with
  | given => rfl
  | default hdefault => rw [hdefault]; rfl
  | absent hdefault => rw [hdefault]; rfl

/-- What is given is left only for a value. -/
theorem or_eq (h : Supplies R default type given taken) : taken.or given = taken := by
  cases h <;> rfl

theorem mayBeAbsent (h : Supplies R default type given taken) (hgiven : given = none) :
    MayBeAbsent default type := by
  cases h with
  | given => cases hgiven
  | default hdefault => exact .inl (hdefault ▸ rfl)
  | absent _ hnullable => exact .inr hnullable

end Supplies

/-- What is coerced is coercible. -/
theorem Json.CoercesTo.isCoercible {schema : Schema} {value out : Json} {type : TypeRef}
    (h : value.CoercesTo schema type out) : value.IsCoercible schema type := by
  induction h with
  | null hnullable => exact .null hnullable
  | list hlength _ ih =>
    refine .list fun value hvalue => ?_
    obtain ⟨out, -, hout⟩ := exists_right (List.forall₂_iff_zip.2 ⟨hlength, ih⟩) hvalue
    exact hout
  | single hnull harray _ ih => exact .single hnull harray ih
  | scalar hnull htype hvalue => exact .scalar hnull htype hvalue
  | enum htype hvalue => exact .enum htype hvalue
  | object htype hdeclared _ _ hsupplies ih =>
    refine .object htype hdeclared (fun field hfield value hvalue => ?_)
      fun field hfield habsent => (hsupplies field hfield).mayBeAbsent habsent
    have hsome := (hsupplies field hfield).isSome_eq
    rw [hvalue] at hsome
    obtain ⟨out, hout⟩ := Option.isSome_iff_exists.1 hsome
    exact ih field hfield hvalue hout

/-! ## Leaves -/

theorem isSome_asString? {value : Json} :
    value.asString?.isSome = true ↔ ∃ text, value = .string text := by
  cases value <;> simp [Json.asString?]

theorem isSome_asBool? {value : Json} :
    value.asBool?.isSome = true ↔ ∃ truth, value = .bool truth := by
  cases value <;> simp [Json.asBool?]

theorem any_asInt? {value : Json} {p : Int → Bool} :
    value.asInt?.any p = true ↔ ∃ n, value = .number (.int n) ∧ p n = true := by
  cases value with
  | number number => cases number <;> simp [Json.asInt?]
  | _ => simp [Json.asInt?]

theorem isInt_iff {n : Int} :
    (leastInt ≤ n && n ≤ greatestInt) = true ↔ -Int.pow 2 31 ≤ n ∧ n < Int.pow 2 31 := by
  rw [Bool.and_eq_true, decide_eq_true_eq, decide_eq_true_eq, greatestInt, Int.le_sub_one_iff]
  exact Iff.rfl

theorem isIdentifier_iff {n : Int} :
    (leastIdentifier ≤ n && n ≤ greatestIdentifier) = true
      ↔ -Int.pow 2 63 ≤ n ∧ n < Int.pow 2 63 := by
  rw [Bool.and_eq_true, decide_eq_true_eq, decide_eq_true_eq, greatestIdentifier,
    Int.le_sub_one_iff]
  exact Iff.rfl

/-- The values of a scalar are those that it accepts. -/
theorem scalarAccepts_iff {scalar : Name} {value : Json} :
    scalarAccepts scalar value = true ↔ value.IsOfScalar scalar := by
  unfold scalarAccepts
  constructor
  · intro h
    refine ⟨?_, ?_, ?_, ?_, ?_⟩ <;> rintro rfl
    · obtain ⟨n, hvalue, hn⟩ := any_asInt?.1 h
      exact ⟨n, hvalue, isInt_iff.1 hn⟩
    · cases value with
      | number number => exact ⟨number, rfl⟩
      | _ => cases h
    · exact isSome_asString?.1 h
    · exact isSome_asBool?.1 h
    · refine (Bool.or_eq_true_iff.1 h).imp isSome_asString?.1 fun h => ?_
      obtain ⟨n, hvalue, hn⟩ := any_asInt?.1 h
      exact ⟨n, hvalue, isIdentifier_iff.1 hn⟩
  · intro h
    by_cases hint : scalar = "Int"
    · obtain ⟨n, hvalue, hn⟩ := h.int hint
      rw [if_pos hint]
      exact any_asInt?.2 ⟨n, hvalue, isInt_iff.2 hn⟩
    rw [if_neg hint]
    by_cases hfloat : scalar = "Float"
    · obtain ⟨number, rfl⟩ := h.float hfloat
      rw [if_pos hfloat]
    rw [if_neg hfloat]
    by_cases hstring : scalar = "String"
    · rw [if_pos hstring]
      exact isSome_asString?.2 (h.string hstring)
    rw [if_neg hstring]
    by_cases hboolean : scalar = "Boolean"
    · rw [if_pos hboolean]
      exact isSome_asBool?.2 (h.boolean hboolean)
    rw [if_neg hboolean]
    by_cases hid : scalar = "ID"
    · rw [if_pos hid]
      refine Bool.or_eq_true_iff.2 ((h.id hid).imp isSome_asString?.2 ?_)
      rintro ⟨n, hvalue, hn⟩
      exact any_asInt?.2 ⟨n, hvalue, isIdentifier_iff.2 hn⟩
    · rw [if_neg hid]

end SelectionForest
