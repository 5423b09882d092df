import SelectionForest.Proofs.Input.Coercion

/-!
# Values that are coerced twice

What a value is coerced to is coerced to itself (`Json.CoercesTo.coerce_self`): a list of one stays
one, and an object whose fields are filled in has nothing left to fill in. Defaults go into the
result as they are written, so this needs that each of them is a coerced value of its own type
(`DefaultSettles`).

* `coerceVariables_idempotent`: the values that variables have, given to them again, are the values
  that they have, in the same order at every level.
-/

namespace SelectionForest

/-- Whether a default, taken as JSON, is coerced to itself. -/
def DefaultSettles (schema : Schema) (default : Option Value) (type : TypeRef) : Prop :=
  ∀ literal json, default = some literal → literal.Writes json →
    ∀ position, json.coerce schema position type = .ok json

/-- Whether the defaults of the fields of input objects are coerced to themselves. -/
def Schema.DefaultsSettle (schema : Schema) : Prop :=
  ∀ entry ∈ schema.types, ∀ field ∈ entry.2.inputFields,
    DefaultSettles schema field.default field.type

section Twice

variable {schema : Schema}

/-- An input that is given what it takes takes the same again. -/
theorem supply_of_supplies {R : Json → Json → Prop} {default : Option Value} {type : TypeRef}
    {given taken : Option Json} (h : Supplies R default type given taken) {position : Position}
    {missing : Error} (hdefault : DefaultSettles schema default type)
    (hgiven : ∀ value out, given = some value → taken = some out → R value out →
      out.coerce schema position type = .ok out) :
    supply schema position default type missing taken = .ok taken := by
  cases h with
  | given hvalue => exact map_eq_ok.2 ⟨_, hgiven _ _ rfl rfl hvalue, rfl⟩
  | default hliteral hwrites =>
    exact map_eq_ok.2 ⟨_, hdefault _ _ hliteral hwrites position, rfl⟩
  | absent habsent hnullable =>
    subst habsent
    exact if_neg (by rw [hnullable]; exact Bool.false_ne_true)

theorem Json.coerce_list {items : List Json} {item : TypeRef} {nonNull : Bool} {position : Position}
    (h : ∀ value ∈ items, value.coerce schema position item = .ok value) :
    (Json.array items).coerce schema position (.list item nonNull) = .ok (.array items) := by
  rw [Json.coerce, coerceItems_eq_mapM]
  exact map_eq_ok.2 ⟨items, mapM_eq_ok.2 (List.forall₂_same.2 h), rfl⟩

/-- What a value is coerced to is coerced to itself. -/
theorem Json.CoercesTo.coerce_self (hdistinct : schema.hasDistinctInputs = true)
    (hsettle : schema.DefaultsSettle) {value out : Json} {type : TypeRef}
    (h : value.CoercesTo schema type out) (position : Position) :
    out.coerce schema position type = .ok out := by
  induction h generalizing position with
  | null hnullable => exact if_neg (by rw [hnullable]; exact Bool.false_ne_true)
  | list hlength _ ih =>
    refine Json.coerce_list fun out hout => ?_
    obtain ⟨value, -, hvalue⟩ := exists_left (List.forall₂_iff_zip.2 ⟨hlength, ih⟩) hout
    exact hvalue position
  | single _ _ _ ih => exact Json.coerce_list (List.forall_mem_singleton.2 (ih position))
  | scalar hnull htype hvalue => exact Json.coerce_scalar hnull htype hvalue
  | enum htype hvalue => exact Json.coerce_enum htype hvalue
  | @object members coerced name nonNull fields htype hdeclared hkeys _ hsupplies ih =>
    have hsettle := hsettle _ (Schema.mem_of_type? htype)
    have hfields : ∀ field ∈ fields, supplyField schema name coerced field
        = .ok (coerced.get? field.name) := fun field hfield =>
      supply_of_supplies (hsupplies field hfield) (hsettle field hfield)
        fun _ _ hvalue hout _ => ih field hfield hvalue hout _
    have hcoerced : ∀ key ∈ coerced.map (·.1), key ∈ fields.map (·.name) := by
      intro key hkey
      rw [hkeys, List.mem_append] at hkey
      rcases hkey with hkey | hkey
      · exact hdeclared key hkey
      · exact List.map_subset _ (List.filter_subset_self _) hkey
    rw [Json.coerce_object htype]
    exact (fillMembers_eq_ok (Schema.inputs_nodup hdistinct htype)).2
      ⟨hcoerced, coerced, foldlM_addEntry_self hfields, rfl⟩

/-- The values that variables have are coerced to themselves. -/
theorem coerceVariables_idempotent {definitions : List VariableDefinition}
    (hnames : (definitions.map (·.name)).Nodup) (hdistinct : schema.hasDistinctInputs = true)
    (hfields : schema.DefaultsSettle)
    (hdefaults : ∀ definition ∈ definitions,
      DefaultSettles schema definition.default definition.type)
    {values out : Members} (h : coerceVariables schema definitions values = .ok out) :
    coerceVariables schema definitions out = .ok out := by
  have hagain : ∀ definition ∈ definitions,
      coerceVariable schema out definition = coerceVariable schema values definition := by
    intro definition hmem
    have hfirst := coerceVariable_of_coerceVariables hnames h hmem
    rw [hfirst, coerceVariable_eq_supply]
    exact supply_of_supplies (supplies_of_coerceVariable hdistinct hfirst)
      (hdefaults definition hmem) fun _ _ _ _ hout => hout.coerce_self hdistinct hfields _
  rw [coerceVariables_eq_foldlM] at h ⊢
  rw [← h]
  exact foldlM_congr (fun definition hmem state => by rw [addEntry, addEntry, hagain _ hmem]) []

end Twice

/-! ## A sample -/

namespace Sample

theorem searchSchema_settles : searchSchema.DefaultsSettle := by
  have hfields : ∀ field ∈ filterFields, DefaultSettles searchSchema field.default field.type := by
    intro field hfield literal json hdefault hwrites position
    simp only [filterFields, List.mem_cons, List.not_mem_nil, or_false] at hfield
    rcases hfield with rfl | rfl | rfl
    · cases hdefault
    · obtain rfl := Option.some.inj hdefault
      obtain rfl : Json.number (.int 10) = json := Except.ok.inj (hwrites position)
      rfl
    · cases hdefault
  intro entry hentry
  simp only [searchSchema, List.mem_cons, List.not_mem_nil, or_false] at hentry
  rcases hentry with rfl | rfl | rfl | rfl | rfl
  · exact List.forall_mem_nil _
  · exact List.forall_mem_nil _
  · exact List.forall_mem_nil _
  · exact List.forall_mem_nil _
  · exact hfields

theorem pagedVariables_settle : ∀ definition ∈ pagedVariables,
    DefaultSettles searchSchema definition.default definition.type := by
  intro definition hmem literal json hdefault hwrites position
  simp only [pagedVariables, List.mem_cons, List.not_mem_nil, or_false] at hmem
  rcases hmem with rfl | rfl | rfl
  · cases hdefault
  · obtain rfl := Option.some.inj hdefault
    obtain rfl : Json.number (.int 1) = json := Except.ok.inj (hwrites position)
    rfl
  · cases hdefault

/-- A filter that is put in a list and filled in is left as it is then. -/
theorem pagedVariables_again :
    coerceVariables searchSchema pagedVariables pagedValues = .ok pagedBindings
      ∧ coerceVariables searchSchema pagedVariables pagedBindings = .ok pagedBindings := by
  have hnames : (pagedVariables.map (·.name)).Nodup := by decide
  have hbindings : coerceVariables searchSchema pagedVariables pagedValues
      = .ok pagedBindings := rfl
  exact ⟨hbindings, coerceVariables_idempotent hnames rfl searchSchema_settles
    pagedVariables_settle hbindings⟩

end Sample

end SelectionForest
