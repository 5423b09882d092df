import SelectionForest.Proofs.Input.Erasure
import SelectionForest.Proofs.Input.Literals
import SelectionForest.Proofs.Likeness

/-!
# Like arguments have like values

Lists of arguments without a name twice that are alike are resolved to the same values, up to the
order of the keys in objects, and come from the same places (`resolveArguments_alike`). They may be
refused with different errors, since an object literal is gone through in the order of its fields;
so it is the success of one run that carries over to the other (`Carries`), in both directions as
likeness goes both ways.

* `Value.toJson_alike`, `Value.resolve_alike`: what a literal is converted or resolved to carries
  over to a like literal;
* `Value.trace?_alike`: where a literal comes from is where a like literal comes from.
-/

namespace SelectionForest

/-! ## Related options -/

section Options

variable {α β γ δ : Type} {R : α → β → Prop} {S : γ → δ → Prop} {x : Option α} {y : Option β}

theorem rel_map {f : α → γ} {g : β → δ} (h : Option.Rel R x y)
    (hfg : ∀ a b, R a b → S (f a) (g b)) : Option.Rel S (x.map f) (y.map g) := by
  cases h with
  | none => exact .none
  | some h => exact .some (hfg _ _ h)

theorem rel_bind {f : α → Option γ} {g : β → Option δ} (h : Option.Rel R x y)
    (hfg : ∀ a b, R a b → Option.Rel S (f a) (g b)) : Option.Rel S (x.bind f) (y.bind g) := by
  cases h with
  | none => exact .none
  | some h => exact hfg _ _ h

theorem rel_getD {default : α} {other : β} (h : Option.Rel R x y) (hR : R default other) :
    R (x.getD default) (y.getD other) := by
  cases h with
  | none => exact hR
  | some h => exact h

theorem rel_refl {R : α → α → Prop} (hR : ∀ a, R a a) : ∀ x : Option α, Option.Rel R x x
  | none => .none
  | some a => .some (hR a)

/-- Results are related if those of one side carry over to the other. -/
theorem rel_of_carries {f : α → Outcome γ} {g : β → Outcome δ} {out : Option γ} {out' : Option δ}
    (h : Option.Rel (fun a b => Carries S (f a) (g b)) x y)
    (hout : Option.Rel (fun a c => f a = .ok c) x out)
    (hout' : Option.Rel (fun b d => g b = .ok d) y out') : Option.Rel S out out' := by
  cases h with
  | none =>
    cases hout
    cases hout'
    exact .none
  | some hcarries =>
    cases hout with
    | some hvalue =>
      cases hout' with
      | some hvalue' =>
        obtain ⟨value', hother, hS⟩ := hcarries.exists_right hvalue
        obtain rfl := Except.ok.inj (hother.symm.trans hvalue')
        exact .some hS

end Options

/-- Under each key, fields with partners have related values, or none on either side. -/
theorem Partnered.rel_get? {R : Value → Value → Prop} {fields others : List (Name × Value)}
    (h : Partnered (·.1) (fun a b => R a.2 b.2) fields others) (hnd : (fields.map (·.1)).Nodup)
    (key : Name) : Option.Rel R (OrderedMap.get? fields key) (OrderedMap.get? others key) :=
  rel_map (h.rel_find? hnd key) fun _ _ hR => hR

/-- Literals that are alike are the same variable, or none is one. -/
theorem Value.asVariable?_of_isLike {a b : Value} (h : a.isLike b) :
    a.asVariable? = b.asVariable? := by
  cases a <;> cases b <;> simp_all [Value.isLike, Value.asVariable?]

/-! ## Literals as JSON -/

/-- An object is converted if an object with like fields is, and has like values. -/
theorem fieldsToJson_alike {fields others : List (Name × Value)} {position : Position}
    (hnd : (fields.map (·.1)).Nodup)
    (h : Partnered (·.1)
      (fun a b => Carries Json.IsLike (a.2.toJson position) (b.2.toJson position)) fields others) :
    Carries (fun members members' => (Json.object (OrderedMap.ofList members)).IsLike
        (.object (OrderedMap.ofList members')))
      (fieldsToJson position fields) (fieldsToJson position others) := by
  cases hmembers : fieldsToJson position fields with
  | error error => exact .error error _
  | ok members =>
    have hconverts : ∀ other ∈ others, ∃ member,
        (other.2.toJson position).map (other.1, ·) = .ok member := by
      intro other hother
      obtain ⟨field, hfield, -, hcarries⟩ := (h.flip hnd).partner other hother
      rw [fieldsToJson_eq_mapM, mapM_eq_ok] at hmembers
      obtain ⟨member, -, hmember⟩ := exists_right hmembers hfield
      obtain ⟨value, hvalue, -⟩ := map_eq_ok.1 hmember
      obtain ⟨value', hvalue', -⟩ := Carries.exists_right hcarries hvalue
      exact ⟨_, map_eq_ok.2 ⟨value', hvalue', rfl⟩⟩
    obtain ⟨members', hmembers'⟩ := exists_mapM hconverts
    rw [← fieldsToJson_eq_mapM] at hmembers'
    have hkeys : (members.map (·.1)).Nodup := fieldsToJson_keys hmembers ▸ hnd
    have hkeys' : (members'.map (·.1)).Nodup := fieldsToJson_keys hmembers' ▸ h.nodup hnd
    rw [hmembers']
    refine .ok ?_
    rw [OrderedMap.ofList_of_nodup hkeys, OrderedMap.ofList_of_nodup hkeys']
    exact Json.isLike_object hkeys hkeys' fun key => rel_of_carries (h.rel_get? hnd key)
      (get?_fieldsToJson hmembers key) (get?_fieldsToJson hmembers' key)

/-- What a literal is converted to carries over to a like literal. -/
theorem Value.toJson_alike {a b : Value} (ha : a.hasUniqueKeys) (h : a.isLike b)
    (position : Position) : Carries Json.IsLike (a.toJson position) (b.toJson position) := by
  induction a using Value.induction generalizing b with
  | atom a hatom =>
    rw [(isLike_atom hatom).1 h]
    exact .refl .refl _
  | list items ih =>
    obtain ⟨others, rfl, hitems⟩ := isLike_list.1 h
    rw [hasUniqueKeys_list] at ha
    rw [Value.toJson, Value.toJson, itemsToJson_eq_mapM, itemsToJson_eq_mapM]
    refine (Carries.mapM (forall₂_imp_of_mem (fun item hitem other hlike => ?_) hitems)).map
      fun _ _ hvalues => .array hvalues
    exact ih item hitem (ha item hitem) hlike
  | object fields ih =>
    obtain ⟨hnd, hkeys⟩ := hasUniqueKeys_object.1 ha
    obtain ⟨others, rfl, hfields⟩ := (isLike_object_iff hnd).1 h
    rw [Value.toJson, Value.toJson]
    refine (fieldsToJson_alike hnd (hfields.imp_of_mem fun field hfield other hlike => ?_)).map
      fun _ _ hmembers => hmembers
    exact ih field hfield (hkeys field hfield) hlike

/-! ## Literals along a type -/

section Resolving

variable {schema : Schema} {bindings : Members}

theorem resolveLeaf_alike {a b : Value} (ha : a.hasUniqueKeys) (h : a.isLike b)
    (position : Position) (type : Name) : Carries Json.IsLike
      (resolveLeaf schema position type a) (resolveLeaf schema position type b) := by
  rw [resolveLeaf, resolveLeaf]
  cases schema.type? type with
  | none => exact .error _ _
  | some definition =>
    cases definition with
    | inputObject => exact .error _ _
    | _ => exact Value.toJson_alike ha h position

/-- Whether the members that two objects have so far are in step, without a key twice. -/
structure FilledAlike (members others : Members) : Prop where
  nodup : (members.map (·.1)).Nodup
  entries : List.Forall₂ EntriesAlike members others

namespace FilledAlike

variable {members others : Members}

theorem insert (h : FilledAlike members others) (key : String) {value other : Json}
    (hlike : value.IsLike other) :
    FilledAlike (members.insert key value) (others.insert key other) where
  nodup := OrderedMap.nodup_insert h.nodup key value
  entries := OrderedMap.forall₂_insert (fun _ _ hentry => hentry.1) h.entries ⟨rfl, hlike⟩

theorem isLike (h : FilledAlike members others) :
    (Json.object members).IsLike (.object others) := by
  have hkeys : others.map (·.1) = members.map (·.1) :=
    map_eq_of_forall₂ (fun _ _ hentry => hentry.1.symm) h.entries
  exact Json.isLike_object h.nodup (hkeys ▸ h.nodup) (EntriesAlike.lookUpAlike h.entries)

end FilledAlike

/-- A field is filled alike if what is written for it is, since its default is the same. -/
theorem resolveField_alike {type : Name}
    {outcomes others : OrderedMap Name (Option (Outcome Json))} {field : InputDefinition}
    (h : Option.Rel (Carries Json.IsLike) (outcomes.get? field.name).join
      (others.get? field.name).join) {members members' : Members}
    (hmembers : FilledAlike members members') : Carries FilledAlike
      (resolveField type outcomes members field) (resolveField type others members' field) := by
  rw [resolveField, resolveField]
  generalize (outcomes.get? field.name).join = outcome at h ⊢
  generalize (others.get? field.name).join = other at h ⊢
  cases h with
  | some h => exact h.map fun _ _ hlike => hmembers.insert field.name hlike
  | none =>
    dsimp only
    split
    · exact (Carries.refl .refl _).map fun _ _ hlike => hmembers.insert field.name hlike
    · split
      · exact .error _ _
      · exact .ok hmembers

/-- An object is filled alike if what is written for its fields is. -/
theorem resolveFields_alike {type : Name} {definitions : List InputDefinition}
    {outcomes others : OrderedMap Name (Option (Outcome Json))}
    (hkeys : (outcomes.map (·.1)).Perm (others.map (·.1)))
    (h : ∀ key, Option.Rel (Carries Json.IsLike) (outcomes.get? key).join (others.get? key).join) :
    Carries Json.IsLike (resolveFields type definitions outcomes)
      (resolveFields type definitions others) := by
  rw [resolveFields, resolveFields]
  cases hunknown : outcomes.find? fun entry => (findDefinition? definitions entry.1).isNone with
  | some entry => exact .error _ _
  | none =>
    have hother : (others.find? fun entry => (findDefinition? definitions entry.1).isNone)
        = none := by
      rw [find?_unknown_eq_none] at hunknown ⊢
      exact fun key hkey => hunknown key (hkeys.mem_iff.2 hkey)
    rw [hother]
    have hstart : FilledAlike [] [] := ⟨List.nodup_nil, .nil⟩
    have hfilled : Carries FilledAlike (definitions.foldlM (resolveField type outcomes) [])
        (definitions.foldlM (resolveField type others) []) := by
      refine .foldlM (fun field _ _ _ hmembers => ?_) hstart
      exact resolveField_alike (h field.name) hmembers
    exact hfilled.map fun _ _ hmembers => hmembers.isLike

/-- Whether what a literal is resolved to carries over to another one, which is like it. -/
def Value.CarriesOver (schema : Schema) (bindings : Members) (a b : Value) : Prop :=
  a.isLike b ∧ ∀ position type, Carries Json.IsLike (a.resolve schema bindings position type)
    (b.resolve schema bindings position type)

/-- The fields of like object literals have like outcomes. -/
theorem resolveEntries_alike {fields others : List (Name × Value)}
    (hnd : (fields.map (·.1)).Nodup) {type : Name} {definitions : List InputDefinition}
    (hfields : Partnered (·.1) (fun a b => a.2.CarriesOver schema bindings b.2) fields others)
    (key : Name) : Option.Rel (Carries Json.IsLike)
      ((resolveEntries schema bindings fields type definitions).get? key).join
      ((resolveEntries schema bindings others type definitions).get? key).join := by
  rw [get?_resolveEntries, get?_resolveEntries]
  have hfound := hfields.rel_get? hnd key
  generalize OrderedMap.get? fields key = literal at hfound ⊢
  generalize OrderedMap.get? others key = other at hfound ⊢
  cases hfound with
  | none => exact .none
  | some h =>
    obtain ⟨hlike, hresolve⟩ := h
    dsimp only [Option.map_some]
    rw [Value.isUnset, Value.isUnset, Value.asVariable?_of_isLike hlike]
    split
    · exact .none
    · split
      · exact .some (hresolve _ _)
      · exact .some (.error _ _)

/-- What a literal is resolved to carries over to a like literal. -/
theorem Value.resolve_alike {a b : Value} (ha : a.hasUniqueKeys) (h : a.isLike b)
    (position : Position) (type : TypeRef) : Carries Json.IsLike
      (a.resolve schema bindings position type) (b.resolve schema bindings position type) := by
  induction a using Value.induction generalizing b position type with
  | atom a hatom =>
    rw [(isLike_atom hatom).1 h]
    exact .refl .refl _
  | list items ih =>
    obtain ⟨others, rfl, hitems⟩ := isLike_list.1 h
    cases type with
    | list item nonNull =>
      rw [hasUniqueKeys_list] at ha
      rw [Value.resolve, Value.resolve, resolveItems_eq_mapM, resolveItems_eq_mapM]
      refine (Carries.mapM (forall₂_imp_of_mem (fun value hvalue other hlike => ?_) hitems)).map
        fun _ _ hvalues => .array hvalues
      exact ih value hvalue (ha value hvalue) hlike position item
    | named name nonNull =>
      rw [Value.resolve, Value.resolve]
      exact resolveLeaf_alike ha h position name
  | object fields ih =>
    obtain ⟨hnd, hkeys⟩ := hasUniqueKeys_object.1 ha
    obtain ⟨others, rfl, hfields⟩ := (isLike_object_iff hnd).1 h
    rw [Value.resolve, Value.resolve]
    split
    · have hparts := hfields.imp_of_mem fun field hfield other hlike =>
        show field.2.CarriesOver schema bindings other.2 from
          ⟨hlike, ih field hfield (hkeys field hfield) hlike⟩
      refine (resolveFields_alike ?_ (resolveEntries_alike hnd hparts)).map
        fun _ _ hlike => hlike.wrap type
      rw [resolveEntries_keys, resolveEntries_keys]
      exact hfields.names_perm hnd
    · exact (resolveLeaf_alike ha h position _).map fun _ _ hlike => hlike.wrap type

/-! ## Arguments -/

/-- Whether a literal, without a key twice, is like another one. -/
def Value.IsLikeUnique (a b : Value) : Prop := a.hasUniqueKeys ∧ a.isLike b

/-- Like arguments of a name are written on both sides, or on neither. -/
theorem rel_findArgument? {xs ys : List Argument} (hx : haveUniqueNames xs) (h : areLike xs ys)
    (name : Name) :
    Option.Rel Value.IsLikeUnique (findArgument? xs name) (findArgument? ys name) := by
  obtain ⟨hnd, hkeys⟩ := haveUniqueNames_iff.1 hx
  have hpartners := ((areLike_iff_partnered hnd).1 h).imp_of_mem fun argument hmem other hlike =>
    show argument.value.IsLikeUnique other.value from ⟨hkeys argument hmem, hlike⟩
  exact rel_map (hpartners.rel_find? hnd name) fun _ _ hlike => hlike

/-- What is written for an argument is resolved alike. -/
theorem resolveWritten_alike {a b : Value} (h : a.IsLikeUnique b) (definition : InputDefinition) :
    Carries (Option.Rel Json.IsLike) (resolveWritten schema bindings definition a)
      (resolveWritten schema bindings definition b) := by
  obtain ⟨ha, hlike⟩ := h
  have hsame := Value.asVariable?_of_isLike hlike
  cases hvariable : a.asVariable? with
  | none =>
    rw [resolveWritten_of_literal hvariable, resolveWritten_of_literal (hsame ▸ hvariable)]
    exact (Value.resolve_alike ha hlike _ _).map fun _ _ hvalue => .some hvalue
  | some name =>
    -- Both are the same variable, so that it is the same look-up.
    rw [Value.eq_of_asVariable? hvariable, Value.eq_of_asVariable? (hsame.symm.trans hvariable)]
    exact .refl (rel_refl .refl) _

/-- An argument is resolved alike. -/
theorem resolveArgument_alike {xs ys : List Argument} {definition : InputDefinition}
    (h : Option.Rel Value.IsLikeUnique (findArgument? xs definition.name)
      (findArgument? ys definition.name)) :
    Carries (Option.Rel Json.IsLike) (resolveArgument schema bindings xs definition)
      (resolveArgument schema bindings ys definition) := by
  rw [resolveArgument, resolveArgument]
  generalize findArgument? xs definition.name = a at h ⊢
  generalize findArgument? ys definition.name = b at h ⊢
  cases h with
  | none => exact .refl (rel_refl .refl) _
  | some h =>
    refine (resolveWritten_alike h definition).bind fun value other hvalue => ?_
    cases hvalue with
    | none => exact .refl (rel_refl .refl) _
    | some hvalue => exact .ok (.some hvalue)

/-- The arguments of a field are resolved if like ones are, to like values. -/
theorem resolveArguments_carries {xs ys : List Argument} (hx : haveUniqueNames xs)
    (h : areLike xs ys) (definition : FieldDefinition) : Carries (List.Forall₂ EntriesAlike)
      (resolveArguments schema bindings definition xs)
      (resolveArguments schema bindings definition ys) := by
  rw [resolveArguments_eq_foldlM_addEntry, resolveArguments_eq_foldlM_addEntry]
  refine .foldlM (fun argument _ resolved other hresolved => ?_) .nil
  refine (resolveArgument_alike (rel_findArgument? hx h argument.name)).bind
    fun value value' hvalue => ?_
  cases hvalue with
  | none => exact .ok hresolved
  | some hlike =>
    exact .ok (OrderedMap.forall₂_insert (fun _ _ hentry => hentry.1) hresolved ⟨rfl, hlike⟩)

end Resolving

/-! ## Where values come from -/

/-- Whether two values with their origins are equal up to the order of the keys of objects. -/
inductive Provenance.IsLike : Provenance → Provenance → Prop
  | refl (value : Provenance) : IsLike value value
  | list {items others : List Provenance} (h : List.Forall₂ IsLike items others) :
      IsLike (.list items) (.list others)
  | object {fields others : List (Name × Provenance)}
      (keys : (fields.map (·.1)).Perm (others.map (·.1)))
      (values : ∀ {key : Name} {value other : Provenance}, (key, value) ∈ fields →
        (key, other) ∈ others → IsLike value other) :
      IsLike (.object fields) (.object others)

/-- Whether entries have the same name and type, and like values. -/
def TracedAlike (entry other : Name × TracedInput) : Prop :=
  entry.1 = other.1 ∧ entry.2.type = other.2.type ∧ entry.2.value.IsLike other.2.value

section Tracing

variable {sources : TracedInputs}

/-- Where a literal comes from is where a like literal comes from. -/
theorem Value.trace?_alike {a b : Value} (ha : a.hasUniqueKeys) (h : a.isLike b) :
    Option.Rel Provenance.IsLike (a.trace? sources) (b.trace? sources) := by
  induction a using Value.induction generalizing b with
  | atom a hatom =>
    rw [(isLike_atom hatom).1 h]
    exact rel_refl .refl _
  | list items ih =>
    obtain ⟨others, rfl, hitems⟩ := isLike_list.1 h
    rw [hasUniqueKeys_list] at ha
    rw [Value.trace?, Value.trace?, traceItems_eq_map, traceItems_eq_map]
    refine .some (.list ?_)
    rw [List.forall₂_map_left_iff, List.forall₂_map_right_iff]
    refine forall₂_imp_of_mem (fun item hitem other hlike => ?_) hitems
    exact rel_getD (ih item hitem (ha item hitem) hlike) (.refl _)
  | object fields ih =>
    obtain ⟨hnd, hkeys⟩ := hasUniqueKeys_object.1 ha
    obtain ⟨others, rfl, hfields⟩ := (isLike_object_iff hnd).1 h
    have hndOthers := hfields.nodup hnd
    have htraced : ((traceFields sources fields).map (·.1)).Nodup :=
      hnd.sublist (traceFields_keys fields)
    have htracedOthers : ((traceFields sources others).map (·.1)).Nodup :=
      hndOthers.sublist (traceFields_keys others)
    have hparts := hfields.imp_of_mem fun field hfield other hlike =>
      show Option.Rel Provenance.IsLike (field.2.trace? sources) (other.2.trace? sources) from
        ih field hfield (hkeys field hfield) hlike
    rw [Value.trace?, Value.trace?, OrderedMap.ofList_of_nodup htraced,
      OrderedMap.ofList_of_nodup htracedOthers]
    obtain ⟨hperm, hvalues⟩ := OrderedMap.related_of_get? htraced htracedOthers fun key => by
      rw [get?_traceFields hnd, get?_traceFields hndOthers]
      exact rel_bind (hparts.rel_get? hnd key) fun _ _ hrel => hrel
    exact .some (.object hperm hvalues)

/-- An argument comes from the same place. -/
theorem traceArgument?_alike {xs ys : List Argument} {definition : InputDefinition}
    (h : Option.Rel Value.IsLikeUnique (findArgument? xs definition.name)
      (findArgument? ys definition.name)) :
    Option.Rel Provenance.IsLike (traceArgument? sources xs definition)
      (traceArgument? sources ys definition) := by
  have htraced := rel_bind (S := Provenance.IsLike) (f := Value.trace? sources)
    (g := Value.trace? sources) h fun _ _ hlike => Value.trace?_alike hlike.1 hlike.2
  rw [traceArgument?, traceArgument?]
  generalize (findArgument? xs definition.name).bind (Value.trace? sources) = a at htraced ⊢
  generalize (findArgument? ys definition.name).bind (Value.trace? sources) = b at htraced ⊢
  cases htraced with
  | none => exact rel_refl .refl _
  | some htraced => exact .some htraced

theorem traceArguments_alike {xs ys : List Argument} (hx : haveUniqueNames xs)
    (h : areLike xs ys) (definition : FieldDefinition) : List.Forall₂ TracedAlike
      (traceArguments sources definition xs) (traceArguments sources definition ys) := by
  refine OrderedMap.forall₂_ofList (fun _ _ hentry => hentry.1) ?_
  refine List.rel_filterMap (R := Eq) (fun argument other heq => ?_) (List.forall₂_refl _)
  obtain rfl := heq
  exact rel_map (traceArgument?_alike (rel_findArgument? hx h argument.name))
    fun _ _ hlike => ⟨rfl, rfl, hlike⟩

end Tracing

/-- Lists of arguments without a name twice that are alike are resolved both or neither, to the same
values up to the order of the keys of objects, and these come from the same places. -/
theorem resolveArguments_alike {xs ys : List Argument} (hx : haveUniqueNames xs)
    (h : areLike xs ys) (schema : Schema) (bindings : Members) (sources : TracedInputs)
    (definition : FieldDefinition) :
    ((∃ resolved, resolveArguments schema bindings definition xs = .ok resolved)
        ↔ ∃ resolved, resolveArguments schema bindings definition ys = .ok resolved)
      ∧ (∀ resolved other, resolveArguments schema bindings definition xs = .ok resolved →
        resolveArguments schema bindings definition ys = .ok other →
        List.Forall₂ EntriesAlike resolved other)
      ∧ List.Forall₂ TracedAlike (traceArguments sources definition xs)
        (traceArguments sources definition ys) := by
  have hy := haveUniqueNames_of_areLike hx h
  have hright : Carries (List.Forall₂ EntriesAlike) (resolveArguments schema bindings definition xs)
      (resolveArguments schema bindings definition ys) := resolveArguments_carries hx h definition
  have hleft : Carries (List.Forall₂ EntriesAlike) (resolveArguments schema bindings definition ys)
      (resolveArguments schema bindings definition xs) :=
    resolveArguments_carries hy (areLike_symm hx hy h) definition
  refine ⟨⟨fun ⟨resolved, hresolved⟩ => ?_, fun ⟨resolved, hresolved⟩ => ?_⟩,
    fun resolved other hresolved hother => ?_, traceArguments_alike hx h definition⟩
  · obtain ⟨other, hother, -⟩ := hright.exists_right hresolved
    exact ⟨other, hother⟩
  · obtain ⟨other, hother, -⟩ := hleft.exists_right hresolved
    exact ⟨other, hother⟩
  · obtain ⟨found, hfound, halike⟩ := hright.exists_right hresolved
    obtain rfl := Except.ok.inj (hfound.symm.trans hother)
    exact halike

namespace Sample

/-- `search(filter: { limit: 5, tags: "a" }, any: { x: 1, y: 2 })` -/
def straight : List Argument :=
  [⟨"filter", filter⟩, ⟨"any", .object [("x", .int "1"), ("y", .int "2")]⟩]

/-- `search(any: { y: 2, x: 1 }, filter: { tags: "a", limit: 5 })` -/
def turned : List Argument :=
  [⟨"any", .object [("y", .int "2"), ("x", .int "1")]⟩,
    ⟨"filter", .object [("tags", .string "a"), ("limit", .int "5")]⟩]

/-- What both are resolved to, except for the argument that may be anything. -/
def searchValues (any : Json) : Members :=
  [("filter", .array [.object [("tags", .array [.string "a"]), ("limit", .number (.int 5))]]),
    ("any", any), ("page", .number (.int 1))]

/-- The order of keys stays visible where an object is taken as it is written. -/
theorem turned_alike :
    haveUniqueNames straight ∧ areLike straight turned
      ∧ resolveArguments searchSchema [] search straight
        = .ok (searchValues (.object [("x", .number (.int 1)), ("y", .number (.int 2))]))
      ∧ resolveArguments searchSchema [] search turned
        = .ok (searchValues (.object [("y", .number (.int 2)), ("x", .number (.int 1))]))
      ∧ List.Forall₂ EntriesAlike
        (searchValues (.object [("x", .number (.int 1)), ("y", .number (.int 2))]))
        (searchValues (.object [("y", .number (.int 2)), ("x", .number (.int 1))]))
      ∧ List.Forall₂ TracedAlike (traceArguments [] search straight)
        (traceArguments [] search turned) := by
  have hunique : haveUniqueNames straight := by decide
  have hlike : areLike straight turned := by decide
  obtain ⟨-, hvalues, htraced⟩ :=
    resolveArguments_alike hunique hlike searchSchema [] [] search
  exact ⟨hunique, hlike, rfl, rfl, hvalues _ _ rfl rfl, htraced⟩

end Sample

end SelectionForest
