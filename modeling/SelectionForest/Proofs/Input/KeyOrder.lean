import SelectionForest.Input.Variables
import SelectionForest.Proofs.Maps

/-!
# Values up to the order of keys

Two JSON values are alike if they are equal up to the order of the members of their objects
(`Json.IsLike`); likeness is transitive (`Json.IsLike.trans`). Objects without a key twice are alike
if and only if looking up any key gives like values, or none on both sides
(`Json.isLike_object_iff`). Lists of members are in step if their entries are alike one by one
(`EntriesAlike`).
-/

namespace SelectionForest

/-- Induction on JSON values: what holds of values without parts, and of an array or object if it
holds of all values in it, holds of every value. -/
@[elab_as_elim]
theorem Json.induction {motive : Json → Prop} (null : motive .null)
    (bool : ∀ value, motive (.bool value)) (number : ∀ value, motive (.number value))
    (string : ∀ value, motive (.string value))
    (array : ∀ items, (∀ value ∈ items, motive value) → motive (.array items))
    (object : ∀ members, (∀ member ∈ members, motive member.2) → motive (.object members))
    (value : Json) : motive value := by
  have cons {α : Type} {P : α → Prop} (x : α) (xs : List α) (hx : P x) (hxs : ∀ y ∈ xs, P y) :
      ∀ y ∈ x :: xs, P y := List.forall_mem_cons.2 ⟨hx, hxs⟩
  exact Json.rec (motive_1 := motive) (motive_2 := fun items => ∀ value ∈ items, motive value)
    (motive_3 := fun members => ∀ member ∈ members, motive member.2)
    (motive_4 := fun member => motive member.2) null bool number string array object
    (List.forall_mem_nil _) cons (List.forall_mem_nil _) cons (fun _ _ h => h) value

/-- Whether two values are equal up to the order of the keys of objects. -/
inductive Json.IsLike : Json → Json → Prop
  | refl (value : Json) : IsLike value value
  | array {items others : List Json} (h : List.Forall₂ IsLike items others) :
      IsLike (.array items) (.array others)
  | object {members others : Members} (keys : (members.map (·.1)).Perm (others.map (·.1)))
      (values : ∀ {key : String} {value other : Json}, (key, value) ∈ members →
        (key, other) ∈ others → IsLike value other) :
      IsLike (.object members) (.object others)

/-- Wrapping a value into lists of one keeps likeness. -/
theorem Json.IsLike.wrap {value other : Json} (h : value.IsLike other) :
    ∀ type : TypeRef, (type.wrap value).IsLike (type.wrap other)
  | .named _ _ => h
  | .list item _ => .array (.cons (h.wrap item) .nil)

theorem isSome_of_rel {α β : Type} {R : α → β → Prop} {x : Option α} {y : Option β}
    (h : Option.Rel R x y) : x.isSome = y.isSome := by
  cases h <;> rfl

/-- Whether two maps give like values for every key, or none on both sides. -/
def LookUpAlike (members others : Members) : Prop :=
  ∀ key, Option.Rel Json.IsLike (members.get? key) (others.get? key)

/-- Maps without a key twice that give related values for every key, or none on both sides, have the
same keys and related values. -/
theorem OrderedMap.related_of_get? {ν : Type} {R : ν → ν → Prop} {map other : OrderedMap String ν}
    (hnd : (map.map (·.1)).Nodup) (hother : (other.map (·.1)).Nodup)
    (h : ∀ key, Option.Rel R (map.get? key) (other.get? key)) :
    (map.map (·.1)).Perm (other.map (·.1))
      ∧ ∀ {key : String} {value value' : ν}, (key, value) ∈ map → (key, value') ∈ other →
        R value value' := by
  refine ⟨(List.perm_ext_iff_of_nodup hnd hother).2 fun key => ?_,
    fun {key value value'} hmem hmem' => ?_⟩
  · rw [← OrderedMap.has_iff_mem, ← OrderedMap.has_iff_mem, OrderedMap.has, OrderedMap.has,
      isSome_of_rel (h key)]
  · have hkey := h key
    rw [OrderedMap.get?_of_mem hnd hmem, OrderedMap.get?_of_mem hother hmem'] at hkey
    cases hkey with
    | some hlike => exact hlike

/-- Objects without a key twice are alike if their members are. -/
theorem Json.isLike_object {members others : Members} (hnd : (members.map (·.1)).Nodup)
    (hother : (others.map (·.1)).Nodup) (h : LookUpAlike members others) :
    (Json.object members).IsLike (.object others) := by
  obtain ⟨hkeys, hvalues⟩ := OrderedMap.related_of_get? hnd hother h
  exact .object hkeys hvalues

theorem Json.isLike_array_iff {items others : List Json} :
    (Json.array items).IsLike (.array others) ↔ List.Forall₂ Json.IsLike items others := by
  constructor
  · intro h
    cases h with
    | refl => exact List.forall₂_same.2 fun value _ => .refl value
    | array h => exact h
  · exact .array

/-- Lists of one are alike if what they hold is. -/
theorem TypeRef.isLike_wrap_iff {value other : Json} (type : TypeRef) :
    (type.wrap value).IsLike (type.wrap other) ↔ value.IsLike other := by
  induction type with
  | named name nonNull => exact Iff.rfl
  | list item nonNull ih =>
    rw [TypeRef.wrap, TypeRef.wrap, Json.isLike_array_iff, List.forall₂_cons, ih]
    exact and_iff_left .nil

/-- The members of objects are alike if the objects are. -/
theorem Json.IsLike.lookUpAlike {members others : Members}
    (h : (Json.object members).IsLike (.object others)) : LookUpAlike members others := by
  intro key
  cases h with
  | refl =>
    cases members.get? key with
    | none => exact .none
    | some value => exact .some (.refl value)
  | object keys values =>
    have hhas : members.has key = others.has key := by
      rw [Bool.eq_iff_iff, OrderedMap.has_iff_mem, OrderedMap.has_iff_mem, keys.mem_iff]
    rw [OrderedMap.has, OrderedMap.has] at hhas
    cases hvalue : members.get? key with
    | none =>
      rw [hvalue] at hhas
      rw [Option.not_isSome_iff_eq_none.1 (ne_true_of_eq_false hhas.symm)]
      exact .none
    | some value =>
      rw [hvalue] at hhas
      obtain ⟨other, hother⟩ := Option.isSome_iff_exists.1 hhas.symm
      rw [hother]
      exact .some (values (OrderedMap.mem_of_get? hvalue) (OrderedMap.mem_of_get? hother))

theorem Json.isLike_object_iff {members others : Members} (hnd : (members.map (·.1)).Nodup)
    (hother : (others.map (·.1)).Nodup) :
    (Json.object members).IsLike (.object others) ↔ LookUpAlike members others :=
  ⟨Json.IsLike.lookUpAlike, Json.isLike_object hnd hother⟩

/-- Likeness is transitive: a key of the outer objects is one of the object between them. -/
theorem Json.IsLike.trans {value other third : Json} (h : value.IsLike other)
    (hthird : other.IsLike third) : value.IsLike third := by
  induction value using Json.induction generalizing other third with
  | array items ih =>
    cases h with
    | refl => exact hthird
    | array h =>
      cases hthird with
      | refl => exact .array h
      | array hthird =>
        refine .array (forall₂_trans_of_mem (fun item hitem _ _ hother => ?_) h hthird)
        exact ih item hitem hother
  | object members ih =>
    cases h with
    | refl => exact hthird
    | object keys values =>
      cases hthird with
      | refl => exact .object keys values
      | object keys' values' =>
        refine .object (keys.trans keys') fun {key value third} hmem hmem' => ?_
        obtain ⟨⟨key, between⟩, hbetween, rfl⟩ :=
          List.mem_map.1 (keys.mem_iff.1 (List.mem_map_of_mem hmem))
        exact ih (key, value) hmem (values hmem hbetween) (values' hbetween hmem')
  | _ =>
    cases h
    exact hthird

/-! ## Entries in step -/

/-- Whether entries have the same key, and like values. -/
def EntriesAlike (entry other : String × Json) : Prop :=
  entry.1 = other.1 ∧ entry.2.IsLike other.2

/-- Maps with alike entries give like values for each key. -/
theorem EntriesAlike.lookUpAlike {members others : Members}
    (h : List.Forall₂ EntriesAlike members others) : LookUpAlike members others := by
  intro key
  induction h with
  | nil => exact .none
  | cons hentry _ ih =>
    rw [OrderedMap.get?_cons, OrderedMap.get?_cons, ← hentry.1]
    split
    · exact .some hentry.2
    · exact ih

end SelectionForest
