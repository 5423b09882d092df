import SelectionForest.Proofs.Grouping
import SelectionForest.Proofs.Narrowing

/-!
# Chains of type conditions

Type conditions narrow a set of object types one after the other. If something is left before each
of them (`Schema.LeavesSome`), they leave the types of the set that all of them apply to, in the
order of the set (`foldlM_restrict`). Nothing else about the chain matters: it may have its
conditions in another order, and any of them more than once (`foldlM_restrict_congr`).

The objects of an interface are found in a table of the interfaces that objects declare. They stand
in it in the order of the schema (`objectsImplementing_sublist`).
-/

namespace SelectionForest

/-- Dropping repeats from names that entries repeat leaves them in the order of the entries. -/
theorem withoutRepeats_flatMap_sublist {α : Type} {xs : List α} {f : α → List Name} {g : α → Name}
    (h : ∀ x ∈ xs, ∀ name ∈ f x, name = g x) :
    (withoutRepeats (xs.flatMap f)).Sublist (xs.map g) := by
  induction xs with
  | nil => exact List.Sublist.refl _
  | cons x xs ih =>
    obtain ⟨hx, hxs⟩ := List.forall_mem_cons.1 h
    have hfirst : (withoutRepeats (f x)).Sublist [g x] := by
      cases hf : f x with
      | nil => exact List.nil_sublist _
      | cons n ns =>
        rw [hf] at hx
        obtain ⟨rfl, hns⟩ := List.forall_mem_cons.1 hx
        have hnone : (withoutRepeats ns).filter (· ≠ g x) = [] :=
          List.filter_eq_nil_iff.2 fun name hname => by simp [hns name (mem_withoutRepeats.1 hname)]
        rw [withoutRepeats, hnone]
    rw [List.flatMap_cons, withoutRepeats_append]
    exact hfirst.append (List.filter_sublist.trans (ih hxs))

namespace TypeSet

theorem isEmpty_eq_false_iff {set : TypeSet} : set.isEmpty = false ↔ ∃ name, name ∈ set := by
  rw [← Bool.not_eq_true, isEmpty_iff, not_forall]
  simp only [not_not]

theorem isEmpty_of_filter {set : TypeSet} {test : Name → Bool}
    (h : (set.filter test).isEmpty = false) : set.isEmpty = false := by
  obtain ⟨name, hname⟩ := isEmpty_eq_false_iff.1 h
  exact isEmpty_eq_false_iff.2 ⟨name, (mem_filter.1 hname).1⟩

end TypeSet

namespace Schema

/-- The objects of an interface stand in the order of the schema. -/
theorem objectsImplementing_sublist (schema : Schema) (interface : Name) :
    (schema.objectsImplementing interface).names.Sublist (schema.types.map (·.1)) := by
  rw [objectsImplementing_eq, implementations, List.filter_flatMap, List.map_flatMap]
  refine withoutRepeats_flatMap_sublist fun definition _ name hname => ?_
  obtain ⟨object, type⟩ := definition
  cases type with
  | object interfaces fields =>
    obtain ⟨entry, hentry, rfl⟩ := List.mem_map.1 hname
    obtain ⟨_, -, rfl⟩ := List.mem_map.1 (List.mem_filter.1 hentry).1
    rfl
  | _ => simp at hname

/-- Whether conditions are composite types of a schema. -/
def DefinesAll (schema : Schema) (conditions : List CompositeType) : Prop :=
  ∀ condition ∈ conditions, schema.compositeOf condition.name = .ok condition

/-- Whether something is left of a set before each of the conditions that narrow it. -/
def LeavesSome (schema : Schema) (types : TypeSet) (conditions : List CompositeType) : Prop :=
  ∀ before condition after, conditions = before ++ condition :: after →
    ∀ left, before.foldlM schema.restrict types = .ok left → left.isEmpty = false

/-- The object types of a set that all conditions apply to. -/
def passing (schema : Schema) (types : TypeSet) (conditions : List CompositeType) : TypeSet :=
  types.filter fun type => conditions.all fun condition => schema.appliesTo condition.name type

variable {schema : Schema} {types : TypeSet} {condition : CompositeType}
  {conditions others : List CompositeType}

theorem passing_cons : schema.passing types (condition :: conditions)
    = schema.passing (types.filter (schema.appliesTo condition.name)) conditions := by
  refine TypeSet.ext_names ?_
  simp only [passing, TypeSet.filter, List.filter_filter, List.all_cons, Bool.and_comm]

theorem passing_append : schema.passing types (conditions ++ others)
    = schema.passing (schema.passing types conditions) others := by
  refine TypeSet.ext_names ?_
  simp only [passing, TypeSet.filter, List.filter_filter, List.all_append, Bool.and_comm]

theorem passing_congr (h : ∀ condition, condition ∈ others ↔ condition ∈ conditions) :
    schema.passing types others = schema.passing types conditions := by
  refine TypeSet.ext_names (List.filter_congr fun type _ => ?_)
  rw [Bool.eq_iff_iff, List.all_eq_true, List.all_eq_true]
  simp only [h]

/-- A condition leaves of a set that is not empty what it applies to. -/
theorem restrict_eq_filter (hdefined : schema.compositeOf condition.name = .ok condition)
    (hsome : types.isEmpty = false) :
    schema.restrict types condition = .ok (types.filter (schema.appliesTo condition.name)) := by
  obtain ⟨possible, hpossible⟩ := exists_possibleTypes hdefined
  rw [restrict, hpossible, ok_bind, hsome, if_neg Bool.false_ne_true,
    inter_possibleTypes hdefined hpossible]
  rfl

theorem leavesSome_cons : schema.LeavesSome types (condition :: conditions)
    ↔ types.isEmpty = false ∧ ∀ left, schema.restrict types condition = .ok left →
      schema.LeavesSome left conditions := by
  constructor
  · refine fun h => ⟨h [] condition conditions rfl types rfl, ?_⟩
    rintro left hleft before next after rfl out hout
    refine h (condition :: before) next after rfl out ?_
    rw [List.foldlM_cons, hleft]
    exact hout
  · rintro ⟨htypes, hnext⟩ before next after heq out hout
    cases before with
    | nil =>
      obtain rfl := pure_eq_ok.1 hout
      exact htypes
    | cons first before =>
      obtain ⟨rfl, rfl⟩ := List.cons.inj heq
      rw [List.foldlM_cons, bind_eq_ok] at hout
      obtain ⟨left, hleft, hout⟩ := hout
      exact hnext left hleft before next after rfl out hout

theorem LeavesSome.of_append (h : schema.LeavesSome types (conditions ++ others)) :
    schema.LeavesSome types conditions := by
  rintro before condition after rfl
  exact h before condition (after ++ others) (List.append_assoc ..)

/-- Conditions that find something left leave together what all of them apply to. -/
theorem foldlM_restrict (hdefined : schema.DefinesAll conditions)
    (hsome : schema.LeavesSome types conditions) :
    conditions.foldlM schema.restrict types = .ok (schema.passing types conditions) := by
  induction conditions generalizing types with
  | nil => exact congrArg Except.ok (TypeSet.ext_names (List.filter_eq_self.2 fun _ _ => rfl).symm)
  | cons condition conditions ih =>
    obtain ⟨hfirst, hrest⟩ := List.forall_mem_cons.1 hdefined
    obtain ⟨htypes, hnext⟩ := leavesSome_cons.1 hsome
    have hleft := restrict_eq_filter hfirst htypes
    rw [List.foldlM_cons, hleft, ok_bind, ih hrest (hnext _ hleft), passing_cons]

/-- If some type passes all conditions, something is left before each of them. -/
theorem leavesSome_of_passing (hdefined : schema.DefinesAll conditions)
    (h : (schema.passing types conditions).isEmpty = false) :
    schema.LeavesSome types conditions := by
  induction conditions generalizing types with
  | nil => exact fun before _ _ heq => absurd heq (by simp)
  | cons condition conditions ih =>
    obtain ⟨hfirst, hrest⟩ := List.forall_mem_cons.1 hdefined
    have htypes := TypeSet.isEmpty_of_filter h
    rw [passing_cons] at h
    refine leavesSome_cons.2 ⟨htypes, fun left hleft => ih hrest ?_⟩
    rw [restrict_eq_filter hfirst htypes] at hleft
    exact Except.ok.inj hleft ▸ h

/-- Chains of the same conditions leave the same, if something is left at the end, or else before
each condition of both. -/
theorem foldlM_restrict_congr (hdefined : schema.DefinesAll conditions)
    (hsame : ∀ condition, condition ∈ others ↔ condition ∈ conditions)
    (hsome : (schema.passing types conditions).isEmpty = false
      ∨ schema.LeavesSome types others) :
    others.foldlM schema.restrict types = .ok (schema.passing types conditions) := by
  have hothers : schema.DefinesAll others := fun condition hmem =>
    hdefined condition ((hsame condition).1 hmem)
  rw [← passing_congr hsame] at hsome ⊢
  exact foldlM_restrict hothers (hsome.elim (leavesSome_of_passing hothers) id)

end Schema

end SelectionForest
