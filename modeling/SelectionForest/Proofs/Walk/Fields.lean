import SelectionForest.Proofs.Walk.Occurrences

/-!
# The fields that walks can meet

What holds of all fields that a selection set and the fragments write, at any depth, holds of all
fields that a walk through the selection set meets, and of those below them
(`Expands.forall_fields`).
-/

namespace SelectionForest

theorem Field.mem_fields {field other : Field} :
    other ∈ field.fields ↔ other = field ∨ other ∈ fieldsOf field.selections := by
  cases field
  rw [Field.fields, List.mem_cons]

theorem fieldsOf_field (field : Field) (selections : List Selection) :
    fieldsOf (.field field :: selections)
      = field :: fieldsOf field.selections ++ fieldsOf selections := by
  cases field
  rfl

theorem fieldsOf_append (xs ys : List Selection) :
    fieldsOf (xs ++ ys) = fieldsOf xs ++ fieldsOf ys := by
  induction xs with
  | nil => rfl
  | cons x xs ih => rw [List.cons_append, fieldsOf, fieldsOf, ih, List.append_assoc]

/-- The fields that the selection sets of fields write. -/
theorem fieldsOf_flatMap (fields : List Field) :
    fieldsOf (fields.flatMap (·.selections)) = fields.flatMap fun field =>
      fieldsOf field.selections := by
  induction fields with
  | nil => rfl
  | cons field fields ih => rw [List.flatMap_cons, fieldsOf_append, ih, List.flatMap_cons]

/-- Whether something holds of all fields that the fragments of a request write. -/
def Request.OfFragments (request : Request) (P : Field → Prop) : Prop :=
  ∀ fragment ∈ request.fragments, ∀ field ∈ fieldsOf fragment.selections, P field

/-- What holds of all fields that can be met holds of those that are met, and of those below. -/
theorem Request.Expands.forall_fields {request : Request} {P : Field → Prop}
    (hfragments : request.OfFragments P) {root : TypeSet} {conditions : List Name}
    {selections : List Selection} {occs : List Occurrence}
    (h : request.Expands root conditions selections occs)
    (hP : ∀ field ∈ fieldsOf selections, P field) :
    ∀ occ ∈ occs, ∀ field ∈ occ.field.fields, P field := by
  induction h with
  | nil => exact fun _ hocc => absurd hocc List.not_mem_nil
  | excluded _ _ ih => exact ih (List.forall_mem_append.1 hP).2
  | pruned _ _ ih => exact ih (List.forall_mem_append.1 hP).2
  | field _ _ _ ih =>
    obtain ⟨hfirst, hrest⟩ := List.forall_mem_append.1 hP
    exact List.forall_mem_cons.2 ⟨hfirst, ih hrest⟩
  | inline _ _ _ ihinner ihrest =>
    obtain ⟨hinner, hrest⟩ := List.forall_mem_append.1 hP
    exact List.forall_mem_append.2 ⟨ihinner hinner, ihrest hrest⟩
  | spread _ hget _ _ _ ihinner ihrest =>
    exact List.forall_mem_append.2
      ⟨ihinner (hfragments _ (List.mem_of_find?_eq_some hget)), ihrest hP⟩
  | fragmentExcluded _ _ _ ih => exact ih hP

end SelectionForest
