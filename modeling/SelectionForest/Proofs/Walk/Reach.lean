import SelectionForest.Proofs.Walk.Occurrences

/-!
# What is reached for an object type

Execution has one object at a time, and so one object type. From a selection set it reaches, for
that type, the fields that are let through by their directives, and in the same way those of the
inline fragments and spreads whose condition applies to the type (`Request.Reaches`).

An expansion handles all object types of its root at once. It says the same for each of them: the
fields reached for a type are those that occur with it (`Expands.reaches`,
`Expands.exists_occurrence`).
-/

namespace SelectionForest

namespace Request

/-- Whether a field is reached from selections for an object type. -/
inductive Reaches (request : Request) (type : Name) : List Selection → Field → Prop
  | later {selection : Selection} {rest : List Selection} {field : Field}
      (h : Reaches request type rest field) : Reaches request type (selection :: rest) field
  | here {rest : List Selection} {field : Field}
      (h : isIncluded request.bindings field.directives = .ok true) :
      Reaches request type (.field field :: rest) field
  | inline {condition : Option Name} {directives : List Directive}
      {inner rest : List Selection} {field : Field}
      (h : isIncluded request.bindings directives = .ok true)
      (happlies : ∀ c ∈ condition, request.schema.appliesTo c type)
      (hinner : Reaches request type inner field) :
      Reaches request type (.inline condition directives inner :: rest) field
  | spread {name : Name} {directives : List Directive} {fragment : Fragment}
      {rest : List Selection} {field : Field}
      (h : isIncluded request.bindings directives = .ok true)
      (hget : request.fragments.get? name = some fragment)
      (hfragment : isIncluded request.bindings fragment.directives = .ok true)
      (happlies : request.schema.appliesTo fragment.condition type)
      (hinner : Reaches request type fragment.selections field) :
      Reaches request type (.spread name directives :: rest) field

variable {request : Request} {root : TypeSet}

namespace Reaches

variable {type : Name} {field : Field}

theorem append_right {xs ys : List Selection} (h : Reaches request type xs field) :
    Reaches request type (xs ++ ys) field := by
  induction h with
  | later _ ih => exact .later ih
  | here h => exact .here h
  | inline h happlies hinner => exact .inline h happlies hinner
  | spread h hget hfragment happlies hinner => exact .spread h hget hfragment happlies hinner

theorem append_left {xs ys : List Selection} (h : Reaches request type ys field) :
    Reaches request type (xs ++ ys) field := by
  induction xs with
  | nil => exact h
  | cons _ _ ih => exact .later ih

theorem append_iff {xs ys : List Selection} :
    Reaches request type (xs ++ ys) field
      ↔ Reaches request type xs field ∨ Reaches request type ys field := by
  refine ⟨fun h => ?_, fun h => h.elim append_right append_left⟩
  induction xs with
  | nil => exact .inr h
  | cons selection xs ih =>
    cases h with
    | later h => exact (ih h).imp_left .later
    | here h => exact .inl (.here h)
    | inline h happlies hinner => exact .inl (.inline h happlies hinner)
    | spread h hget hfragment happlies hinner =>
      exact .inl (.spread h hget hfragment happlies hinner)

/-- From several selection sets is reached what is reached from one of them. -/
theorem flatten_iff {sets : List (List Selection)} :
    Reaches request type sets.flatten field
      ↔ ∃ selections ∈ sets, Reaches request type selections field := by
  induction sets with
  | nil =>
    constructor
    · intro h
      cases h
    · rintro ⟨_, h, _⟩
      exact absurd h List.not_mem_nil
  | cons selections sets ih =>
    rw [List.flatten_cons, append_iff, ih, List.exists_mem_cons_iff]

end Reaches

namespace Expands

/-- What occurs with an object type is reached for it, by conditions that leave it. -/
theorem reaches {conditions : List Name} {selections : List Selection} {occs : List Occurrence}
    (h : Expands request root conditions selections occs) {occ : Occurrence} (hocc : occ ∈ occs)
    {type : Name} (ht : type ∈ occ.types) :
    type ∈ request.left root conditions ∧ Reaches request type selections occ.field := by
  induction h with
  | nil => exact absurd hocc List.not_mem_nil
  | excluded _ _ ih => exact (ih hocc).imp_right .later
  | pruned _ _ ih => exact (ih hocc).imp_right .later
  | field hin _ _ ih =>
    rcases List.mem_cons.1 hocc with rfl | hocc
    · exact ⟨ht, .here hin⟩
    · exact (ih hocc).imp_right .later
  | @inline conditions condition _ _ _ _ _ hin _ _ ihinner ihrest =>
    rcases List.mem_append.1 hocc with hocc | hocc
    · obtain ⟨hleft, hreach⟩ := ihinner hocc
      refine ⟨left_cons_subset hleft, .inline hin (fun c hc => ?_) hreach⟩
      exact (mem_left.1 hleft).2 c (List.mem_append_left _ (Option.mem_toList.2 hc))
    · exact (ihrest hocc).imp_right .later
  | spread hin hget hfragment _ _ ihinner ihrest =>
    rcases List.mem_append.1 hocc with hocc | hocc
    · obtain ⟨hleft, hreach⟩ := ihinner hocc
      obtain ⟨hleft, happlies⟩ := mem_left_cons.1 hleft
      exact ⟨hleft, .spread hin hget hfragment happlies hreach⟩
    · exact (ihrest hocc).imp_right .later
  | fragmentExcluded _ _ _ ih => exact (ih hocc).imp_right .later

/-- What is reached for an object type that the conditions leave occurs with it. -/
theorem exists_occurrence {conditions : List Name} {selections : List Selection}
    {occs : List Occurrence} (h : Expands request root conditions selections occs) {type : Name}
    (ht : type ∈ request.left root conditions) {field : Field}
    (hf : Reaches request type selections field) :
    ∃ occ ∈ occs, occ.field = field ∧ type ∈ occ.types := by
  induction h with
  | nil => cases hf
  | excluded hout _ ih =>
    cases hf with
    | later hf => exact ih ht hf
    | here hin => exact (false_of_ok hout hin).elim
    | inline hin => exact (false_of_ok hout hin).elim
    | spread hin => exact (false_of_ok hout hin).elim
  | pruned hleft => exact absurd ht (TypeSet.isEmpty_iff.1 hleft type)
  | field _ _ _ ih =>
    cases hf with
    | later hf =>
      obtain ⟨occ, hocc, hfield⟩ := ih ht hf
      exact ⟨occ, List.mem_cons_of_mem _ hocc, hfield⟩
    | here => exact ⟨_, List.mem_cons_self, rfl, ht⟩
  | @inline conditions condition _ _ _ _ _ _ _ _ ihinner ihrest =>
    cases hf with
    | later hf =>
      obtain ⟨occ, hocc, hfield⟩ := ihrest ht hf
      exact ⟨occ, List.mem_append_right _ hocc, hfield⟩
    | inline _ happlies hf =>
      have hleft : type ∈ request.left root (condition.toList ++ conditions) := by
        refine mem_left.2 ⟨(mem_left.1 ht).1, fun c hc => ?_⟩
        rcases List.mem_append.1 hc with hc | hc
        · exact happlies c (Option.mem_toList.1 hc)
        · exact (mem_left.1 ht).2 c hc
      obtain ⟨occ, hocc, hfield⟩ := ihinner hleft hf
      exact ⟨occ, List.mem_append_left _ hocc, hfield⟩
  | spread _ hget _ _ _ ihinner ihrest =>
    cases hf with
    | later hf =>
      obtain ⟨occ, hocc, hfield⟩ := ihrest ht hf
      exact ⟨occ, List.mem_append_right _ hocc, hfield⟩
    | spread _ hget' _ happlies hf =>
      obtain rfl := Option.some.inj (hget.symm.trans hget')
      obtain ⟨occ, hocc, hfield⟩ := ihinner (mem_left_cons.2 ⟨ht, happlies⟩) hf
      exact ⟨occ, List.mem_append_left _ hocc, hfield⟩
  | fragmentExcluded hget hout _ ih =>
    cases hf with
    | later hf => exact ih ht hf
    | spread _ hget' hin =>
      obtain rfl := Option.some.inj (hget.symm.trans hget')
      exact (false_of_ok hout hin).elim

end Expands

end Request

end SelectionForest
