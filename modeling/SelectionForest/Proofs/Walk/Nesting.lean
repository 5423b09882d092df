import Mathlib.Data.List.Flatten
import Mathlib.Logic.Relation
import SelectionForest.Proofs.Walk.Fields

/-!
# Fragments that do not reach themselves

A fragment spreads another one if a spread of it stands anywhere inside, and fragments are acyclic
if none reaches itself in this way (`Fragments.AreAcyclic`). A fragment then reaches more than any
spread inside it does (`AreAcyclic.add_reachedFrom_le`). So what holds of a fragment if it does of
those that it spreads holds of all (`AreAcyclic.induction`), and fields nest at most as deep as
there are any (`Fragments.NestsWithin`, `AreAcyclic.nestsWithin`).
-/

namespace SelectionForest

mutual

/-- The names that a selection spreads, at any depth. -/
def Selection.spreads : Selection → List Name
  | .field field => field.spreads
  | .inline _ _ selections => spreadsOf selections
  | .spread fragment _ => [fragment]

/-- The names that are spread below a field, at any depth. -/
def Field.spreads : Field → List Name
  | ⟨_, _, _, _, _, selections⟩ => spreadsOf selections

/-- The names that a selection set spreads, at any depth. -/
def spreadsOf : List Selection → List Name
  | [] => []
  | selection :: selections => selection.spreads ++ spreadsOf selections

end

theorem spreadsOf_field (field : Field) (selections : List Selection) :
    spreadsOf (.field field :: selections)
      = spreadsOf field.selections ++ spreadsOf selections := by
  cases field
  rfl

theorem spreadsOf_append (xs ys : List Selection) :
    spreadsOf (xs ++ ys) = spreadsOf xs ++ spreadsOf ys := by
  induction xs with
  | nil => rfl
  | cons x xs ih => rw [List.cons_append, spreadsOf, spreadsOf, ih, List.append_assoc]

/-- One more entry among those that a test lets through. -/
theorem add_length_filter_le {α β : Type} (part : α → List β) {p q : α → Bool}
    (hpq : ∀ x, p x → q x) {xs : List α} {x : α} (hx : x ∈ xs) (hq : q x) (hp : ¬ p x) :
    (part x).length + ((xs.filter p).flatMap part).length
      ≤ ((xs.filter q).flatMap part).length := by
  induction xs with
  | nil => exact absurd hx List.not_mem_nil
  | cons y ys ih =>
    by_cases hxy : x = y
    · subst hxy
      rw [List.filter_cons_of_pos hq, List.filter_cons_of_neg hp, List.flatMap_cons,
        List.length_append]
      have hsub := (List.monotone_filter_right ys hpq).flatMap part
      exact Nat.add_le_add_left hsub.length_le _
    · have hle := ih ((List.mem_cons.1 hx).resolve_left hxy)
      by_cases hy : p y
      · rw [List.filter_cons_of_pos hy, List.filter_cons_of_pos (hpq y hy), List.flatMap_cons,
          List.flatMap_cons, List.length_append, List.length_append]
        omega
      · rw [List.filter_cons_of_neg hy]
        by_cases hy' : q y
        · rw [List.filter_cons_of_pos hy', List.flatMap_cons, List.length_append]
          omega
        · rwa [List.filter_cons_of_neg hy']

namespace Fragments

variable {fragments : Fragments} {name other : Name} {fragment : Fragment}

/-- Whether the fragment of a name spreads another name, at any depth. -/
def Spreads (fragments : Fragments) (name other : Name) : Prop :=
  ∃ fragment, fragments.get? name = some fragment ∧ other ∈ spreadsOf fragment.selections

/-- Whether no fragment reaches itself. -/
def AreAcyclic (fragments : Fragments) : Prop :=
  ∀ name, ¬ Relation.TransGen fragments.Spreads name name

theorem AreAcyclic.of_spreads {others : Fragments} (h : fragments.AreAcyclic)
    (hspreads : ∀ name other, others.Spreads name other → fragments.Spreads name other) :
    others.AreAcyclic := fun name hcycle =>
  h name (Relation.TransGen.mono hspreads _ _ hcycle)

theorem name_of_get? (h : fragments.get? name = some fragment) : fragment.name = name := by
  simpa using List.find?_some h

/-- Fragments are acyclic if all that they spread has a lower rank. -/
theorem AreAcyclic.of_rank (rank : Name → Nat) (h : ∀ fragment ∈ fragments,
    ∀ other ∈ spreadsOf fragment.selections, rank other < rank fragment.name) :
    fragments.AreAcyclic := by
  have hstep {name other : Name} (hspreads : fragments.Spreads name other) :
      rank other < rank name := by
    obtain ⟨fragment, hget, hother⟩ := hspreads
    rw [← name_of_get? hget]
    exact h fragment (List.mem_of_find?_eq_some hget) other hother
  have hlower {name other : Name} (hreach : Relation.TransGen fragments.Spreads name other) :
      rank other < rank name := by
    induction hreach with
    | single hspreads => exact hstep hspreads
    | tail _ hspreads ih => exact Nat.lt_trans (hstep hspreads) ih
  exact fun name hcycle => Nat.lt_irrefl _ (hlower hcycle)

section Reach

open Classical in
/-- Whether a name is another one, or reaches it. -/
noncomputable def reaches (fragments : Fragments) (name other : Name) : Bool :=
  decide (Relation.ReflTransGen fragments.Spreads name other)

theorem reaches_iff :
    fragments.reaches name other ↔ Relation.ReflTransGen fragments.Spreads name other := by
  simp [reaches]

variable {β : Type} (part : Fragment → List β)

/-- The parts of all fragments that a name reaches, those of its own fragment included. -/
noncomputable def reachedFrom (fragments : Fragments) (name : Name) : List β :=
  (fragments.filter fun fragment => fragments.reaches name fragment.name).flatMap part

theorem reachedFrom_sublist (fragments : Fragments) (name : Name) :
    (fragments.reachedFrom part name).Sublist (fragments.flatMap part) :=
  List.filter_sublist.flatMap part

theorem length_le_reachedFrom (h : fragments.get? name = some fragment) :
    (part fragment).length ≤ (fragments.reachedFrom part name).length := by
  refine List.Sublist.length_le (List.sublist_flatten_of_mem (List.mem_map_of_mem ?_))
  rw [List.mem_filter, reaches_iff, name_of_get? h]
  exact ⟨List.mem_of_find?_eq_some h, .refl⟩

/-- What is reached from a fragment has its own part, and what is reached from any spread in it. -/
theorem AreAcyclic.add_reachedFrom_le (hacyclic : fragments.AreAcyclic)
    (h : fragments.get? name = some fragment) (hother : other ∈ spreadsOf fragment.selections) :
    (part fragment).length + (fragments.reachedFrom part other).length
      ≤ (fragments.reachedFrom part name).length := by
  have hspreads : fragments.Spreads name other := ⟨fragment, h, hother⟩
  refine add_length_filter_le part (fun G hG => ?_) (List.mem_of_find?_eq_some h) ?_ ?_
  · exact reaches_iff.2 (.head hspreads (reaches_iff.1 hG))
  · rw [reaches_iff, name_of_get? h]
  · rw [reaches_iff, name_of_get? h]
    exact fun hback => hacyclic name (.head' hspreads hback)

end Reach

/-- How many fragments are reached from a name. -/
noncomputable def height (fragments : Fragments) (name : Name) : Nat :=
  (fragments.reachedFrom (fun fragment => [fragment]) name).length

theorem height_le (fragments : Fragments) (name : Name) :
    fragments.height name ≤ fragments.length := by
  have hle := (reachedFrom_sublist (fun fragment => [fragment]) fragments name).length_le
  rwa [List.flatMap_singleton'] at hle

namespace AreAcyclic

theorem height_lt (hacyclic : fragments.AreAcyclic) (h : fragments.Spreads name other) :
    fragments.height other < fragments.height name := by
  obtain ⟨fragment, hget, hother⟩ := h
  have hle := hacyclic.add_reachedFrom_le (fun fragment => [fragment]) hget hother
  rw [List.length_singleton, Nat.add_comm] at hle
  exact hle

/-- What holds of a name if it does of all that its fragment spreads holds of every name. -/
theorem induction (hacyclic : fragments.AreAcyclic) {motive : Name → Prop}
    (step : ∀ name, (∀ other, fragments.Spreads name other → motive other) → motive name)
    (name : Name) : motive name := by
  induction hn : fragments.height name using Nat.strongRecOn generalizing name with
  | _ n ih =>
    exact step name fun other hspreads => ih _ (hn ▸ hacyclic.height_lt hspreads) other rfl

end AreAcyclic

/-! ## Nesting of fields -/

/-- Whether fields of selections stand at most so many one inside the other, those of spread
fragments included. -/
inductive NestsWithin (fragments : Fragments) : Nat → List Selection → Prop
  | nil {levels : Nat} : NestsWithin fragments levels []
  | field {levels : Nat} {field : Field} {rest : List Selection}
      (hbelow : NestsWithin fragments levels field.selections)
      (hrest : NestsWithin fragments (levels + 1) rest) :
      NestsWithin fragments (levels + 1) (.field field :: rest)
  | inline {levels : Nat} {condition : Option Name} {directives : List Directive}
      {inner rest : List Selection} (hinner : NestsWithin fragments levels inner)
      (hrest : NestsWithin fragments levels rest) :
      NestsWithin fragments levels (.inline condition directives inner :: rest)
  | spread {levels : Nat} {name : Name} {directives : List Directive} {rest : List Selection}
      (hfragment : ∀ fragment, fragments.get? name = some fragment →
        NestsWithin fragments levels fragment.selections)
      (hrest : NestsWithin fragments levels rest) :
      NestsWithin fragments levels (.spread name directives :: rest)

namespace NestsWithin

variable {levels more : Nat} {selections others : List Selection}

theorem mono (h : fragments.NestsWithin levels selections) (hle : levels ≤ more) :
    fragments.NestsWithin more selections := by
  induction h generalizing more with
  | nil => exact .nil
  | field _ _ ihbelow ihrest =>
    obtain ⟨more, rfl⟩ : ∃ n, more = n + 1 := ⟨more - 1, by omega⟩
    exact .field (ihbelow (by omega)) (ihrest hle)
  | inline _ _ ihinner ihrest => exact .inline (ihinner hle) (ihrest hle)
  | spread _ _ ihfragment ihrest =>
    exact .spread (fun fragment hget => ihfragment fragment hget hle) (ihrest hle)

theorem append (h : fragments.NestsWithin levels selections)
    (hothers : fragments.NestsWithin levels others) :
    fragments.NestsWithin levels (selections ++ others) := by
  induction h with
  | nil => exact hothers
  | field hbelow _ _ ihrest => exact .field hbelow (ihrest hothers)
  | inline hinner _ _ ihrest => exact .inline hinner (ihrest hothers)
  | spread hfragment _ _ ihrest => exact .spread hfragment (ihrest hothers)

theorem flatMap {fields : List Field}
    (h : ∀ field ∈ fields, fragments.NestsWithin levels field.selections) :
    fragments.NestsWithin levels (fields.flatMap (·.selections)) := by
  induction fields with
  | nil => exact .nil
  | cons field fields ih =>
    obtain ⟨hfield, hrest⟩ := List.forall_mem_cons.1 h
    exact hfield.append (ih hrest)

end NestsWithin

/-- Whether the fragments of names nest within a bound. -/
def Nest (fragments : Fragments) (levels : Nat) (names : List Name) : Prop :=
  ∀ name ∈ names, ∀ fragment, fragments.get? name = some fragment →
    fragments.NestsWithin levels fragment.selections

mutual

theorem nestsWithin_selection {levels : Nat} : ∀ (selection : Selection),
    fragments.Nest levels selection.spreads →
    fragments.NestsWithin (selection.fields.length + levels) [selection]
  | .field ⟨place, aliasName, name, arguments, directives, selections⟩, h => by
    have hlength : (Selection.field ⟨place, aliasName, name, arguments, directives,
        selections⟩).fields.length + levels = (fieldsOf selections).length + levels + 1 := by
      rw [Selection.fields, Field.fields, List.length_cons]
      omega
    rw [hlength]
    exact .field (nestsWithin_selections selections h) .nil
  | .inline condition directives selections, h =>
    .inline (nestsWithin_selections selections h) .nil
  | .spread name directives, h =>
    .spread (fun fragment hget =>
      (h name List.mem_cons_self fragment hget).mono (Nat.le_add_left _ _)) .nil

/-- Selections nest at most as deep as they have fields, on top of what their fragments do. -/
theorem nestsWithin_selections {levels : Nat} : ∀ (selections : List Selection),
    fragments.Nest levels (spreadsOf selections) →
    fragments.NestsWithin ((fieldsOf selections).length + levels) selections
  | [], _ => .nil
  | selection :: selections, h => by
    rw [spreadsOf, Nest, List.forall_mem_append] at h
    rw [fieldsOf, List.length_append]
    refine ((nestsWithin_selection selection h.1).mono ?_).append
      ((nestsWithin_selections selections h.2).mono ?_)
    · omega
    · omega

end

/-- The fields that a fragment writes, at any depth. -/
def fieldsIn (fragment : Fragment) : List Field := fieldsOf fragment.selections

/-- Acyclic fragments nest at most as deep as there are fields in what they reach. -/
theorem AreAcyclic.nestsWithin_get? (hacyclic : fragments.AreAcyclic) (name : Name) :
    ∀ fragment, fragments.get? name = some fragment →
      fragments.NestsWithin (fragments.reachedFrom fieldsIn name).length fragment.selections := by
  induction name using hacyclic.induction with
  | step name ih =>
    intro fragment hget
    have hown := length_le_reachedFrom fieldsIn hget
    have hnest : fragments.Nest
        ((fragments.reachedFrom fieldsIn name).length - (fieldsIn fragment).length)
        (spreadsOf fragment.selections) := fun other hother inner hinner => by
      have hle := hacyclic.add_reachedFrom_le fieldsIn hget hother
      exact (ih other ⟨fragment, hget, hother⟩ inner hinner).mono (Nat.le_sub_of_add_le' hle)
    refine (nestsWithin_selections fragment.selections hnest).mono ?_
    exact Nat.le_of_eq (Nat.add_sub_cancel' hown)

/-- With acyclic fragments, fields nest at most as deep as there are any. -/
theorem AreAcyclic.nestsWithin (hacyclic : fragments.AreAcyclic) (selections : List Selection) :
    fragments.NestsWithin
      ((fieldsOf selections).length + (fragments.flatMap fieldsIn).length) selections :=
  nestsWithin_selections selections fun name _ fragment hget =>
    (hacyclic.nestsWithin_get? name fragment hget).mono (reachedFrom_sublist fieldsIn ..).length_le

end Fragments

/-- A walk may enter all fragments that a name reaches one inside the other. -/
theorem Request.height_lt_nestingBound (request : Request) (name : Name) (types : TypeSet) :
    request.fragments.height name < request.nestingBound types := by
  refine Nat.lt_succ_of_le (Nat.le_trans (request.fragments.height_le name) ?_)
  exact Nat.le_mul_of_pos_right _ (Nat.succ_pos _)

/-- The fields that are met nest one level less deep below. -/
theorem Request.Expands.nestsWithin {request : Request} {root : TypeSet} {conditions : List Name}
    {selections : List Selection} {occs : List Occurrence}
    (h : request.Expands root conditions selections occs) {levels : Nat}
    (hnests : request.fragments.NestsWithin levels selections) :
    ∀ occ ∈ occs, ∃ below, levels = below + 1
      ∧ request.fragments.NestsWithin below occ.field.selections := by
  induction h with
  | nil => exact fun _ hocc => absurd hocc List.not_mem_nil
  | excluded _ _ ih => cases hnests <;> exact ih ‹_›
  | pruned _ _ ih => cases hnests <;> exact ih ‹_›
  | field _ _ _ ih =>
    cases hnests with
    | field hbelow hrest => exact List.forall_mem_cons.2 ⟨⟨_, rfl, hbelow⟩, ih hrest⟩
  | inline _ _ _ ihinner ihrest =>
    cases hnests with
    | inline hinner hrest => exact List.forall_mem_append.2 ⟨ihinner hinner, ihrest hrest⟩
  | spread _ hget _ _ _ ihinner ihrest =>
    cases hnests with
    | spread hfragment hrest =>
      exact List.forall_mem_append.2 ⟨ihinner (hfragment _ hget), ihrest hrest⟩
  | fragmentExcluded _ _ _ ih =>
    cases hnests with
    | spread _ hrest => exact ih hrest

end SelectionForest
