import SelectionForest.Proofs.Narrowing

/-!
# The fields that a walk meets

Expanding selections lists the fields that take part in them, in document order, with inline
fragments and spreads replaced by what they hold. Each field stands with the object types that it is
selected for: those of the root that all conditions on the way to it apply to. The relation
`Request.Expands` says so without a state, an order of narrowing or a bound on nesting.

* `Expands.unique`: selections have one expansion;
* `walk_visits`, `walks_visit`: a walk that succeeds visits the expansion of its selections, one
  after the other, and walks through several selection sets do so as one.
-/

namespace SelectionForest

/-- The directives that stand on a selection. -/
def Selection.directives : Selection → List Directive
  | .field selected => selected.directives
  | .inline _ directives _ => directives
  | .spread _ directives => directives

/-- A field where a walk meets it, with the object types that it is selected for there. -/
structure Occurrence where
  field : Field
  types : TypeSet

namespace Request

/-- The expansion of selections that stand under the given conditions, the innermost first. A
selection is left out if its directives exclude it, or those of the fragment that it spreads do, or
if no object type is left. -/
inductive Expands (request : Request) (root : TypeSet) :
    List Name → List Selection → List Occurrence → Prop
  | nil {conditions : List Name} : Expands request root conditions [] []
  | excluded {conditions : List Name} {selection : Selection} {rest : List Selection}
      {occs : List Occurrence} (h : isIncluded request.bindings selection.directives = .ok false)
      (hrest : Expands request root conditions rest occs) :
      Expands request root conditions (selection :: rest) occs
  | pruned {conditions : List Name} {selection : Selection} {rest : List Selection}
      {occs : List Occurrence} (h : (request.left root conditions).isEmpty = true)
      (hrest : Expands request root conditions rest occs) :
      Expands request root conditions (selection :: rest) occs
  | field {conditions : List Name} {field : Field} {rest : List Selection}
      {occs : List Occurrence} (h : isIncluded request.bindings field.directives = .ok true)
      (hleft : (request.left root conditions).isEmpty = false)
      (hrest : Expands request root conditions rest occs) :
      Expands request root conditions (.field field :: rest)
        (⟨field, request.left root conditions⟩ :: occs)
  | inline {conditions : List Name} {condition : Option Name} {directives : List Directive}
      {inner rest : List Selection} {occs others : List Occurrence}
      (h : isIncluded request.bindings directives = .ok true)
      (hinner : Expands request root (condition.toList ++ conditions) inner occs)
      (hrest : Expands request root conditions rest others) :
      Expands request root conditions (.inline condition directives inner :: rest)
        (occs ++ others)
  | spread {conditions : List Name} {name : Name} {directives : List Directive}
      {fragment : Fragment} {rest : List Selection} {occs others : List Occurrence}
      (h : isIncluded request.bindings directives = .ok true)
      (hget : request.fragments.get? name = some fragment)
      (hfragment : isIncluded request.bindings fragment.directives = .ok true)
      (hinner : Expands request root (fragment.condition :: conditions) fragment.selections occs)
      (hrest : Expands request root conditions rest others) :
      Expands request root conditions (.spread name directives :: rest) (occs ++ others)
  | fragmentExcluded {conditions : List Name} {name : Name} {directives : List Directive}
      {fragment : Fragment} {rest : List Selection} {occs : List Occurrence}
      (hget : request.fragments.get? name = some fragment)
      (hfragment : isIncluded request.bindings fragment.directives = .ok false)
      (hrest : Expands request root conditions rest occs) :
      Expands request root conditions (.spread name directives :: rest) occs

variable {request : Request} {root : TypeSet}

namespace Expands

/-- Nothing takes part where no object type is left. -/
theorem eq_nil {conditions : List Name} {selections : List Selection} {occs : List Occurrence}
    (h : Expands request root conditions selections occs)
    (hleft : ∀ type, type ∉ request.left root conditions) : occs = [] := by
  induction h with
  | nil => rfl
  | excluded _ _ ih => exact ih hleft
  | pruned _ _ ih => exact ih hleft
  | field _ hne => simp [TypeSet.isEmpty_iff.2 hleft] at hne
  | inline _ _ _ ihinner ihrest =>
    rw [ihinner fun type ht => hleft type (left_cons_subset ht), ihrest hleft, List.append_nil]
  | spread _ _ _ _ _ ihinner ihrest =>
    rw [ihinner fun type ht => hleft type (mem_left_cons.1 ht).1, ihrest hleft, List.append_nil]
  | fragmentExcluded _ _ _ ih => exact ih hleft

/-- An occurrence has an object type. -/
theorem exists_type {conditions : List Name} {selections : List Selection}
    {occs : List Occurrence} (h : Expands request root conditions selections occs)
    {occ : Occurrence} (hocc : occ ∈ occs) : ∃ type, occ.types.first? = some type := by
  induction h with
  | nil => exact absurd hocc List.not_mem_nil
  | excluded _ _ ih => exact ih hocc
  | pruned _ _ ih => exact ih hocc
  | field _ hleft _ ih =>
    rcases List.mem_cons.1 hocc with rfl | hocc
    · obtain ⟨type, hfirst, -⟩ := TypeSet.exists_first hleft
      exact ⟨type, hfirst⟩
    · exact ih hocc
  | inline _ _ _ ihinner ihrest => exact (List.mem_append.1 hocc).elim ihinner ihrest
  | spread _ _ _ _ _ ihinner ihrest => exact (List.mem_append.1 hocc).elim ihinner ihrest
  | fragmentExcluded _ _ _ ih => exact ih hocc

theorem append {conditions : List Name} {xs ys : List Selection} {occs others : List Occurrence}
    (hx : Expands request root conditions xs occs)
    (hy : Expands request root conditions ys others) :
    Expands request root conditions (xs ++ ys) (occs ++ others) := by
  induction hx with
  | nil => exact hy
  | excluded h _ ih => exact .excluded h (ih hy)
  | pruned h _ ih => exact .pruned h (ih hy)
  | field h hleft _ ih => exact .field h hleft (ih hy)
  | inline h hinner _ _ ih => exact List.append_assoc .. ▸ .inline h hinner (ih hy)
  | spread h hget hfragment hinner _ _ ih =>
    exact List.append_assoc .. ▸ .spread h hget hfragment hinner (ih hy)
  | fragmentExcluded hget hfragment _ ih => exact .fragmentExcluded hget hfragment (ih hy)

theorem exists_cons {conditions : List Name} {selection : Selection} {rest : List Selection}
    {occs : List Occurrence} (h : Expands request root conditions (selection :: rest) occs) :
    ∃ first others, occs = first ++ others ∧ Expands request root conditions [selection] first
      ∧ Expands request root conditions rest others := by
  cases h with
  | excluded h hrest => exact ⟨[], _, rfl, .excluded h .nil, hrest⟩
  | pruned h hrest => exact ⟨[], _, rfl, .pruned h .nil, hrest⟩
  | field h hleft hrest => exact ⟨[_], _, rfl, .field h hleft .nil, hrest⟩
  | @inline _ _ _ _ _ first _ h hinner hrest =>
    exact ⟨first, _, rfl, List.append_nil first ▸ .inline h hinner .nil, hrest⟩
  | @spread _ _ _ _ _ first _ h hget hfragment hinner hrest =>
    exact ⟨first, _, rfl, List.append_nil first ▸ .spread h hget hfragment hinner .nil, hrest⟩
  | fragmentExcluded hget hfragment hrest =>
    exact ⟨[], _, rfl, .fragmentExcluded hget hfragment .nil, hrest⟩

/-- What stands one after the other expands one after the other. -/
theorem exists_append {conditions : List Name} {xs ys : List Selection} {occs : List Occurrence}
    (h : Expands request root conditions (xs ++ ys) occs) :
    ∃ first others, occs = first ++ others ∧ Expands request root conditions xs first
      ∧ Expands request root conditions ys others := by
  induction xs generalizing occs with
  | nil => exact ⟨[], occs, rfl, .nil, h⟩
  | cons x xs ih =>
    obtain ⟨first, rest, rfl, hx, hrest⟩ := h.exists_cons
    obtain ⟨mid, others, rfl, hxs, hys⟩ := ih hrest
    exact ⟨first ++ mid, others, (List.append_assoc ..).symm, hx.append hxs, hys⟩

/-- Selections have one expansion. -/
theorem unique {conditions : List Name} {selections : List Selection}
    {occs others : List Occurrence}
    (h : Expands request root conditions selections occs)
    (h' : Expands request root conditions selections others) : occs = others := by
  induction h generalizing others with
  | nil => cases h'; rfl
  | @excluded conditions selection _ _ h _ ih =>
    cases h' with
    | excluded _ h' => exact ih h'
    | pruned _ h' => exact ih h'
    | fragmentExcluded _ _ h' => exact ih h'
    | field hin => exact (false_of_ok h hin).elim
    | inline hin => exact (false_of_ok h hin).elim
    | spread hin => exact (false_of_ok h hin).elim
  | pruned h hrest =>
    rw [hrest.eq_nil (TypeSet.isEmpty_iff.1 h), h'.eq_nil (TypeSet.isEmpty_iff.1 h)]
  | field hin hleft _ ih =>
    cases h' with
    | excluded h => exact (false_of_ok h hin).elim
    | pruned h => exact absurd (h.symm.trans hleft) (by simp)
    | field _ _ h' => rw [ih h']
  | inline hin hinner hrest ihinner ihrest =>
    cases h' with
    | excluded h => exact (false_of_ok h hin).elim
    | pruned h h' =>
      have hnone := TypeSet.isEmpty_iff.1 h
      rw [(Expands.inline hin hinner hrest).eq_nil hnone, h'.eq_nil hnone]
    | inline _ hinner' hrest' => rw [ihinner hinner', ihrest hrest']
  | spread hin hget hfragment hinner hrest ihinner ihrest =>
    cases h' with
    | excluded h => exact (false_of_ok h hin).elim
    | pruned h h' =>
      have hnone := TypeSet.isEmpty_iff.1 h
      rw [(Expands.spread hin hget hfragment hinner hrest).eq_nil hnone, h'.eq_nil hnone]
    | spread _ hget' _ hinner' hrest' =>
      obtain rfl := Option.some.inj (hget.symm.trans hget')
      rw [ihinner hinner', ihrest hrest']
    | fragmentExcluded hget' hout =>
      obtain rfl := Option.some.inj (hget.symm.trans hget')
      exact (false_of_ok hout hfragment).elim
  | fragmentExcluded hget hout _ ih =>
    cases h' with
    | excluded _ h' => exact ih h'
    | pruned _ h' => exact ih h'
    | fragmentExcluded _ _ h' => exact ih h'
    | spread _ hget' hfragment =>
      obtain rfl := Option.some.inj (hget.symm.trans hget')
      exact (false_of_ok hout hfragment).elim

end Expands

/-! ## Walks -/

section Walks

variable {σ : Type} {visit : Visit σ}

/-- Visits a field that a walk meets, with the first of its object types. -/
def visitAt (visit : Visit σ) (state : σ) (occurrence : Occurrence) : Outcome σ :=
  match occurrence.types.first? with
  | some first => visit state occurrence.field first occurrence.types
  | none => pure state

/-- What a walk through selections does: it visits their expansion, one after the other. -/
def Visits (request : Request) (root : TypeSet) (visit : Visit σ) (conditions : List Name)
    (selections : List Selection) (state out : σ) : Prop :=
  ∃ occs, Expands request root conditions selections occs
    ∧ occs.foldlM (visitAt visit) state = .ok out

theorem Visits.append {conditions : List Name} {xs ys : List Selection} {state mid out : σ}
    (hx : Visits request root visit conditions xs state mid)
    (hy : Visits request root visit conditions ys mid out) :
    Visits request root visit conditions (xs ++ ys) state out := by
  obtain ⟨occs, hxs, hmid⟩ := hx
  obtain ⟨others, hys, hout⟩ := hy
  exact ⟨occs ++ others, hxs.append hys, by
    rw [List.foldlM_append, bind_eq_ok]
    exact ⟨mid, hmid, hout⟩⟩

/-- Nothing is visited where a selection alone has the empty expansion. -/
theorem Visits.nothing {conditions : List Name} {selection : Selection} {state : σ}
    (h : Expands request root conditions [selection] []) :
    Visits request root visit conditions [selection] state state :=
  ⟨[], h, rfl⟩

/-- Whether entering a fragment visits the expansion of its spread. -/
def EntersSpreads (request : Request) (root : TypeSet) (visit : Visit σ)
    (enter : Name → TypeSet → σ → Outcome σ) : Prop :=
  ∀ {conditions : List Name} {name : Name} {directives : List Directive} {state out : σ},
    isIncluded request.bindings directives = .ok true →
    enter name (request.left root conditions) state = .ok out →
    Visits request root visit conditions [.spread name directives] state out

variable {enter : Name → TypeSet → σ → Outcome σ}

mutual

theorem walkSelection_visits (henter : EntersSpreads request root visit enter) :
    ∀ (selection : Selection) {conditions : List Name} {state out : σ},
    walkSelection request enter visit selection (request.left root conditions) state = .ok out →
    Visits request root visit conditions [selection] state out
  | .field selected, conditions, state, out, h => by
    rw [walkSelection] at h
    rcases tested_eq_ok h with ⟨hout, rfl⟩ | ⟨hin, h⟩
    · exact .nothing (.excluded hout .nil)
    · by_cases hleft : (request.left root conditions).isEmpty = true
      · rw [TypeSet.first?_eq_none.2 hleft] at h
        obtain rfl := pure_eq_ok.1 h
        exact .nothing (.pruned hleft .nil)
      · refine ⟨_, .field hin (Bool.eq_false_iff.2 hleft) .nil, ?_⟩
        rw [List.foldlM_cons, bind_eq_ok]
        exact ⟨out, h, rfl⟩
  | .inline condition directives inner, conditions, state, out, h => by
    rw [walkSelection.eq_def] at h
    dsimp only at h
    rcases tested_eq_ok h with ⟨hout, rfl⟩ | ⟨hin, h⟩
    · exact .nothing (.excluded hout .nil)
    · by_cases hleft : (request.left root conditions).isEmpty = true
      · rw [if_pos hleft] at h
        obtain rfl := pure_eq_ok.1 h
        exact .nothing (.pruned hleft .nil)
      · rw [if_neg hleft] at h
        have hnext : walkSelections request enter visit inner
            (request.left root (condition.toList ++ conditions)) state = .ok out := by
          cases condition with
          | none => exact h
          | some condition =>
            obtain ⟨next, hnext, h⟩ := bind_eq_ok.1 h
            rwa [restrict_left (Bool.eq_false_iff.2 hleft) hnext] at h
        obtain ⟨occs, hinner, hfold⟩ := walkSelections_visits henter inner hnext
        exact ⟨occs, List.append_nil occs ▸ .inline hin hinner .nil, hfold⟩
  | .spread name directives, conditions, state, out, h => by
    rw [walkSelection] at h
    rcases tested_eq_ok h with ⟨hout, rfl⟩ | ⟨hin, h⟩
    · exact .nothing (.excluded hout .nil)
    · exact henter hin h

theorem walkSelections_visits (henter : EntersSpreads request root visit enter) :
    ∀ (selections : List Selection) {conditions : List Name} {state out : σ},
    walkSelections request enter visit selections (request.left root conditions) state = .ok out →
    Visits request root visit conditions selections state out
  | [], conditions, state, out, h => by
    rw [walkSelections] at h
    obtain rfl := pure_eq_ok.1 h
    exact ⟨[], .nil, rfl⟩
  | selection :: selections, conditions, state, out, h => by
    rw [walkSelections] at h
    obtain ⟨mid, hmid, h⟩ := bind_eq_ok.1 h
    exact (walkSelection_visits henter selection hmid).append
      (walkSelections_visits henter selections h)

end

/-- Entering a fragment visits the expansion of its spread. -/
theorem enterFragment_visits (nesting : Nat) :
    EntersSpreads request root visit (enterFragment request visit nesting) := by
  induction nesting with
  | zero =>
    intro _ _ _ _ _ _ h
    simp [enterFragment] at h
  | succ nesting ih =>
    intro conditions name directives state out hin h
    rw [enterFragment] at h
    split at h
    · cases h
    · rename_i fragment hget
      rcases tested_eq_ok h with ⟨hout, rfl⟩ | ⟨hfragment, h⟩
      · exact .nothing (.fragmentExcluded hget hout .nil)
      · by_cases hleft : (request.left root conditions).isEmpty = true
        · rw [if_pos hleft] at h
          obtain rfl := pure_eq_ok.1 h
          exact .nothing (.pruned hleft .nil)
        · rw [if_neg hleft] at h
          obtain ⟨next, hnext, h⟩ := bind_eq_ok.1 h
          rw [restrict_left (Bool.eq_false_iff.2 hleft) hnext] at h
          obtain ⟨occs, hinner, hfold⟩ := walkSelections_visits ih fragment.selections h
          exact ⟨occs, List.append_nil occs ▸ .spread hin hget hfragment hinner .nil, hfold⟩

/-- A walk that succeeds visits the expansion of its selections, one after the other. -/
theorem walk_visits {selections : List Selection} {state out : σ}
    (h : request.walk visit root selections state = .ok out) :
    Visits request root visit [] selections state out := by
  rw [walk, ← left_nil request root] at h
  exact walkSelections_visits (enterFragment_visits _) selections h

/-- Walks through several selection sets visit the expansion of them all, as one. -/
theorem walks_visit {sets : List (List Selection)} {state out : σ}
    (h : sets.foldlM (fun state selections => request.walk visit root selections state) state
      = .ok out) :
    Visits request root visit [] sets.flatten state out := by
  induction sets generalizing state with
  | nil =>
    obtain rfl := pure_eq_ok.1 h
    exact ⟨[], .nil, rfl⟩
  | cons selections sets ih =>
    rw [List.foldlM_cons, bind_eq_ok] at h
    obtain ⟨mid, hmid, h⟩ := h
    exact (walk_visits hmid).append (ih h)

end Walks

end Request

end SelectionForest
