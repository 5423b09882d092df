import SelectionForest.Proofs.Forest.Correspondence
import SelectionForest.Proofs.Rewriting.Copies

/-!
# Selections in another order

Two documents may write the selections of each selection set in another order, at any depth of an
operation and its fragments (`Shuffles`). If both operations have a forest, and no argument is
written twice, nor a key of an object literal, then the forests differ only in the numbers of their
nodes and in what is first among what is merged (`forestWith_shuffles`).

All that is needed of the order is that expansions of shuffled selections are shuffled themselves
(`Expands.exists_shuffled`).
-/

namespace SelectionForest

/-! ## Shuffled selections -/

/-- Whether selections are others in another order, with those inside them shuffled in turn: each
stands somewhere among the others. Fields may be given other places, as if the document was written
anew. -/
inductive Shuffles (moved : Nat → Nat) : List Selection → List Selection → Prop
  | nil : Shuffles moved [] []
  | field {field other : Field} {rest after : List Selection} (before : List Selection)
      (hplace : other.place = moved field.place) (hhead : field.SameHead other)
      (hdirectives : other.directives = field.directives)
      (hbelow : Shuffles moved field.selections other.selections)
      (hrest : Shuffles moved rest (before ++ after)) :
      Shuffles moved (.field field :: rest) (before ++ .field other :: after)
  | inline {condition : Option Name} {directives : List Directive}
      {inner inner' rest after : List Selection} (before : List Selection)
      (hinner : Shuffles moved inner inner') (hrest : Shuffles moved rest (before ++ after)) :
      Shuffles moved (.inline condition directives inner :: rest)
        (before ++ .inline condition directives inner' :: after)
  | spread {name : Name} {directives : List Directive} {rest after : List Selection}
      (before : List Selection) (hrest : Shuffles moved rest (before ++ after)) :
      Shuffles moved (.spread name directives :: rest) (before ++ .spread name directives :: after)

/-- Whether a field is another one with the selections below it shuffled. -/
structure Field.Shuffles (moved : Nat → Nat) (field other : Field) : Prop where
  place : other.place = moved field.place
  head : field.SameHead other
  directives : other.directives = field.directives
  selections : SelectionForest.Shuffles moved field.selections other.selections

/-- Whether a fragment is another one with its selections shuffled. -/
structure Fragment.Shuffles (moved : Nat → Nat) (fragment other : Fragment) : Prop where
  name : other.name = fragment.name
  condition : other.condition = fragment.condition
  directives : other.directives = fragment.directives
  selections : SelectionForest.Shuffles moved fragment.selections other.selections

/-- Whether fragments are others with their selections shuffled. -/
def Fragments.Shuffle (moved : Nat → Nat) (fragments others : Fragments) : Prop :=
  List.Forall₂ (Fragment.Shuffles moved) fragments others

namespace Shuffles

variable {moved : Nat → Nat} {selection : Selection} {selections others rest : List Selection}

theorem refl : ∀ (selections : List Selection), Shuffles id selections selections
  | [] => .nil
  | .field ⟨_, _, _, _, _, selections⟩ :: rest =>
    .field [] rfl ⟨rfl, rfl, rfl⟩ rfl (refl selections) (refl rest)
  | .inline _ _ selections :: rest => .inline [] (refl selections) (refl rest)
  | .spread _ _ :: rest => .spread [] (refl rest)

/-- Permuted selections are shuffled. -/
theorem of_perm (h : selections.Perm others) : Shuffles id selections others := by
  induction selections generalizing others with
  | nil =>
    obtain rfl := h.nil_eq
    exact .nil
  | cons selection rest ih =>
    obtain ⟨before, after, rfl⟩ := List.append_of_mem (h.mem_iff.1 List.mem_cons_self)
    have hrest : Shuffles id rest (before ++ after) :=
      ih (List.Perm.cons_inv (h.trans List.perm_middle))
    cases selection with
    | field field => exact .field before rfl ⟨rfl, rfl, rfl⟩ rfl (refl _) hrest
    | inline => exact .inline before (refl _) hrest
    | spread => exact .spread before hrest

/-- The first of some selections stands somewhere among those that they are shuffled into. -/
theorem exists_of_cons (h : Shuffles moved (selection :: rest) others) :
    ∃ shuffled before after, others = before ++ shuffled :: after
      ∧ shuffled.directives = selection.directives ∧ Shuffles moved rest (before ++ after) := by
  cases h with
  | field before _ _ hdirectives _ hrest => exact ⟨_, before, _, rfl, hdirectives, hrest⟩
  | inline before _ hrest => exact ⟨_, before, _, rfl, rfl, hrest⟩
  | spread before hrest => exact ⟨_, before, _, rfl, rfl, hrest⟩

theorem haveUniqueNames (h : Shuffles moved selections others)
    (hnames : HaveUniqueNames (fieldsOf selections)) : HaveUniqueNames (fieldsOf others) := by
  induction h with
  | nil => exact hnames
  | field _ _ hhead _ _ _ ihbelow ihrest =>
    rw [fieldsOf_field, HaveUniqueNames.append, HaveUniqueNames.cons] at hnames
    have hrest := ihrest hnames.2
    rw [fieldsOf_append, HaveUniqueNames.append] at hrest
    rw [fieldsOf_append, fieldsOf_field, HaveUniqueNames.append, HaveUniqueNames.append,
      HaveUniqueNames.cons, hhead.arguments]
    exact ⟨hrest.1, ⟨hnames.1.1, ihbelow hnames.1.2⟩, hrest.2⟩
  | inline _ _ _ ihinner ihrest =>
    rw [fieldsOf, HaveUniqueNames.append] at hnames
    have hrest := ihrest hnames.2
    rw [fieldsOf_append, HaveUniqueNames.append] at hrest
    rw [fieldsOf_append, fieldsOf, HaveUniqueNames.append, HaveUniqueNames.append]
    exact ⟨hrest.1, ihinner hnames.1, hrest.2⟩
  | spread _ _ ihrest =>
    have hrest := ihrest hnames
    rw [fieldsOf_append, HaveUniqueNames.append] at hrest ⊢
    exact hrest

end Shuffles

namespace Fragments.Shuffle

variable {moved : Nat → Nat} {fragments others : Fragments}

theorem exists_get? (h : fragments.Shuffle moved others) {name : Name} {fragment : Fragment}
    (hget : fragments.get? name = some fragment) :
    ∃ other, others.get? name = some other ∧ fragment.Shuffles moved other := by
  have hlooked := get?_rel (fun hfragment => hfragment.name) h name
  rw [hget] at hlooked
  generalize others.get? name = found at hlooked ⊢
  cases hlooked with
  | some hshuffled => exact ⟨_, rfl, hshuffled⟩

theorem haveUniqueNames (h : fragments.Shuffle moved others) (hnames : fragments.HaveUniqueNames) :
    others.HaveUniqueNames := fun other hother => by
  obtain ⟨fragment, hfragment, hshuffled⟩ := exists_left h hother
  exact hshuffled.selections.haveUniqueNames (hnames fragment hfragment)

end Fragments.Shuffle

/-! ## Shuffled expansions -/

namespace Request.Expands

variable {request : Request} {root : TypeSet} {conditions : List Name}

/-- What one selection expands to can be put into the expansion of those that it stands among. -/
theorem exists_insert {R : Field → Field → Prop} {before after : List Selection}
    {selection : Selection} {occs first first' others : List Occurrence}
    (hboth : request.Expands root conditions (before ++ after) others)
    (hrest : Reordered (Occurrence.Like R) occs others)
    (hone : request.Expands root conditions [selection] first')
    (hfirst : Reordered (Occurrence.Like R) first first') :
    ∃ all, request.Expands root conditions (before ++ selection :: after) all
      ∧ Reordered (Occurrence.Like R) (first ++ occs) all := by
  obtain ⟨front, back, rfl, hfront, hback⟩ := hboth.exists_append
  exact ⟨front ++ (first' ++ back), hfront.append (hone.append hback), hrest.insert hfirst⟩

/-- Shuffled selections expand to the same fields in another order, with the selections below them
shuffled. -/
theorem exists_shuffled {moved : Nat → Nat} {fragments : Fragments}
    (hfragments : request.fragments.Shuffle moved fragments) {selections shuffled : List Selection}
    {occs : List Occurrence} (h : request.Expands root conditions selections occs)
    (hshuffles : Shuffles moved selections shuffled) :
    ∃ others, (request.spreading fragments).Expands root conditions shuffled others
      ∧ Reordered (Occurrence.Like (Field.Shuffles moved)) occs others := by
  induction h generalizing shuffled with
  | nil =>
    cases hshuffles
    exact ⟨[], .nil, .nil⟩
  | excluded hout _ ih =>
    obtain ⟨_, before, after, rfl, hdirectives, hrest⟩ := hshuffles.exists_of_cons
    obtain ⟨others, hboth, hothers⟩ := ih hrest
    rw [← hdirectives] at hout
    exact hboth.exists_insert hothers (.excluded hout .nil) .nil
  | pruned hleft _ ih =>
    obtain ⟨_, before, after, rfl, -, hrest⟩ := hshuffles.exists_of_cons
    obtain ⟨others, hboth, hothers⟩ := ih hrest
    exact hboth.exists_insert hothers (.pruned hleft .nil) .nil
  | @field conditions field _ _ hin hleft _ ih =>
    cases hshuffles with
    | @field _ other _ _ _ hplace hhead hdirectives hbelow hrest =>
      obtain ⟨others, hboth, hothers⟩ := ih hrest
      rw [← hdirectives] at hin
      have hlike : Occurrence.Like (Field.Shuffles moved)
          ⟨field, request.left root conditions⟩ ⟨other, request.left root conditions⟩ :=
        ⟨rfl, hplace, hhead, hdirectives, hbelow⟩
      exact hboth.exists_insert hothers (.field hin hleft .nil) (.singleton hlike)
  | inline hin _ _ ihinner ihrest =>
    cases hshuffles with
    | inline _ hinner hrest =>
      obtain ⟨first, hfirst, hlike⟩ := ihinner hinner
      obtain ⟨others, hboth, hothers⟩ := ihrest hrest
      exact hboth.exists_insert hothers (List.append_nil first ▸ .inline hin hfirst .nil) hlike
  | spread hin hget hfragment _ _ ihinner ihrest =>
    cases hshuffles with
    | spread _ hrest =>
      obtain ⟨other, hother, hshuffled⟩ := hfragments.exists_get? hget
      obtain ⟨first, hfirst, hlike⟩ := ihinner hshuffled.selections
      obtain ⟨others, hboth, hothers⟩ := ihrest hrest
      rw [← hshuffled.directives] at hfragment
      rw [← hshuffled.condition] at hfirst
      exact hboth.exists_insert hothers
        (List.append_nil first ▸ .spread hin hother hfragment hfirst .nil) hlike
  | fragmentExcluded hget hfragment _ ih =>
    cases hshuffles with
    | spread _ hrest =>
      obtain ⟨other, hother, hshuffled⟩ := hfragments.exists_get? hget
      obtain ⟨others, hboth, hothers⟩ := ih hrest
      rw [← hshuffled.directives] at hfragment
      exact hboth.exists_insert hothers (.fragmentExcluded hother hfragment .nil) .nil

/-- The expansions of shuffled selections are the same fields in another order. -/
theorem reordered {moved : Nat → Nat} {fragments : Fragments}
    (hfragments : request.fragments.Shuffle moved fragments) {selections shuffled : List Selection}
    {occs others : List Occurrence} (h : request.Expands root conditions selections occs)
    (hshuffles : Shuffles moved selections shuffled)
    (h' : (request.spreading fragments).Expands root conditions shuffled others) :
    Reordered (Occurrence.Like (Field.Shuffles moved)) occs others := by
  obtain ⟨others', hexp, hothers⟩ := h.exists_shuffled hfragments hshuffles
  obtain rfl := hexp.unique h'
  exact hothers

end Request.Expands

/-! ## Forests -/

namespace Operation

variable {operation other : Operation} {schema : Schema} {options : Options}
  {fragments others : Fragments} {bindings : Members} {sources : Option TracedInputs}
  {moved : Nat → Nat} {forest shuffled : Forest}

theorem hasUniqueNames_shuffled (hselections : Shuffles moved operation.selections other.selections)
    (hfragments : fragments.Shuffle moved others)
    (hnames : operation.hasUniqueNames fragments = true) : other.hasUniqueNames others = true := by
  obtain ⟨hoperation, hbelow⟩ := hasUniqueNames_iff.1 hnames
  exact hasUniqueNames_iff.2
    ⟨hselections.haveUniqueNames hoperation, hfragments.haveUniqueNames hbelow⟩

/-- Shuffled operations come to the same fields in another order. -/
theorem reorders_shuffled (hroot : other.rootType = operation.rootType)
    (hselections : Shuffles moved operation.selections other.selections)
    (hfragments : fragments.Shuffle moved others) :
    Request.Reorders ⟨schema, fragments, bindings, sources⟩ operation
      ⟨schema, others, bindings, sources⟩ other (Field.Shuffles moved) where
  schema := rfl
  rootType := hroot
  head hfield := hfield.head
  top hexp hexp' := hexp.reordered hfragments hselections hexp'
  below hfield _ _ _ hexp hexp' := hexp.reordered hfragments hfield.selections hexp'

theorem forestWith_isForestOf (hnames : operation.hasUniqueNames fragments = true)
    (h : operation.forestWith schema options fragments bindings sources = .ok forest) :
    forest.IsForestOf ⟨schema, fragments, bindings, sources⟩ operation := by
  obtain ⟨trees, htrees, rfl⟩ := Operation.forestWith_eq_ok.1 h
  exact ⟨hnames, Request.grow_isWellFormed htrees, Request.grow_collects htrees,
    Request.grow_isMerged htrees hnames⟩

/-- If an operation and its fragments write no argument, and no key of an object literal, twice,
then their selections can be written in any other order: if there is a forest of both, the nodes of
one can be numbered as those of the other, so that they have the same parents, response keys, fields,
types, depths and object types, and like arguments, and the same fields are merged into them, in
whatever order. -/
theorem forestWith_shuffles (hnames : operation.hasUniqueNames fragments = true)
    (hroot : other.rootType = operation.rootType)
    (hselections : Shuffles moved operation.selections other.selections)
    (hfragments : fragments.Shuffle moved others)
    (h : operation.forestWith schema options fragments bindings sources = .ok forest)
    (h' : other.forestWith schema options others bindings sources = .ok shuffled) :
    ∃ number, forest.IsReordering shuffled (Field.Shuffles moved) number := by
  have hnames' := hasUniqueNames_shuffled hselections hfragments hnames
  exact (reorders_shuffled hroot hselections hfragments).exists_reordering
    (forestWith_isForestOf hnames h) (forestWith_isForestOf hnames' h')

end Operation

/-! ## A sample

The selections for the two objects of an interface change places, and so do the fields of the
fragment that both spread. -/

namespace Shuffling

/-- `{ node { ... on B { child { ...ofThing } } ... on A { child { ...ofThing } } } }` -/
def operation : Operation :=
  ⟨none, "Query", [], [.field (Sample.plain 0 "node" [
    .inline "B" [] [.field (Sample.plain 3 "child" [.spread "ofThing" []])],
    .inline "A" [] [.field (Sample.plain 1 "child" [.spread "ofThing" []])]])]⟩

/-- `fragment ofThing on Thing { y x }` -/
def ofThing : Fragment := ⟨"ofThing", "Thing", [], [.field Sample.y, .field Sample.x]⟩

theorem shuffles : Shuffles id Copying.operation.selections operation.selections :=
  .field [] rfl ⟨rfl, rfl, rfl⟩ rfl (.of_perm (.swap ..)) .nil

theorem shuffle : Fragments.Shuffle id [Copying.ofThing] [ofThing] :=
  .cons ⟨rfl, rfl, rfl, .of_perm (.swap ..)⟩ .nil

/-- In either order the forest has four nodes, with other numbers for `x` and `y`. -/
theorem shuffled_forest :
    ∃ forest shuffled number,
      Copying.operation.forestWith Sample.schema {} [Copying.ofThing] [] none = .ok forest
      ∧ operation.forestWith Sample.schema {} [ofThing] [] none = .ok shuffled
      ∧ forest.size = 4 ∧ forest.IsReordering shuffled (Field.Shuffles id) number := by
  have hnames : Copying.operation.hasUniqueNames [Copying.ofThing] = true := by decide
  obtain ⟨forest, hforest, hsize⟩ : ∃ forest,
      Copying.operation.forestWith Sample.schema {} [Copying.ofThing] [] none = .ok forest
        ∧ forest.size = 4 := ⟨_, rfl, rfl⟩
  obtain ⟨shuffled, hshuffled⟩ : ∃ shuffled,
      operation.forestWith Sample.schema {} [ofThing] [] none = .ok shuffled := ⟨_, rfl⟩
  have hroot : operation.rootType = Copying.operation.rootType := rfl
  obtain ⟨number, hnumber⟩ :=
    Operation.forestWith_shuffles hnames hroot shuffles shuffle hforest hshuffled
  exact ⟨forest, shuffled, number, hforest, hshuffled, hsize, hnumber⟩

end Shuffling

end SelectionForest
