import SelectionForest.Proofs.Forest.Mirroring
import SelectionForest.Proofs.Forest.Siblings

/-!
# Copies of selections

A copy of a selection has the same content, and places of its own (`SameContent`). It may be put in
anywhere behind the selection, at any depth of an operation or of a fragment
(`Operation.InsertsCopy`). If no argument is written twice, nor a key of an object literal, this
leaves the nodes of the forest as they are, and only adds to the merged fields and to the index by
places (`forestWith_insertsCopy`).

The steps of a walk come to all that they came to, and to copies of what stands before
(`Repeats.steps`). Below a field and its copy walks have the same steps (`SameContent.steps`), so
that what is put in at one level is put in at all levels below.
-/

namespace SelectionForest

/-! ## Copies -/

/-- Whether selections are the same, but for the places of their fields. -/
inductive SameContent : List Selection → List Selection → Prop
  | nil : SameContent [] []
  | field {field other : Field} {rest rest' : List Selection} (hhead : field.SameHead other)
      (hdirectives : other.directives = field.directives)
      (hbelow : SameContent field.selections other.selections) (hrest : SameContent rest rest') :
      SameContent (.field field :: rest) (.field other :: rest')
  | inline {condition : Option Name} {directives : List Directive}
      {inner inner' rest rest' : List Selection} (hinner : SameContent inner inner')
      (hrest : SameContent rest rest') :
      SameContent (.inline condition directives inner :: rest)
        (.inline condition directives inner' :: rest')
  | spread {name : Name} {directives : List Directive} {rest rest' : List Selection}
      (hrest : SameContent rest rest') :
      SameContent (.spread name directives :: rest) (.spread name directives :: rest')

theorem SameContent.refl : ∀ (selections : List Selection), SameContent selections selections
  | [] => .nil
  | .field ⟨_, _, _, _, _, selections⟩ :: rest =>
    .field ⟨rfl, rfl, rfl⟩ rfl (refl selections) (refl rest)
  | .inline _ _ selections :: rest => .inline (refl selections) (refl rest)
  | .spread _ _ :: rest => .spread (refl rest)

/-- Whether a copy of a selection is put in somewhere behind it, at any depth. -/
inductive InsertsCopy : List Selection → List Selection → Prop
  | here {before middle after : List Selection} {selection copy : Selection}
      (hcopy : SameContent [selection] [copy]) :
      InsertsCopy (before ++ selection :: middle ++ after)
        (before ++ selection :: middle ++ copy :: after)
  | field {before after selections : List Selection} {field : Field}
      (hbelow : InsertsCopy field.selections selections) :
      InsertsCopy (before ++ .field field :: after)
        (before ++ .field { field with selections } :: after)
  | inline {before after inner inner' : List Selection} {condition : Option Name}
      {directives : List Directive} (hinner : InsertsCopy inner inner') :
      InsertsCopy (before ++ .inline condition directives inner :: after)
        (before ++ .inline condition directives inner' :: after)

/-- Whether a copy of a selection is put in somewhere behind it, in an operation or in one of its
fragments. -/
inductive Operation.InsertsCopy :
    Operation → Fragments → Operation → Fragments → Prop
  | inOperation {operation : Operation} {fragments : Fragments} {selections : List Selection}
      (h : SelectionForest.InsertsCopy operation.selections selections) :
      Operation.InsertsCopy operation fragments { operation with selections } fragments
  | inFragment {operation : Operation} {before after : Fragments} {fragment : Fragment}
      {selections : List Selection}
      (h : SelectionForest.InsertsCopy fragment.selections selections) :
      Operation.InsertsCopy operation (before ++ fragment :: after)
        operation (before ++ { fragment with selections } :: after)

/-! ## Copies put in anywhere -/

/-- Whether selections are others with copies of what stands before, any number of them at any
depth. They are built from the front, since a copy may stand far behind what it copies. -/
inductive Repeats : List Selection → List Selection → Prop
  | nil : Repeats [] []
  | field {selections others : List Selection} {field other : Field}
      (h : Repeats selections others) (hplace : other.place = field.place)
      (hhead : field.SameHead other) (hdirectives : other.directives = field.directives)
      (hbelow : Repeats field.selections other.selections) :
      Repeats (selections ++ [.field field]) (others ++ [.field other])
  | inline {selections others inner inner' : List Selection} {condition : Option Name}
      {directives : List Directive} (h : Repeats selections others)
      (hinner : Repeats inner inner') :
      Repeats (selections ++ [.inline condition directives inner])
        (others ++ [.inline condition directives inner'])
  | spread {selections others : List Selection} {name : Name} {directives : List Directive}
      (h : Repeats selections others) :
      Repeats (selections ++ [.spread name directives]) (others ++ [.spread name directives])
  | copy {selections others : List Selection} {selection copy : Selection}
      (h : Repeats selections others) (hmem : selection ∈ others)
      (hcopy : SameContent [selection] [copy]) : Repeats selections (others ++ [copy])

namespace Repeats

variable {selections others more more' : List Selection}

theorem append (h : Repeats selections others) (hmore : Repeats more more') :
    Repeats (selections ++ more) (others ++ more') := by
  induction hmore with
  | nil =>
    rw [List.append_nil, List.append_nil]
    exact h
  | field _ hplace hhead hdirectives hbelow ih =>
    rw [← List.append_assoc, ← List.append_assoc]
    exact .field ih hplace hhead hdirectives hbelow
  | inline _ hinner ih =>
    rw [← List.append_assoc, ← List.append_assoc]
    exact .inline ih hinner
  | spread _ ih =>
    rw [← List.append_assoc, ← List.append_assoc]
    exact .spread ih
  | copy _ hmem hcopy ih =>
    rw [← List.append_assoc]
    exact .copy ih (List.mem_append_right _ hmem) hcopy

mutual

theorem refl_selection : ∀ (selection : Selection), Repeats [selection] [selection]
  | .field ⟨_, _, _, _, _, selections⟩ => .field .nil rfl ⟨rfl, rfl, rfl⟩ rfl (refl selections)
  | .inline _ _ selections => .inline .nil (refl selections)
  | .spread _ _ => .spread .nil

/-- No copy need be put in. -/
theorem refl : ∀ (selections : List Selection), Repeats selections selections
  | [] => .nil
  | selection :: selections => (refl_selection selection).append (refl selections)

end

/-- What is put in below one selection. -/
theorem between {selection other : Selection} (h : Repeats [selection] [other])
    (before after : List Selection) :
    Repeats (before ++ selection :: after) (before ++ other :: after) :=
  (refl before).append (h.append (refl after))

theorem of_insertsCopy (h : InsertsCopy selections others) : Repeats selections others := by
  induction h with
  | @here before middle after selection copy hcopy =>
    have hput : Repeats (before ++ selection :: middle) (before ++ selection :: middle ++ [copy]) :=
      .copy (refl _) (List.mem_append_right _ List.mem_cons_self) hcopy
    rw [List.append_cons _ copy]
    exact hput.append (refl after)
  | @field before after selections field _ ih =>
    have hfield : Repeats [.field field] [.field { field with selections }] :=
      .field .nil rfl ⟨rfl, rfl, rfl⟩ rfl ih
    exact hfield.between before after
  | inline _ ih => exact between (.inline .nil ih) _ _

end Repeats

/-- Whether a field is another one with copies put in below it. -/
structure Field.Repeats (field other : Field) : Prop where
  place : other.place = field.place
  head : field.SameHead other
  directives : other.directives = field.directives
  selections : SelectionForest.Repeats field.selections other.selections

/-- Whether a field is a copy of another one, in a place of its own. -/
structure Field.Copies (field copy : Field) : Prop where
  head : field.SameHead copy
  directives : copy.directives = field.directives
  selections : SameContent field.selections copy.selections

/-- Whether a fragment is another one with copies put in. -/
structure Fragment.Repeats (fragment other : Fragment) : Prop where
  name : other.name = fragment.name
  condition : other.condition = fragment.condition
  directives : other.directives = fragment.directives
  selections : SelectionForest.Repeats fragment.selections other.selections

theorem Fragment.Repeats.refl (fragment : Fragment) : fragment.Repeats fragment :=
  ⟨rfl, rfl, rfl, .refl _⟩

/-- Whether fragments are others with copies put in. -/
def Fragments.Repeat (fragments others : Fragments) : Prop :=
  List.Forall₂ Fragment.Repeats fragments others

/-- Where a copy is put in, the operation and the fragments repeat what they were. -/
theorem Operation.InsertsCopy.repeats {operation other : Operation} {fragments others : Fragments}
    (h : operation.InsertsCopy fragments other others) :
    other.rootType = operation.rootType ∧ Repeats operation.selections other.selections
      ∧ fragments.Repeat others := by
  cases h with
  | inOperation h =>
    exact ⟨rfl, .of_insertsCopy h, List.forall₂_same.2 fun _ _ => .refl _⟩
  | @inFragment before after fragment selections h =>
    have hfragment : fragment.Repeats { fragment with selections } :=
      ⟨rfl, rfl, rfl, .of_insertsCopy h⟩
    refine ⟨rfl, .refl _, List.rel_append ?_ (.cons hfragment ?_)⟩
    · exact List.forall₂_same.2 fun _ _ => .refl _
    · exact List.forall₂_same.2 fun _ _ => .refl _

/-! ## What is spread and written -/

/-- Whether no field has an argument written twice, nor a key of an object literal. -/
def HaveUniqueNames (fields : List Field) : Prop :=
  ∀ field ∈ fields, haveUniqueNames field.arguments

theorem HaveUniqueNames.append {fields others : List Field} :
    HaveUniqueNames (fields ++ others) ↔ HaveUniqueNames fields ∧ HaveUniqueNames others :=
  List.forall_mem_append

theorem HaveUniqueNames.cons {field : Field} {fields : List Field} :
    HaveUniqueNames (field :: fields)
      ↔ haveUniqueNames field.arguments ∧ HaveUniqueNames fields :=
  List.forall_mem_cons

/-- What comes of one entry comes of the whole list. -/
theorem subset_of_mem {α β : Type} {f : List α → List β}
    (hf : ∀ xs ys, f (xs ++ ys) = f xs ++ f ys) {x : α} {xs : List α} (hx : x ∈ xs) :
    f [x] ⊆ f xs := by
  obtain ⟨before, after, rfl⟩ := List.append_of_mem hx
  rw [List.append_cons, hf, hf]
  exact List.subset_append_of_subset_left _ (List.subset_append_right _ _)

section Written

variable {selections others : List Selection}

theorem SameContent.spreadsOf_eq (h : SameContent selections others) :
    spreadsOf others = spreadsOf selections := by
  induction h with
  | nil => rfl
  | field _ _ _ _ ihbelow ihrest => rw [spreadsOf_field, spreadsOf_field, ihbelow, ihrest]
  | inline _ _ ihinner ihrest =>
    rw [spreadsOf, spreadsOf, Selection.spreads, Selection.spreads, ihinner, ihrest]
  | spread _ ihrest =>
    rw [spreadsOf, spreadsOf, ihrest]

theorem SameContent.haveUniqueNames (h : SameContent selections others)
    (hnames : HaveUniqueNames (fieldsOf selections)) : HaveUniqueNames (fieldsOf others) := by
  induction h with
  | nil => exact hnames
  | field hhead _ _ _ ihbelow ihrest =>
    rw [fieldsOf_field, HaveUniqueNames.append, HaveUniqueNames.cons] at hnames ⊢
    rw [hhead.arguments]
    exact ⟨⟨hnames.1.1, ihbelow hnames.1.2⟩, ihrest hnames.2⟩
  | inline _ _ ihinner ihrest =>
    rw [fieldsOf, HaveUniqueNames.append] at hnames ⊢
    exact ⟨ihinner hnames.1, ihrest hnames.2⟩
  | spread _ ihrest => exact ihrest hnames

namespace Repeats

/-- What holds of all that is spread still holds of it with copies put in. -/
theorem forall_spreads {P : Name → Prop} (h : Repeats selections others)
    (hP : ∀ name ∈ spreadsOf selections, P name) : ∀ name ∈ spreadsOf others, P name := by
  induction h with
  | nil => exact hP
  | field _ _ _ _ _ ih ihbelow =>
    rw [spreadsOf_append, List.forall_mem_append, spreadsOf_field, spreadsOf, List.append_nil]
      at hP ⊢
    exact ⟨ih hP.1, ihbelow hP.2⟩
  | inline _ _ ih ihinner =>
    rw [spreadsOf_append, List.forall_mem_append, spreadsOf, spreadsOf, List.append_nil] at hP ⊢
    exact ⟨ih hP.1, ihinner hP.2⟩
  | spread _ ih =>
    rw [spreadsOf_append, List.forall_mem_append] at hP ⊢
    exact ⟨ih hP.1, hP.2⟩
  | copy _ hmem hcopy ih =>
    rw [spreadsOf_append, List.forall_mem_append, hcopy.spreadsOf_eq]
    exact ⟨ih hP, fun name hname => ih hP name (subset_of_mem spreadsOf_append hmem hname)⟩

theorem haveUniqueNames (h : Repeats selections others)
    (hnames : HaveUniqueNames (fieldsOf selections)) : HaveUniqueNames (fieldsOf others) := by
  induction h with
  | nil => exact hnames
  | field _ _ hhead _ _ ih ihbelow =>
    rw [fieldsOf_append, HaveUniqueNames.append, fieldsOf_field, fieldsOf, List.append_nil,
      HaveUniqueNames.cons] at hnames ⊢
    rw [hhead.arguments]
    exact ⟨ih hnames.1, hnames.2.1, ihbelow hnames.2.2⟩
  | inline _ _ ih ihinner =>
    rw [fieldsOf_append, HaveUniqueNames.append, fieldsOf, fieldsOf, List.append_nil] at hnames ⊢
    exact ⟨ih hnames.1, ihinner hnames.2⟩
  | spread _ ih =>
    rw [fieldsOf_append, HaveUniqueNames.append] at hnames ⊢
    exact ⟨ih hnames.1, hnames.2⟩
  | copy _ hmem hcopy ih =>
    rw [fieldsOf_append, HaveUniqueNames.append]
    exact ⟨ih hnames, hcopy.haveUniqueNames fun field hfield =>
      ih hnames field (subset_of_mem fieldsOf_append hmem hfield)⟩

end Repeats

end Written

namespace Fragments

variable {fragments others : Fragments}

/-- Fragments that stand in place of others of the same names are looked up as they are. -/
theorem get?_rel {R : Fragment → Fragment → Prop}
    (hname : ∀ {fragment other}, R fragment other → other.name = fragment.name)
    (h : List.Forall₂ R fragments others) (name : Name) :
    Option.Rel R (fragments.get? name) (others.get? name) := by
  induction h with
  | nil => exact .none
  | @cons fragment other fragments others hfragment _ ih =>
    rw [Fragments.get?, Fragments.get?, List.find?_cons, List.find?_cons, hname hfragment]
    cases decide (fragment.name = name) with
    | true => exact .some hfragment
    | false => exact ih

theorem Repeat.get? (h : fragments.Repeat others) (name : Name) :
    Option.Rel Fragment.Repeats (fragments.get? name) (others.get? name) :=
  get?_rel (fun hfragment => hfragment.name) h name

theorem Repeat.areAcyclic (h : fragments.Repeat others) (hacyclic : fragments.AreAcyclic) :
    others.AreAcyclic := by
  refine hacyclic.of_spreads fun name other ⟨repeated, hget, hother⟩ => ?_
  have hrel := h.get? name
  rw [hget] at hrel
  generalize hfragment : fragments.get? name = found at hrel
  cases hrel with
  | @some fragment _ hrepeats =>
    exact hrepeats.selections.forall_spreads
      (fun inner hinner => ⟨fragment, hfragment, hinner⟩) other hother

/-- Whether no field of a fragment has an argument written twice, nor a key of an object literal. -/
def HaveUniqueNames (fragments : Fragments) : Prop :=
  ∀ fragment ∈ fragments, SelectionForest.HaveUniqueNames (fieldsOf fragment.selections)

theorem Repeat.haveUniqueNames (h : fragments.Repeat others) (hnames : fragments.HaveUniqueNames) :
    others.HaveUniqueNames := fun other hother => by
  obtain ⟨fragment, hfragment, hrepeats⟩ := exists_left h hother
  exact hrepeats.selections.haveUniqueNames (hnames fragment hfragment)

end Fragments

/-! ## Steps -/

/-- Fields stand in place of those that they repeat, between copies. -/
def Pairing.repeating : Pairing where
  matched field other := field.Repeats other ∧ HaveUniqueNames (fieldsOf field.selections)
  copied field copy :=
    field.Copies copy ∧ HaveUniqueNames (field :: fieldsOf field.selections)
  matched_head h := h.1.head
  copied_head h := h.1.head
  copied_like h := areLike_refl (h.2 _ List.mem_cons_self)

section Steps

variable {request : Request} {others : Fragments} {enter enter' : Name → TypeSet → List Step}
  {xs ys : List Selection}

/-- Copies have copies of the steps. -/
theorem SameContent.steps (h : SameContent xs ys) (hnames : HaveUniqueNames (fieldsOf xs))
    (henter : ∀ name types,
      Pairing.repeating.CopiedSteps (enter name types) (enter name types)) (types : TypeSet) :
    Pairing.repeating.CopiedSteps (request.stepsOf enter xs types)
      (request.stepsOf enter ys types) := by
  induction h generalizing types with
  | nil => exact .nil
  | @field field other rest rest' hhead hdirectives hbelow _ _ ihrest =>
    rw [fieldsOf_field, HaveUniqueNames.append] at hnames
    have hcopied : Pairing.repeating.copied field other :=
      ⟨⟨hhead, hdirectives, hbelow⟩, hnames.1⟩
    rw [Request.stepsOf, Request.stepsOf, Request.stepsOfSelection, Request.stepsOfSelection,
      hdirectives]
    refine List.rel_append ?_ (ihrest hnames.2 types)
    exact Pairing.CopiedSteps.under (Pairing.CopiedSteps.visit hcopied) types
  | inline _ _ ihinner ihrest =>
    rw [fieldsOf, HaveUniqueNames.append] at hnames
    rw [Request.stepsOf, Request.stepsOf, Request.stepsOfSelection, Request.stepsOfSelection]
    refine List.rel_append ?_ (ihrest hnames.2 types)
    exact Pairing.CopiedSteps.under (ihinner hnames.1) types
  | spread _ ihrest =>
    rw [Request.stepsOf, Request.stepsOf, Request.stepsOfSelection]
    refine List.rel_append ?_ (ihrest hnames types)
    refine Request.stepsAfter_rel (Pairing.CopiedSteps.error _) _ fun included => ?_
    cases included with
    | false => exact .nil
    | true => exact henter _ types

/-- A walk through a fragment copies itself. -/
theorem Request.enterSteps_copied (hnames : request.fragments.HaveUniqueNames) (nesting : Nat)
    (name : Name) (types : TypeSet) :
    Pairing.repeating.CopiedSteps (request.enterSteps nesting name types)
      (request.enterSteps nesting name types) := by
  induction nesting generalizing name types with
  | zero => exact Pairing.CopiedSteps.error _ _
  | succ nesting ih =>
    rw [enterSteps]
    cases hget : request.fragments.get? name with
    | none => exact Pairing.CopiedSteps.error _ _
    | some fragment =>
      have hfragment := hnames fragment (List.mem_of_find?_eq_some hget)
      exact Pairing.CopiedSteps.under
        ((SameContent.refl fragment.selections).steps hfragment ih) types

/-- With copies put in, a walk comes to all that it came to, and to copies of what stands before. -/
theorem Repeats.steps (h : Repeats xs ys) (hnames : HaveUniqueNames (fieldsOf xs))
    (henter : ∀ name types, Pairing.repeating.Steps (enter name types) (enter' name types))
    (hcopied : ∀ name types,
      Pairing.repeating.CopiedSteps (enter' name types) (enter' name types)) (types : TypeSet) :
    Pairing.repeating.Steps (request.stepsOf enter xs types)
      ((request.spreading others).stepsOf enter' ys types) := by
  induction h generalizing types with
  | nil => exact .nil
  | @field _ _ field other _ hplace hhead hdirectives hbelow ih _ =>
    rw [fieldsOf_append, HaveUniqueNames.append, fieldsOf_field, fieldsOf, List.append_nil,
      HaveUniqueNames.cons] at hnames
    have hmatched : Pairing.repeating.matched field other :=
      ⟨⟨hplace, hhead, hdirectives, hbelow⟩, hnames.2.2⟩
    rw [Request.stepsOf_concat, Request.stepsOf_concat, Request.stepsOfSelection,
      Request.stepsOfSelection, hdirectives]
    refine Padded.append (ih hnames.1 types) ?_
    exact Pairing.Steps.under (Pairing.Steps.visit hmatched) types
  | inline _ _ ih ihinner =>
    rw [fieldsOf_append, HaveUniqueNames.append, fieldsOf, fieldsOf, List.append_nil] at hnames
    rw [Request.stepsOf_concat, Request.stepsOf_concat, Request.stepsOfSelection,
      Request.stepsOfSelection]
    refine Padded.append (ih hnames.1 types) ?_
    exact Pairing.Steps.under (ihinner hnames.2) types
  | @spread _ _ name directives _ ih =>
    rw [fieldsOf_append, HaveUniqueNames.append] at hnames
    rw [Request.stepsOf_concat, Request.stepsOf_concat, Request.stepsOfSelection,
      Request.stepsOfSelection]
    refine Padded.append (ih hnames.1 types) ?_
    refine Request.stepsAfter_rel (Pairing.Steps.error _) _ fun included => ?_
    cases included with
    | false => exact .nil
    | true => exact henter name types
  | @copy _ ys selection copy h hmem hcopy ih =>
    have hselection : HaveUniqueNames (fieldsOf [selection]) := fun field hfield =>
      h.haveUniqueNames hnames field (subset_of_mem fieldsOf_append hmem hfield)
    rw [Request.stepsOf_append]
    -- What the copy comes to copies steps of the selection, and those are there already.
    have hthere := subset_of_mem (f := fun xs => (request.spreading others).stepsOf enter' xs types)
      (fun xs ys => Request.stepsOf_append xs ys types) hmem
    exact (ih hnames types).copies (hcopy.steps hselection hcopied types) fun _ hstep =>
      hthere hstep

namespace Request

/-- With copies put in, a walk through a fragment comes to all that it came to, and to copies. -/
theorem enterSteps_repeats (hnames : request.fragments.HaveUniqueNames)
    (hfragments : request.fragments.Repeat others) (nesting : Nat) (name : Name)
    (types : TypeSet) :
    Pairing.repeating.Steps (request.enterSteps nesting name types)
      ((request.spreading others).enterSteps nesting name types) := by
  induction nesting generalizing name types with
  | zero => exact Pairing.Steps.error _ _
  | succ nesting ih =>
    have hget := hfragments.get? name
    have hothers : (request.spreading others).fragments.HaveUniqueNames :=
      hfragments.haveUniqueNames hnames
    rw [enterSteps, enterSteps, fragments_spreading]
    generalize hfound : request.fragments.get? name = found at hget ⊢
    generalize others.get? name = found' at hget ⊢
    cases hget with
    | none => exact Pairing.Steps.error _ _
    | @some fragment other hrepeats =>
      have hfragment := hnames fragment (List.mem_of_find?_eq_some hfound)
      dsimp only
      rw [hrepeats.condition, hrepeats.directives]
      exact Pairing.Steps.under
        (hrepeats.selections.steps hfragment ih (enterSteps_copied hothers nesting)) types

variable (hnames : request.fragments.HaveUniqueNames)
  (hfragments : request.fragments.Repeat others)

include hnames hfragments

theorem steps_repeats (h : Repeats xs ys) (hselections : HaveUniqueNames (fieldsOf xs))
    (types : TypeSet) :
    Pairing.repeating.Steps (request.steps types xs) ((request.spreading others).steps types ys) := by
  rw [steps, steps, nestingBound_spreading (List.Forall₂.length_eq hfragments).symm]
  refine h.steps hselections (enterSteps_repeats hnames hfragments _) ?_ types
  exact enterSteps_copied (hfragments.haveUniqueNames hnames) _

theorem mirrors_repeats : request.Mirrors Pairing.repeating others where
  matched h := steps_repeats hnames hfragments h.1.selections h.2
  copied h types := by
    have hothers : (request.spreading others).fragments.HaveUniqueNames :=
      hfragments.haveUniqueNames hnames
    exact h.1.selections.steps (HaveUniqueNames.cons.1 h.2).2 (enterSteps_copied hothers _) types

end Request

end Steps

/-! ## Forests -/

/-- Whether a forest has the nodes of another one, and copies among the merged fields. -/
structure Forest.Repeats (forest other : Forest) : Prop
    extends Forest.HasNodesOf forest other where
  merged : List.Forall₂
    (fun bundle bundle' => Padded Field.Repeats Field.Copies bundle.fields bundle'.fields)
    forest.merged other.merged
  /-- The nodes that a place is merged into are still among those of the place, in their order. -/
  byPlace : ∀ place, (forest.byPlace.getAll place).Sublist (other.byPlace.getAll place)

theorem Forest.Mirrors.repeats {forest other : Forest}
    (h : forest.Mirrors Pairing.repeating other) : forest.Repeats other where
  toHasNodesOf := h.toHasNodesOf
  merged := h.merged.imp fun _ _ hfields => hfields.imp (fun _ _ hmatched => hmatched.1)
    fun _ _ hcopied => hcopied.1
  byPlace := h.byPlace fun hmatched => hmatched.1.place

namespace Operation

variable {operation other : Operation} {schema : Schema} {options : Options}
  {fragments others : Fragments} {bindings : Members} {sources : Option TracedInputs}

theorem hasUniqueNames_iff : operation.hasUniqueNames fragments = true
    ↔ HaveUniqueNames (fieldsOf operation.selections) ∧ fragments.HaveUniqueNames := by
  rw [hasUniqueNames, List.all_eq_true, List.forall_mem_append]
  exact and_congr_right fun _ => List.forall_mem_flatMap

/-- Copies put in anywhere, in any number, leave the nodes of the forest as they are. -/
theorem forestWith_repeats (hacyclic : fragments.AreAcyclic)
    (hnames : operation.hasUniqueNames fragments = true)
    (hroot : other.rootType = operation.rootType)
    (hselections : Repeats operation.selections other.selections)
    (hfragments : fragments.Repeat others) :
    Agree Forest.Repeats (operation.forestWith schema options fragments bindings sources)
      (other.forestWith schema options others bindings sources) := by
  obtain ⟨hoperation, hbelow⟩ := hasUniqueNames_iff.1 hnames
  let request : Request := ⟨schema, fragments, bindings, sources⟩
  have hmirrors : request.Mirrors Pairing.repeating others :=
    Request.mirrors_repeats hbelow hfragments
  have hsteps (types : TypeSet) : Pairing.repeating.Steps
      (request.steps types operation.selections)
      ((request.spreading others).steps types other.selections) :=
    Request.steps_repeats hbelow hfragments hselections hoperation types
  have hagree : Agree (Forest.Mirrors Pairing.repeating)
      (operation.forestWith schema options fragments bindings sources)
      (other.forestWith schema options others bindings sources) :=
    forestWith_mirrors hmirrors hacyclic (hfragments.areAcyclic hacyclic) hroot hsteps
  exact hagree.imp fun _ _ hforests => hforests.repeats

/-- With acyclic fragments and unique names of arguments and of the keys of object literals, a copy
of a selection, put in anywhere behind it, leaves the nodes of the forest as they are, the roots and
the coordinates, and adds copies to the merged fields; or both operations are refused with the same
error. -/
theorem forestWith_insertsCopy (hacyclic : fragments.AreAcyclic)
    (hnames : operation.hasUniqueNames fragments = true)
    (h : operation.InsertsCopy fragments other others) :
    Agree Forest.Repeats (operation.forestWith schema options fragments bindings sources)
      (other.forestWith schema options others bindings sources) := by
  obtain ⟨hroot, hselections, hfragments⟩ := h.repeats
  exact forestWith_repeats hacyclic hnames hroot hselections hfragments

end Operation

/-! ## A sample

A fragment that is spread for two object types, with a copy of the first of its fields behind the
second one. -/

namespace Copying

/-- `fragment ofThing on Thing { x y }` -/
def ofThing : Fragment := ⟨"ofThing", "Thing", [], [.field Sample.x, .field Sample.y]⟩

/-- `fragment ofThing on Thing { x y x }` -/
def repeated : Fragment :=
  ⟨"ofThing", "Thing", [], [.field Sample.x, .field Sample.y, .field (Sample.plain 5 "x" [])]⟩

/-- `{ node { ... on A { child { ...ofThing } } ... on B { child { ...ofThing } } } }` -/
def operation : Operation :=
  ⟨none, "Query", [], [.field (Sample.plain 0 "node" [
    .inline "A" [] [.field (Sample.plain 1 "child" [.spread "ofThing" []])],
    .inline "B" [] [.field (Sample.plain 3 "child" [.spread "ofThing" []])]])]⟩

theorem insertsCopy : operation.InsertsCopy [ofThing] operation [repeated] := by
  have hcopy : SameContent [.field Sample.x] [.field (Sample.plain 5 "x" [])] :=
    .field ⟨rfl, rfl, rfl⟩ rfl .nil .nil
  have hput : InsertsCopy ([] ++ .field Sample.x :: [.field Sample.y] ++ [])
      ([] ++ .field Sample.x :: [.field Sample.y] ++ .field (Sample.plain 5 "x" []) :: []) :=
    .here hcopy
  have hinside : operation.InsertsCopy ([] ++ ofThing :: []) operation
      ([] ++ { ofThing with selections := repeated.selections } :: []) :=
    .inFragment hput
  exact hinside

theorem areAcyclic : Fragments.AreAcyclic [ofThing] :=
  .of_rank (fun _ => 0) (by decide +kernel)

/-- With the copy in the fragment, the forest still has its four nodes. -/
theorem copied_forest :
    ∃ forest other, operation.forestWith Sample.schema {} [ofThing] [] none = .ok forest
      ∧ operation.forestWith Sample.schema {} [repeated] [] none = .ok other
      ∧ forest.size = 4 ∧ forest.Repeats other := by
  have hnames : operation.hasUniqueNames [ofThing] = true := by decide
  have hagree : Agree Forest.Repeats (operation.forestWith Sample.schema {} [ofThing] [] none)
      (operation.forestWith Sample.schema {} [repeated] [] none) :=
    Operation.forestWith_insertsCopy areAcyclic hnames insertsCopy
  obtain ⟨forest, hforest, hsize⟩ : ∃ forest,
      operation.forestWith Sample.schema {} [ofThing] [] none = .ok forest ∧ forest.size = 4 :=
    ⟨_, rfl, rfl⟩
  obtain ⟨other, hother, hrepeats⟩ := hagree.exists_right hforest
  exact ⟨forest, other, hforest, hother, hsize, hrepeats⟩

end Copying

end SelectionForest
