import SelectionForest.Proofs.Forest.Relating
import SelectionForest.Proofs.Forest.ReturnTypes
import SelectionForest.Proofs.Level.Dividing
import SelectionForest.Proofs.Rewriting.Copies

/-!
# Fields that are split by their object types

A field that a walk comes to with several object types may be written once for each of them instead,
in inline fragments on these types (`Request.Splits`). If the field has one type on all of them, this
leaves the nodes of the forest as they are, the roots and the coordinates (`forestWith_splits`).

What the walk came to once it then comes to in parts (`Splits.steps`). At the level of the field the
parts are merged into one cluster (`visitSteps_divided`), and below it their selection sets copy each
other (`Request.steps_parts`). A field that the split stands below keeps its own cluster, and the
argument goes on one level further down; both cases are the relation `Request.Divided`.
-/

namespace SelectionForest

/-- Whether a field is replaced by inline fragments on its object types, in their order, each with a
copy of the field. The walk starts with the given object types; what encloses the field is let in,
and narrows them to those that the field is come to with. -/
inductive Request.Splits (request : Request) (field : Field) :
    TypeSet → List Selection → List Selection → Prop
  | here (before after : List Selection) {types : TypeSet} {parts : List Selection}
      (hincluded : isIncluded request.bindings field.directives = .ok true)
      (hreached : types.isEmpty = false)
      (hobjects : ∀ type ∈ types, request.schema.isObject type = true)
      (htype : Occurrence.HasOneType ⟨field, types⟩ request.schema)
      (hparts : List.Forall₂ (fun type part => ∃ copy, field.Copies copy
        ∧ part = Selection.inline (some type) [] [.field copy]) types.names parts) :
      Splits request field types (before ++ .field field :: after) (before ++ parts ++ after)
  | inline (before after : List Selection) {types left : TypeSet} {inner inner' : List Selection}
      {condition : Option Name} {directives : List Directive}
      (hincluded : isIncluded request.bindings directives = .ok true)
      (hreached : types.isEmpty = false) (hleft : request.narrow types condition = .ok left)
      (hinner : Splits request field left inner inner') :
      Splits request field types (before ++ .inline condition directives inner :: after)
        (before ++ .inline condition directives inner' :: after)
  | field (before after : List Selection) {types left : TypeSet} {selections : List Selection}
      {parent : Field} {type : TypeRef} (hincluded : isIncluded request.bindings parent.directives = .ok true)
      (hreached : types.isEmpty = false)
      (htype : request.schema.declaredType? ⟨parent, types⟩ = some type)
      (hleft : request.typesOf type.innerName = .ok left)
      (hbelow : Splits request field left parent.selections selections) :
      Splits request field types (before ++ .field parent :: after)
        (before ++ .field { parent with selections } :: after)

/-! ## Copies -/

theorem SameContent.symm {selections others : List Selection} (h : SameContent selections others) :
    SameContent others selections := by
  induction h with
  | nil => exact .nil
  | field hhead hdirectives _ _ ihbelow ihrest =>
    exact .field ⟨hhead.aliasName.symm, hhead.name.symm, hhead.arguments.symm⟩ hdirectives.symm
      ihbelow ihrest
  | inline _ _ ihinner ihrest => exact .inline ihinner ihrest
  | spread _ ihrest => exact .spread ihrest

theorem SameContent.trans {selections others third : List Selection}
    (h : SameContent selections others) (h' : SameContent others third) :
    SameContent selections third := by
  induction h generalizing third with
  | nil => exact h'
  | field hhead hdirectives _ _ ihbelow ihrest =>
    cases h' with
    | field hhead' hdirectives' hbelow' hrest' =>
      refine .field ⟨hhead'.aliasName.trans hhead.aliasName, hhead'.name.trans hhead.name,
        hhead'.arguments.trans hhead.arguments⟩ (hdirectives'.trans hdirectives) ?_ (ihrest hrest')
      exact ihbelow hbelow'
  | inline _ _ ihinner ihrest =>
    cases h' with
    | inline hinner' hrest' => exact .inline (ihinner hinner') (ihrest hrest')
  | spread _ ihrest =>
    cases h' with
    | spread hrest' => exact .spread (ihrest hrest')

theorem SameContent.length_fieldsOf {selections others : List Selection}
    (h : SameContent selections others) :
    (fieldsOf others).length = (fieldsOf selections).length := by
  induction h with
  | nil => rfl
  | field _ _ _ _ ihbelow ihrest =>
    rw [fieldsOf_field, fieldsOf_field, List.length_append, List.length_append, List.length_cons,
      List.length_cons, ihbelow, ihrest]
  | inline _ _ ihinner ihrest =>
    rw [fieldsOf, fieldsOf, Selection.fields, Selection.fields, List.length_append,
      List.length_append, ihinner, ihrest]
  | spread _ ihrest => exact ihrest

namespace Field.Copies

variable {field copy other : Field}

/-- Two copies of a field copy each other. -/
theorem of_both (h : field.Copies copy) (h' : field.Copies other) : copy.Copies other where
  head := ⟨h'.head.aliasName.trans h.head.aliasName.symm, h'.head.name.trans h.head.name.symm,
    h'.head.arguments.trans h.head.arguments.symm⟩
  directives := h'.directives.trans h.directives.symm
  selections := h.selections.symm.trans h'.selections

theorem haveUniqueNames (h : field.Copies copy)
    (hnames : HaveUniqueNames (field :: fieldsOf field.selections)) :
    HaveUniqueNames (copy :: fieldsOf copy.selections) := by
  rw [HaveUniqueNames.cons] at hnames ⊢
  rw [h.head.arguments]
  exact ⟨hnames.1, h.selections.haveUniqueNames hnames.2⟩

end Field.Copies

/-- Fields stand in place of themselves or of a field that they copy, with further copies. -/
def Pairing.dividing : Pairing where
  matched field other := other = field ∨ Pairing.repeating.copied field other
  copied := Pairing.repeating.copied
  matched_head h := by
    rcases h with rfl | hcopied
    · exact ⟨rfl, rfl, rfl⟩
    · exact Pairing.repeating.copied_head hcopied
  copied_head h := Pairing.repeating.copied_head h
  copied_like h := Pairing.repeating.copied_like h

theorem Pairing.dividing_refl (steps : List Step) : Pairing.dividing.Steps steps steps := by
  refine .of_forall₂ (List.forall₂_same.2 fun step _ => ?_)
  exact Agree.refl (fun _ => ⟨rfl, .inl rfl⟩) step

/-- Copies of a field stand together in its place. -/
theorem Pairing.dividing_copies {field first : Field} {more : List Field}
    (hnames : HaveUniqueNames (field :: fieldsOf field.selections))
    (hcopies : ∀ copy ∈ first :: more, field.Copies copy) :
    Pairing.dividing.Fields [field] (first :: more) := by
  obtain ⟨hfirst, hmore⟩ := List.forall_mem_cons.1 hcopies
  have hput : Pairing.dividing.Fields [field] [first] := .singleton (.inr ⟨hfirst, hnames⟩)
  have hcopied : List.Forall₂ Pairing.dividing.copied (more.map fun _ => first) more := by
    rw [List.forall₂_map_left_iff]
    exact List.forall₂_same.2 fun copy hcopy =>
      ⟨hfirst.of_both (hmore copy hcopy), hfirst.haveUniqueNames hnames⟩
  refine hput.copies hcopied fun copy hcopy => ?_
  obtain ⟨_, -, rfl⟩ := List.mem_map.1 hcopy
  exact List.mem_cons_self

/-- Copies of a field have copies of its steps below them. -/
theorem Request.mirrors_dividing {request : Request}
    (hnames : request.fragments.HaveUniqueNames) :
    request.Mirrors Pairing.dividing request.fragments := by
  have hcopied {field copy : Field} (h : Pairing.dividing.copied field copy) (types : TypeSet) :
      Pairing.dividing.CopiedSteps (request.steps types field.selections)
        (request.steps types copy.selections) :=
    h.1.selections.steps (HaveUniqueNames.cons.1 h.2).2 (enterSteps_copied hnames _) types
  refine ⟨fun {field other} h types => ?_, hcopied⟩
  rcases h with rfl | h
  · exact Pairing.dividing_refl _
  · refine .of_forall₂ ((hcopied h types).imp fun _ _ hstep => hstep.imp fun _ _ hocc => ?_)
    exact ⟨hocc.types, .inr hocc.field⟩

/-! ## What is written -/

namespace Request.Splits

variable {request : Request} {field : Field} {types : TypeSet} {xs ys : List Selection}

/-- A split below a longer list of selections. -/
theorem between (h : request.Splits field types xs ys) (before after : List Selection) :
    request.Splits field types (before ++ xs ++ after) (before ++ ys ++ after) := by
  cases h with
  | here before' after' hincluded hreached hobjects htype hparts =>
    have hsplit := Splits.here (before ++ before') (after' ++ after) hincluded hreached hobjects htype
      hparts
    simpa only [List.append_assoc, List.cons_append] using hsplit
  | inline before' after' hincluded hreached hleft hinner =>
    have hsplit := Splits.inline (before ++ before') (after' ++ after) hincluded hreached hleft hinner
    simpa only [List.append_assoc, List.cons_append] using hsplit
  | field before' after' hincluded hreached htype hleft hbelow =>
    have hsplit := Splits.field (before ++ before') (after' ++ after) hincluded hreached htype hleft
      hbelow
    simpa only [List.append_assoc, List.cons_append] using hsplit

theorem haveUniqueNames (h : request.Splits field types xs ys)
    (hnames : HaveUniqueNames (fieldsOf xs)) :
    HaveUniqueNames (field :: fieldsOf field.selections) := by
  induction h with
  | here =>
    rw [fieldsOf_append, fieldsOf_field, HaveUniqueNames.append, HaveUniqueNames.append] at hnames
    exact hnames.2.1
  | inline _ _ _ _ _ _ ih =>
    rw [fieldsOf_append, fieldsOf, HaveUniqueNames.append, HaveUniqueNames.append] at hnames
    exact ih hnames.2.1
  | field _ _ _ _ _ _ _ ih =>
    rw [fieldsOf_append, fieldsOf_field, HaveUniqueNames.append, HaveUniqueNames.append,
      HaveUniqueNames.cons] at hnames
    exact ih hnames.2.1.2

/-- A split writes no fewer fields than there were. -/
theorem length_fieldsOf_le (h : request.Splits field types xs ys) :
    (fieldsOf xs).length ≤ (fieldsOf ys).length := by
  induction h with
  | @here before after types parts _ hreached _ _ hparts =>
    unfold TypeSet.isEmpty at hreached
    generalize types.names = names at hreached hparts
    cases hparts with
    | nil => cases hreached
    | cons hpart _ =>
      obtain ⟨copy, hcopy, rfl⟩ := hpart
      have hsame : SameContent [.field field] [.field copy] :=
        .field hcopy.head hcopy.directives hcopy.selections .nil
      have hlength := hsame.length_fieldsOf
      simp only [fieldsOf_append, fieldsOf, Selection.fields, List.length_append] at hlength ⊢
      omega
  | inline _ _ _ _ _ _ ih =>
    simp only [fieldsOf_append, fieldsOf, Selection.fields, List.length_append]
    omega
  | field _ _ _ _ _ _ _ ih =>
    simp only [fieldsOf_append, fieldsOf_field, List.length_append, List.length_cons]
    omega

end Request.Splits

/-! ## Steps -/

theorem TypeSet.inter_singleton {set : TypeSet} {name : Name} (h : name ∈ set) :
    set.inter (singleton name) = singleton name := by
  refine ext_names ?_
  show set.names.filter (· ∈ [name]) = [name]
  have hone : set.names.filter (· == name) = [name] := by
    rw [List.filter_beq, List.count_eq_one_of_mem set.nodup h, List.replicate_one]
  exact (List.filter_congr fun other _ => by simp [beq_eq_decide]).trans hone

namespace Request

variable {request : Request} {field : Field} {types left : TypeSet} {xs ys : List Selection}

/-- What stands below directives that let it in and a type condition. -/
theorem stepsUnder_included {condition : Option Name} {directives : List Directive}
    (hincluded : isIncluded request.bindings directives = .ok true)
    (hreached : types.isEmpty = false) (hleft : request.narrow types condition = .ok left)
    (next : TypeSet → List Step) :
    request.stepsUnder condition directives types next = next left := by
  rw [stepsUnder, hincluded, hleft, hreached]
  rfl

/-- A condition on an object type leaves that type. -/
theorem narrow_object {type : Name} (hobject : request.schema.isObject type = true)
    (hmem : type ∈ types) (hreached : types.isEmpty = false) :
    request.narrow types (some type) = .ok (.singleton type) := by
  have hcomposite : request.schema.compositeOf type = .ok (.object type) := by
    unfold Schema.isObject at hobject
    unfold Schema.compositeOf
    cases hdefinition : request.schema.type? type with
    | none => simp [hdefinition] at hobject
    | some definition => cases definition <;> simp_all
  show (do request.schema.restrict types (← request.schema.compositeOf type)) = _
  rw [hcomposite, ok_bind]
  show Except.ok (if types.isEmpty then _ else types.inter (.singleton type)) = _
  rw [hreached, TypeSet.inter_singleton hmem]
  rfl

/-- The inline fragments that a field is split into come to its copies, one for each object type. -/
theorem stepsOf_parts (enter : Name → TypeSet → List Step)
    (hincluded : isIncluded request.bindings field.directives = .ok true)
    (hreached : types.isEmpty = false)
    (hobjects : ∀ type ∈ types, request.schema.isObject type = true)
    {names : List Name} (hnames : ∀ name ∈ names, name ∈ types) {parts : List Selection}
    (hparts : List.Forall₂ (fun type part => ∃ copy, field.Copies copy
      ∧ part = Selection.inline (some type) [] [.field copy]) names parts) :
    ∃ occs : List Occurrence, request.stepsOf enter parts types = occs.map .ok
      ∧ List.Forall₂ (fun type occ => field.Copies occ.field ∧ occ.types = .singleton type)
        names occs := by
  induction hparts with
  | nil => exact ⟨[], rfl, .nil⟩
  | @cons name part names parts hpart _ ih =>
    obtain ⟨hmem, hrest⟩ := List.forall_mem_cons.1 hnames
    obtain ⟨occs, hoccs, hcopies⟩ := ih hrest
    obtain ⟨copy, hcopy, rfl⟩ := hpart
    refine ⟨⟨copy, .singleton name⟩ :: occs, ?_, .cons ⟨hcopy, rfl⟩ hcopies⟩
    have hleft := narrow_object (hobjects name hmem) hmem hreached
    have hcopied : isIncluded request.bindings copy.directives = .ok true := by
      rw [hcopy.directives, hincluded]
    rw [stepsOf, hoccs, stepsOfSelection, stepsUnder_included rfl hreached hleft, stepsOf_singleton,
      stepsOfSelection, stepsUnder_included hcopied rfl rfl]
    rfl

/-- Whether walks through selections come to the same but for copies, or a field of the selections is
split. -/
def Divided (request : Request) (field : Field) (types : TypeSet) (xs ys : List Selection) : Prop :=
  Pairing.dividing.Steps (request.steps types xs) (request.steps types ys)
    ∨ request.Splits field types xs ys

theorem Divided.refl (request : Request) (field : Field) (types : TypeSet) (xs : List Selection) :
    request.Divided field types xs xs :=
  .inl (Pairing.dividing_refl _)

theorem Divided.between (h : request.Divided field types xs ys) (before after : List Selection) :
    request.Divided field types (before ++ xs ++ after) (before ++ ys ++ after) := by
  rcases h with hsteps | hsplit
  · refine .inl ?_
    simp only [steps_append]
    exact ((Pairing.dividing_refl _).append hsteps).append (Pairing.dividing_refl _)
  · exact .inr (hsplit.between before after)

/-- Whether the steps of two walks are the same, but for one occurrence that is divided. What is below
the occurrence, for the object types of its type, is divided as well. -/
inductive ComesInParts (request : Request) (field : Field) : List Step → List Step → Prop
  | intro (before after : List Step) {occ first : Occurrence} {more : List Occurrence}
      {type : TypeRef} (hdivides : request.schema.Divides type occ first more)
      (hbelow : ∀ types, request.typesOf type.innerName = .ok types →
        request.Divided field types occ.field.selections
          (((first :: more).map (·.field)).flatMap (·.selections))) :
      ComesInParts request field (before ++ .ok occ :: after)
        (before ++ (first :: more).map .ok ++ after)

theorem ComesInParts.between {steps others : List Step} (h : request.ComesInParts field steps others)
    (before after : List Step) :
    request.ComesInParts field (before ++ steps ++ after) (before ++ others ++ after) := by
  cases h with
  | intro before' after' hdivides hbelow =>
    have hparts := ComesInParts.intro (before ++ before') (after' ++ after) hdivides hbelow
    simpa only [List.append_assoc, List.cons_append] using hparts

/-- The copies of a field are its parts, one for each of its object types. -/
theorem divides_copies (hreached : types.isEmpty = false)
    (htype : Occurrence.HasOneType ⟨field, types⟩ request.schema)
    (hnames : HaveUniqueNames (field :: fieldsOf field.selections)) {occs : List Occurrence}
    (hcopies : List.Forall₂ (fun type occ => field.Copies occ.field ∧ occ.types = .singleton type)
      types.names occs) :
    ∃ first more type, occs = first :: more
      ∧ request.schema.Divides type ⟨field, types⟩ first more
      ∧ ∀ copy ∈ (first :: more).map (·.field), field.Copies copy := by
  obtain ⟨type, hone⟩ := htype
  have hparts : ∀ part ∈ occs, field.Copies part.field
      ∧ request.schema.declaredType? part = some type := by
    intro part hpart
    obtain ⟨name, hname, hcopy, htypes⟩ := exists_left hcopies hpart
    obtain ⟨definition, hdefinition, rfl⟩ := hone name hname
    refine ⟨hcopy, Schema.declaredType?_eq_some.2 ⟨name, definition, ?_, ?_, rfl⟩⟩
    · rw [htypes]
      rfl
    · rw [hcopy.head.name]
      exact hdefinition
  have htypes : occs.map (·.types) = types.names.map .singleton :=
    map_eq_of_forall₂ (fun _ _ hocc => hocc.2) hcopies
  generalize hlist : types.names = names at hcopies htypes
  cases hcopies with
  | nil =>
    rw [TypeSet.isEmpty, hlist] at hreached
    cases hreached
  | @cons name first names more hfirst _ =>
    rw [List.map_cons, List.map_cons, List.cons.injEq] at htypes
    refine ⟨first, more, type, rfl, ?_, List.forall_mem_map.2 fun part hpart => (hparts part hpart).1⟩
    refine ⟨fun part hpart => (hparts part hpart).1.head, fun part hpart => (hparts part hpart).2,
      ?_, ?_, fun _ => areLike_refl (HaveUniqueNames.cons.1 hnames).1⟩
    · rw [hfirst.2, TypeSet.first?, TypeSet.first?, hlist]
      rfl
    · rw [hfirst.2, htypes.2]
      exact TypeSet.unionAll_singleton hlist

/-- Where a field is split, walks come to the field or to one that encloses it in parts. -/
theorem Splits.steps (h : request.Splits field types xs ys)
    (hnames : HaveUniqueNames (field :: fieldsOf field.selections))
    (hfragments : request.fragments.HaveUniqueNames) (enter : Name → TypeSet → List Step) :
    request.ComesInParts field (request.stepsOf enter xs types) (request.stepsOf enter ys types) := by
  induction h with
  | here before after hincluded hreached hobjects htype hparts =>
    obtain ⟨occs, hoccs, hcopies⟩ := stepsOf_parts enter hincluded hreached hobjects
      (fun _ hname => hname) hparts
    obtain ⟨first, more, type, rfl, hdivides, hcopied⟩ :=
      divides_copies hreached htype hnames hcopies
    rw [stepsOf_append, stepsOf_append, stepsOf_append, hoccs, stepsOf, stepsOfSelection,
      stepsUnder_included hincluded hreached rfl]
    refine .intro _ _ hdivides fun left _ => .inl ?_
    have hbelow := (mirrors_dividing hfragments).flatMap
      (Pairing.dividing_copies hnames hcopied) left
    rwa [List.flatMap_singleton] at hbelow
  | inline before after hincluded hreached hleft _ ih =>
    rw [stepsOf_append, stepsOf_append, stepsOf, stepsOf, stepsOfSelection, stepsOfSelection,
      stepsUnder_included hincluded hreached hleft, stepsUnder_included hincluded hreached hleft,
      ← List.append_assoc, ← List.append_assoc]
    exact ih.between _ _
  | @field before after types left selections parent type hincluded hreached htype hleft hbelow _ =>
    rw [stepsOf_append, stepsOf_append, stepsOf, stepsOf, stepsOfSelection, stepsOfSelection,
      stepsUnder_included hincluded hreached rfl, stepsUnder_included hincluded hreached rfl]
    have hdivides : request.schema.Divides type ⟨parent, types⟩
        ⟨{ parent with selections }, types⟩ [] :=
      ⟨List.forall_mem_singleton.2 ⟨rfl, rfl, rfl⟩, List.forall_mem_singleton.2 htype, rfl, rfl,
        fun hne => absurd rfl hne⟩
    have hdivided (left' : TypeSet) (hleft' : request.typesOf type.innerName = .ok left') :
        request.Divided field left' parent.selections ([{ parent with selections }].flatMap
          (·.selections)) := by
      obtain rfl := Except.ok.inj (hleft.symm.trans hleft')
      rw [List.flatMap_singleton]
      exact .inr hbelow
    have hparts := ComesInParts.intro (request.stepsOf enter before types)
      (request.stepsOf enter after types) hdivides hdivided
    rw [List.append_assoc] at hparts
    exact hparts

/-! ## Levels -/

/-- Whether clusters are the same, but for their merged fields, below which nothing or only a split
makes a difference. -/
structure DividedClusters (request : Request) (field : Field) (cluster other : Cluster) : Prop
    extends Cluster.SameNode cluster other where
  below : ∀ types, request.typesOf cluster.type.innerName = .ok types →
    request.Divided field types (cluster.merged.fields.flatMap (·.selections))
      (other.merged.fields.flatMap (·.selections))

/-- Clusters that differ in copies have the same steps below them, but for copies. -/
theorem dividedClusters_of_mirrors (hfragments : request.fragments.HaveUniqueNames)
    {cluster other : Cluster} (h : cluster.Mirrors Pairing.dividing other) :
    request.DividedClusters field cluster other where
  toSameNode := h.sameNode
  below types _ := .inl ((mirrors_dividing hfragments).flatMap h.fields types)

/-- Clusters that differ in the parts of one field are divided below as that field is. -/
theorem dividedClusters_of_divides {occ first : Occurrence} {more : List Occurrence} {type : TypeRef}
    (hbelow : ∀ types, request.typesOf type.innerName = .ok types →
      request.Divided field types occ.field.selections
        (((first :: more).map (·.field)).flatMap (·.selections)))
    {cluster other : Cluster}
    (h : cluster.Divides occ.field ((first :: more).map (·.field)) type other) :
    request.DividedClusters field cluster other where
  toSameNode := h.toSameNode
  below := by
    intro types htypes
    rcases h.fields with hfields | ⟨rfl, before, after, hfields, hothers⟩
    · rw [hfields]
      exact .refl ..
    · have hdivided := (hbelow types htypes).between (before.flatMap (·.selections))
        (after.flatMap (·.selections))
      rw [hfields, hothers, List.flatMap_append, List.flatMap_append, List.flatMap_append,
        List.flatMap_cons, ← List.append_assoc]
      exact hdivided

/-- Selection sets that are divided make clusters that are divided. -/
theorem level_divided (hnames : HaveUniqueNames (field :: fieldsOf field.selections))
    (hfragments : request.fragments.HaveUniqueNames) {sets others : List (List Selection)}
    (h : request.Divided field types sets.flatten others.flatten) :
    Agree (List.Forall₂ (request.DividedClusters field)) (request.level types sets)
      (request.level types others) := by
  rcases h with hsteps | hsplit
  · have hlevel : Agree (List.Forall₂ (Cluster.Mirrors Pairing.dividing)) (request.level types sets)
        (request.level types others) := level_mirrors hsteps
    exact hlevel.imp fun _ _ hclusters => hclusters.imp fun _ _ =>
      dividedClusters_of_mirrors hfragments
  · have hparts := hsplit.steps hnames hfragments (request.enterSteps (request.nestingBound types))
    rw [level_eq_visitSteps, level_eq_visitSteps, Request.steps, Request.steps]
    generalize request.stepsOf _ sets.flatten types = steps at hparts ⊢
    generalize request.stepsOf _ others.flatten types = steps' at hparts ⊢
    cases hparts with
    | intro before after hdivides hbelow =>
      have hlevel := visitSteps_divided hdivides before after
      exact hlevel.imp fun _ _ hclusters => hclusters.imp fun _ _ =>
        dividedClusters_of_divides hbelow

/-- Levels keep selection sets divided, and so does what is below them. -/
theorem relates_divided (hnames : HaveUniqueNames (field :: fieldsOf field.selections))
    (hfragments : request.fragments.HaveUniqueNames) :
    request.Relates request False (request.DividedClusters field) (request.Divided field) where
  schema := rfl
  type h := h.type
  responseKey h := h.first.responseKey
  level h := (level_divided hnames hfragments h).unless False
  below := by
    intro cluster other types h htypes
    rw [cluster.flatten_selectionSets, other.flatten_selectionSets]
    exact h.below types htypes

end Request

/-! ## Forests -/

/-- Selections that write more fields may take more levels. -/
theorem Request.levelBound_mono (request : Request) (options : Options) {xs ys : List Selection}
    (h : (fieldsOf xs).length ≤ (fieldsOf ys).length) :
    request.levelBound options xs ≤ request.levelBound options ys := by
  unfold levelBound
  cases options.depthLimit with
  | some limit => exact Nat.le_refl _
  | none =>
    refine Nat.mul_le_mul_right _ ?_
    generalize (request.fragments.flatMap fun fragment => fieldsOf fragment.selections).length = n
    have hle : (fieldsOf xs).length + n + 1 ≤ (fieldsOf ys).length + n + 1 := by omega
    exact (Nat.pow_le_pow_left hle _).trans (Nat.pow_le_pow_right (by omega) hle)

/-- Where a field is split, growth that succeeds makes trees that are divided. -/
theorem Request.grow_splits {request : Request} {options : Options} {operation : Operation}
    {types : TypeSet} {field : Field} {selections : List Selection} {trees : List Tree}
    (hnames : HaveUniqueNames (field :: fieldsOf field.selections))
    (hfragments : request.fragments.HaveUniqueNames)
    (htypes : request.typesOf operation.rootType = .ok types)
    (hsplit : request.Splits field types operation.selections selections)
    (h : request.grow options operation = .ok trees) :
    ∃ others, request.grow options { operation with selections } = .ok others
      ∧ treesRelated (request.DividedClusters field) trees others := by
  have hsets : request.Divided field types [operation.selections].flatten [selections].flatten := by
    rw [List.flatten_singleton, List.flatten_singleton]
    exact .inr hsplit
  have hagree : AgreeUnless False (treesRelated (request.DividedClusters field))
      (request.growLevel options (request.levelBound options operation.selections) 1 types
        [operation.selections])
      (request.growLevel options (request.levelBound options operation.selections) 1 types
        [selections]) :=
    growLevel_related (relates_divided hnames hfragments) hsets
  rw [grow, htypes, ok_bind] at h
  obtain ⟨allowed, hallowed, h⟩ := bind_eq_ok.1 h
  obtain ⟨others, hothers, hrelated⟩ := (hagree.agree id).exists_right h
  refine ⟨others, ?_, hrelated⟩
  -- The split writes more fields, so that its own bound allows for more levels.
  have hbound := request.levelBound_mono options hsplit.length_fieldsOf_le
  show (request.typesOf operation.rootType >>= _) = _
  rw [htypes, ok_bind, hallowed, ok_bind]
  exact growLevel_mono hbound hothers

/-- Let an operation with unique names of arguments and of the keys of object literals have a forest,
and let a field of it be replaced by inline fragments on the object types that it is come to with, in
their order, on all of which the field has one type. Then the result has a forest with the same
nodes, the same roots and the same coordinates. -/
theorem Operation.forestWith_splits {operation : Operation} {schema : Schema} {options : Options}
    {fragments : Fragments} {bindings : Members} {sources : Option TracedInputs} {types : TypeSet}
    {field : Field} {selections : List Selection} {forest : Forest}
    (hnames : operation.hasUniqueNames fragments = true)
    (htypes : Request.typesOf ⟨schema, fragments, bindings, sources⟩ operation.rootType = .ok types)
    (hsplit : Request.Splits ⟨schema, fragments, bindings, sources⟩ field types
      operation.selections selections)
    (h : operation.forestWith schema options fragments bindings sources = .ok forest) :
    ∃ other, { operation with selections }.forestWith schema options fragments bindings sources
        = .ok other ∧ forest.HasNodesOf other := by
  obtain ⟨hoperation, hfragments⟩ := hasUniqueNames_iff.1 hnames
  obtain ⟨trees, htrees, rfl⟩ := Operation.forestWith_eq_ok.1 h
  obtain ⟨others, hothers, hrelated⟩ := Request.grow_splits (hsplit.haveUniqueNames hoperation)
    hfragments htypes hsplit htrees
  exact ⟨.ofTrees others, Operation.forestWith_eq_ok.2 ⟨others, hothers, rfl⟩,
    Forest.ofTrees_hasNodesOf (fun h => h.toSameNode) hrelated⟩

/-! ## A sample

A field on both objects of an interface, behind one that was merged already. -/

namespace Splitting

/-- `child { x }` -/
def child : Field := Sample.plain 1 "child" [.field Sample.x]

/-- `node { ... on B { child { y } } child { x } }` -/
def node : Field :=
  Sample.plain 0 "node" [.inline "B" [] [.field Sample.childOfB], .field child]

/-- `{ node { ... on B { child { y } } child { x } } }` -/
def operation : Operation := ⟨none, "Query", [], [.field node]⟩

/-- `... on T { child { x } }`, with places of its own. -/
def part (type : Name) (place : Nat) : Selection :=
  .inline type [] [.field (Sample.plain place "child" [.field (Sample.plain (place + 1) "x" [])])]

/-- `{ node { ... on B { child { y } } ... on A { child { x } } ... on B { child { x } } } }` -/
def split : List Selection :=
  [.field { node with
    selections := [.inline "B" [] [.field Sample.childOfB], part "A" 5, part "B" 7] }]

def request : Request := ⟨Sample.schema, [], [], none⟩

theorem child_splits :
    request.Splits child (.singleton "Query") operation.selections split := by
  have hcopies (place : Nat) : child.Copies
      (Sample.plain place "child" [.field (Sample.plain (place + 1) "x" [])]) :=
    ⟨⟨rfl, rfl, rfl⟩, rfl, .field ⟨rfl, rfl, rfl⟩ rfl .nil .nil⟩
  have hone : Occurrence.HasOneType ⟨child, .ofList ["A", "B"]⟩ Sample.schema := by
    refine ⟨.named "Thing" false, fun object hobject => ?_⟩
    have hmem : object ∈ ["A", "B"] := TypeSet.mem_ofList.1 hobject
    have hall : ∀ object ∈ ["A", "B"], ∃ definition,
        Sample.schema.field? object "child" = some definition
          ∧ definition.type = .named "Thing" false := by
      simp only [List.forall_mem_cons]
      exact ⟨⟨_, rfl, rfl⟩, ⟨_, rfl, rfl⟩, List.forall_mem_nil _⟩
    exact hall object hmem
  have hinner : request.Splits child (.ofList ["A", "B"]) node.selections
      ([.inline "B" [] [.field Sample.childOfB]] ++ [part "A" 5, part "B" 7] ++ []) :=
    .here [.inline "B" [] [.field Sample.childOfB]] [] rfl rfl (by decide +kernel) hone
      (.cons ⟨_, hcopies 5, rfl⟩ (.cons ⟨_, hcopies 7, rfl⟩ .nil))
  exact .field [] [] rfl rfl rfl rfl hinner

/-- Split or not, the field `child` has one node, behind the one for `node`, with `y` and `x` below
it. -/
theorem split_forest :
    ∃ forest other, operation.forestWith Sample.schema {} [] [] none = .ok forest
      ∧ { operation with selections := split }.forestWith Sample.schema {} [] [] none = .ok other
      ∧ forest.size = 4 ∧ forest.HasNodesOf other := by
  obtain ⟨forest, hforest, hsize⟩ : ∃ forest,
      operation.forestWith Sample.schema {} [] [] none = .ok forest ∧ forest.size = 4 :=
    ⟨_, rfl, rfl⟩
  have hnames : operation.hasUniqueNames [] = true := by decide
  obtain ⟨other, hother, hnodes⟩ :=
    Operation.forestWith_splits hnames rfl child_splits hforest
  exact ⟨forest, other, hforest, hother, hsize, hnodes⟩

end Splitting

end SelectionForest
