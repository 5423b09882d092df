import SelectionForest.Proofs.Consistency
import SelectionForest.Proofs.Forest.Counting
import SelectionForest.Proofs.Forest.Siblings

/-!
# What becomes of the fields of an operation

A field that an operation writes outside of fragments is merged into one node or into none. It is
merged into none if it is left out on the way to it (`Forest.LeavesOut`): the field itself, or a
field or an inline fragment around it, is excluded by its directives or is come to with no object
type left. Below a field, the object types are at first those of the node that it is merged into.

* `leavesOut_of_unmerged`: what is not merged was left out, by recursion on the selections;
* `Expands.lower_leavesOut`: what is left out of selections is left out below the field that is met;
* `forestWith_owns`: the fields of an operation are merged once, or are left out.
-/

namespace SelectionForest

/-- The object types that a type stands for, as a set. -/
def Schema.standsFor (schema : Schema) (name : Name) : TypeSet := .ofList (schema.runtimeTypes name)

/-- Whether places tell the fields of an operation apart, from each other and from those of
fragments. -/
structure Operation.HasPlaces (operation : Operation) (fragments : Fragments) : Prop where
  distinct : ((fieldsOf operation.selections).map (·.place)).Nodup
  apart : ∀ field ∈ fieldsOf operation.selections, ∀ fragment ∈ fragments,
    ∀ other ∈ fieldsOf fragment.selections, other.place ≠ field.place

/-- Whether a field that selections write is left out, from the object types of their root and under
the given conditions, the innermost first. -/
inductive Forest.LeavesOut (forest : Forest) (request : Request) (field : Field) :
    TypeSet → List Name → List Selection → Prop
  /-- Directives exclude the field, or a selection that holds it. -/
  | excluded {root : TypeSet} {conditions : List Name} {selection : Selection}
      {rest : List Selection} (hmem : field ∈ selection.fields)
      (h : isIncluded request.bindings selection.directives = .ok false) :
      LeavesOut forest request field root conditions (selection :: rest)
  /-- No object type is left where the field is come to, or a selection that holds it. -/
  | pruned {root : TypeSet} {conditions : List Name} {selection : Selection}
      {rest : List Selection} (hmem : field ∈ selection.fields)
      (h : (request.left root conditions).isEmpty = true) :
      LeavesOut forest request field root conditions (selection :: rest)
  | inline {root : TypeSet} {conditions : List Name} {condition : Option Name}
      {directives : List Directive} {inner rest : List Selection}
      (h : LeavesOut forest request field root (condition.toList ++ conditions) inner) :
      LeavesOut forest request field root conditions (.inline condition directives inner :: rest)
  /-- Below a field, the object types are those of the node that it is merged into. -/
  | lower {root : TypeSet} {conditions : List Name} {upper : Field} {rest : List Selection}
      {id : Nat} {node : Node} (hid : id ∈ forest.nodesOf upper)
      (hnode : forest.node? id = some node)
      (h : LeavesOut forest request field (request.schema.standsFor node.type.innerName) []
        upper.selections) :
      LeavesOut forest request field root conditions (.field upper :: rest)
  | later {root : TypeSet} {conditions : List Name} {selection : Selection}
      {rest : List Selection} (h : LeavesOut forest request field root conditions rest) :
      LeavesOut forest request field root conditions (selection :: rest)

/-- Whether a field is left out below another one, from the object types of a node that this one is
merged into. -/
def Forest.LeavesOutBelow (forest : Forest) (request : Request) (field upper : Field) : Prop :=
  ∃ id node, id ∈ forest.nodesOf upper ∧ forest.node? id = some node
    ∧ forest.LeavesOut request field (request.schema.standsFor node.type.innerName) []
      upper.selections

variable {forest : Forest} {request : Request} {field : Field}

namespace Forest.LeavesOut

variable {root : TypeSet} {conditions : List Name} {selection : Selection}
  {selections rest : List Selection}

theorem mem (h : forest.LeavesOut request field root conditions selections) :
    field ∈ fieldsOf selections := by
  induction h with
  | excluded hmem => exact List.mem_append_left _ hmem
  | pruned hmem => exact List.mem_append_left _ hmem
  | inline _ ih => exact List.mem_append_left _ ih
  | lower _ _ _ ih => exact List.mem_append_left _ (Field.mem_fields.2 (.inr ih))
  | later _ ih => exact List.mem_append_right _ ih

theorem append (h : forest.LeavesOut request field root conditions selections)
    (rest : List Selection) :
    forest.LeavesOut request field root conditions (selections ++ rest) := by
  induction h with
  | excluded hmem h => exact .excluded hmem h
  | pruned hmem h => exact .pruned hmem h
  | inline h => exact .inline h
  | lower hid hnode h => exact .lower hid hnode h
  | later _ ih => exact .later ih

/-- A field is left out of the first selection, which holds it, or of the others. -/
theorem first_or_later
    (h : forest.LeavesOut request field root conditions (selection :: rest)) :
    field ∈ selection.fields ∧ forest.LeavesOut request field root conditions [selection]
      ∨ forest.LeavesOut request field root conditions rest := by
  cases h with
  | excluded hmem h => exact .inl ⟨hmem, .excluded hmem h⟩
  | pruned hmem h => exact .inl ⟨hmem, .pruned hmem h⟩
  | inline h => exact .inl ⟨h.mem, .inline h⟩
  | lower hid hnode h => exact .inl ⟨Field.mem_fields.2 (.inr h.mem), .lower hid hnode h⟩
  | later h => exact .inr h

/-- Where no object type is left, all fields are left out. -/
theorem of_isEmpty (hempty : (request.left root conditions).isEmpty = true)
    (hmem : field ∈ fieldsOf selections) :
    forest.LeavesOut request field root conditions selections := by
  induction selections with
  | nil => exact absurd hmem List.not_mem_nil
  | cons selection selections ih =>
    rcases List.mem_append.1 hmem with hmem | hmem
    · exact .pruned hmem hempty
    · exact .later (ih hmem)

end Forest.LeavesOut

/-! ## Parts of levels -/

/-- A field that is held by what a walk meets, and not by a fragment, is held by the selections. -/
theorem Request.Expands.mem_fieldsOf (hfragments : request.OfFragments (· ≠ field))
    {root : TypeSet} {conditions : List Name} {selections : List Selection}
    {occs : List Occurrence} (h : request.Expands root conditions selections occs)
    {occ : Occurrence} (hocc : occ ∈ occs) (hfield : field ∈ occ.field.fields) :
    field ∈ fieldsOf selections := by
  have hall := h.forall_fields (P := fun other => other = field → field ∈ fieldsOf selections)
    (fun _ hfragment other hother heq => absurd heq (hfragments _ hfragment other hother))
    fun _ hother heq => heq ▸ hother
  exact hall occ hocc field hfield rfl

/-- The expansion of the selections of several fields has those of each of them as parts. -/
theorem Request.Expands.exists_part {root : TypeSet} {conditions : List Name} {fields : List Field}
    {occs : List Occurrence}
    (h : request.Expands root conditions (fields.flatMap (·.selections)) occs) {upper : Field}
    (hupper : upper ∈ fields) :
    ∃ part, request.Expands root conditions upper.selections part ∧ part ⊆ occs := by
  induction fields generalizing occs with
  | nil => exact absurd hupper List.not_mem_nil
  | cons first fields ih =>
    obtain ⟨part, others, rfl, hpart, hothers⟩ := h.exists_append
    rcases List.mem_cons.1 hupper with rfl | hupper
    · exact ⟨part, hpart, List.subset_append_left _ _⟩
    · obtain ⟨part', hpart', hsub⟩ := ih hothers hupper
      exact ⟨part', hpart', fun _ hocc => List.mem_append_right _ (hsub hocc)⟩

/-- What is met in the selections of several fields is met in those of one of them. -/
theorem Request.Expands.exists_upper {root : TypeSet} {conditions : List Name} {fields : List Field}
    {occs : List Occurrence}
    (h : request.Expands root conditions (fields.flatMap (·.selections)) occs) {occ : Occurrence}
    (hocc : occ ∈ occs) :
    ∃ upper ∈ fields, ∃ part, request.Expands root conditions upper.selections part
      ∧ occ ∈ part := by
  induction fields generalizing occs with
  | nil =>
    cases h
    exact absurd hocc List.not_mem_nil
  | cons first fields ih =>
    obtain ⟨part, others, rfl, hpart, hothers⟩ := h.exists_append
    rcases List.mem_append.1 hocc with hocc | hocc
    · exact ⟨first, List.mem_cons_self, part, hpart, hocc⟩
    · obtain ⟨upper, hupper, hmet⟩ := ih hothers hocc
      exact ⟨upper, List.mem_cons_of_mem _ hupper, hmet⟩

theorem withoutRepeats_eq_self {names : List Name} (h : names.Nodup) :
    withoutRepeats names = names := by
  induction names with
  | nil => rfl
  | cons name names ih =>
    obtain ⟨hnew, hnames⟩ := List.nodup_cons.1 h
    rw [withoutRepeats, ih hnames, List.filter_eq_self.2]
    exact fun other hother => decide_eq_true fun heq => hnew (heq ▸ hother)

/-- The object types of a composite type are those that it stands for. -/
theorem Request.types_eq_standsFor {name : Name} {types : TypeSet}
    (h : request.typesOf name = .ok types) : types = request.schema.standsFor name := by
  obtain ⟨composite, hcomposite, htypes⟩ := bind_eq_ok.1 h
  unfold Schema.compositeOf at hcomposite
  rw [Schema.standsFor, Schema.runtimeTypes]
  split at hcomposite <;> cases hcomposite <;> rename_i hdef <;> rw [hdef]
  · cases htypes
    rfl
  · cases htypes
    exact TypeSet.ext_names (withoutRepeats_eq_self (TypeSet.nodup _)).symm
  · simp only [Schema.possibleTypes, hdef] at htypes
    cases htypes
    rfl

/-- A type that is not composite stands for no object types. -/
theorem Schema.isEmpty_standsFor {name : Name} (h : request.schema.isComposite name = false) :
    (request.left (request.schema.standsFor name) []).isEmpty = true := by
  have hnone : request.schema.runtimeTypes name = [] := by
    unfold isComposite at h
    unfold runtimeTypes
    cases htype : request.schema.type? name with
    | none => rfl
    | some type =>
      rw [htype] at h
      cases type with
      | object => cases h
      | interface => cases h
      | union => cases h
      | _ => rfl
  rw [Request.left_nil, standsFor, hnone]
  rfl

/-! ## What is not merged -/

/-- Whether a field is merged into a node. -/
def Forest.HasMerged (forest : Forest) (field : Field) : Prop :=
  ∃ id merged, forest.merged? id = some merged ∧ field ∈ merged.fields

/-- All that is met at a level is merged. -/
theorem Forest.Lists.hasMerged {types : TypeSet} {selections : List Selection} {ids : List Nat}
    {occs : List Occurrence} (h : forest.Lists request types selections ids)
    (hexp : request.Expands types [] selections occs) :
    ∀ occ ∈ occs, forest.HasMerged occ.field := by
  intro occ hocc
  obtain ⟨occs', hexp', -, hshows⟩ := h
  obtain rfl := hexp.unique hexp'
  obtain ⟨cls, hcls, hmember⟩ := request.schema.exists_group hocc
  obtain ⟨id, -, _, -, -, hmerged⟩ := exists_left hshows hcls
  exact ⟨id, cls.fields, hmerged, OccurrenceClass.mem_fields.2 ⟨occ, hmember, rfl⟩⟩

/-- What is merged is merged into a node. -/
theorem Forest.IsWellFormed.exists_node (hwell : forest.IsWellFormed request.schema) {id : Nat}
    {merged : Bundle} (hmerged : forest.merged? id = some merged) :
    ∃ node, forest.node? id = some node := by
  obtain ⟨hless, -⟩ := List.getElem?_eq_some_iff.1 hmerged
  exact ⟨_, List.getElem?_eq_getElem (hwell.paired ▸ hless)⟩

/-- Whether what is met below merged fields is merged too: a field that is merged has a node, and if
the type of the node is composite, all is merged that a walk from its object types meets. -/
def Forest.MergesBelow (forest : Forest) (request : Request) : Prop :=
  ∀ upper, forest.HasMerged upper → ∃ id node, id ∈ forest.nodesOf upper
    ∧ forest.node? id = some node
    ∧ (request.schema.isComposite node.type.innerName = true →
      ∃ part, request.Expands (request.schema.standsFor node.type.innerName) [] upper.selections
        part ∧ ∀ occ ∈ part, forest.HasMerged occ.field)

theorem Forest.Collects.mergesBelow {operation : Operation}
    (hcollects : forest.Collects request operation) (hindexed : forest.IsIndexed)
    (hwell : forest.IsWellFormed request.schema) : forest.MergesBelow request := by
  intro upper ⟨id, merged, hmerged, hupper⟩
  obtain ⟨node, hnode⟩ := hwell.exists_node hmerged
  refine ⟨id, node, (Forest.mem_nodesOf hindexed hwell).2 ⟨merged, hmerged, upper, hupper, rfl⟩,
    hnode, fun hcomposite => ?_⟩
  obtain ⟨types, merged', htypes, hmerged', hlists⟩ := hcollects.below hnode hcomposite
  obtain rfl := Option.some.inj (hmerged.symm.trans hmerged')
  obtain rfl := Request.types_eq_standsFor htypes
  have ⟨occs, hexp, _, _⟩ := hlists
  obtain ⟨part, hpart, hsub⟩ := hexp.exists_part hupper
  exact ⟨part, hpart, fun occ hocc => hlists.hasMerged hexp occ (hsub hocc)⟩

mutual

theorem Selection.leavesOut_of_unmerged (hbelow : forest.MergesBelow request)
    (hunmerged : ¬ forest.HasMerged field) : ∀ (selection : Selection) {root : TypeSet}
    {conditions : List Name} {occs : List Occurrence},
    request.Expands root conditions [selection] occs → (∀ occ ∈ occs, forest.HasMerged occ.field) →
    field ∈ selection.fields → forest.LeavesOut request field root conditions [selection]
  | .field ⟨place, aliasName, name, arguments, directives, selections⟩, root, conditions, occs,
      hexp, hmerged, hmem => by
    cases hexp with
    | excluded h _ => exact .excluded hmem h
    | pruned h _ => exact .pruned hmem h
    | field _ _ _ =>
      have hupper := hmerged _ List.mem_cons_self
      rcases List.mem_cons.1 hmem with rfl | hmem
      · exact absurd hupper hunmerged
      · obtain ⟨id, node, hid, hnode, hlevel⟩ := hbelow _ hupper
        refine .lower hid hnode ?_
        cases hcomposite : request.schema.isComposite node.type.innerName with
        | true =>
          obtain ⟨part, hpart, hmerged⟩ := hlevel hcomposite
          exact leavesOut_of_unmerged hbelow hunmerged selections hpart hmerged hmem
        | false => exact .of_isEmpty (Schema.isEmpty_standsFor hcomposite) hmem
  | .inline condition directives selections, root, conditions, occs, hexp, hmerged, hmem => by
    cases hexp with
    | excluded h _ => exact .excluded hmem h
    | pruned h _ => exact .pruned hmem h
    | inline _ hinner _ =>
      have hinside := fun occ hocc => hmerged occ (List.mem_append_left _ hocc)
      exact .inline (leavesOut_of_unmerged hbelow hunmerged selections hinner hinside hmem)
  | .spread _ _, _, _, _, _, _, hmem => absurd hmem List.not_mem_nil

/-- A field that selections write is left out of them, if all that is met is merged and the field is
not. -/
theorem leavesOut_of_unmerged (hbelow : forest.MergesBelow request)
    (hunmerged : ¬ forest.HasMerged field) : ∀ (selections : List Selection) {root : TypeSet}
    {conditions : List Name} {occs : List Occurrence},
    request.Expands root conditions selections occs → (∀ occ ∈ occs, forest.HasMerged occ.field) →
    field ∈ fieldsOf selections → forest.LeavesOut request field root conditions selections
  | [], _, _, _, _, _, hmem => absurd hmem List.not_mem_nil
  | selection :: selections, root, conditions, occs, hexp, hmerged, hmem => by
    obtain ⟨first, others, rfl, hfirst, hothers⟩ := hexp.exists_cons
    obtain ⟨hmerged, hrest⟩ := List.forall_mem_append.1 hmerged
    rcases List.mem_append.1 hmem with hmem | hmem
    · exact (selection.leavesOut_of_unmerged hbelow hunmerged hfirst hmerged hmem).append selections
    · exact .later (leavesOut_of_unmerged hbelow hunmerged selections hothers hrest hmem)

end

/-! ## What is left out -/

theorem not_mem_rest {selection : Selection} {rest : List Selection}
    (hplaces : ((fieldsOf (selection :: rest)).map (·.place)).Nodup)
    (hfield : field ∈ selection.fields) : field ∉ fieldsOf rest := by
  rw [fieldsOf, List.map_append] at hplaces
  exact fun hrest => List.disjoint_of_nodup_append hplaces (List.mem_map_of_mem hfield)
    (List.mem_map_of_mem hrest)

/-- Where the fields that are met come from the rest of selections, so does the field that is left
out. -/
theorem Request.Expands.later_leavesOut (hfragments : request.OfFragments (· ≠ field))
    {root : TypeSet} {conditions : List Name} {selection : Selection} {rest : List Selection}
    {occs : List Occurrence} (hrest : request.Expands root conditions rest occs)
    (hplaces : ((fieldsOf (selection :: rest)).map (·.place)).Nodup)
    (hleaves : forest.LeavesOut request field root conditions (selection :: rest))
    (hlater : ((fieldsOf rest).map (·.place)).Nodup →
      forest.LeavesOut request field root conditions rest →
      ∀ occ ∈ occs, field ∈ occ.field.fields →
        occ.field ∈ fieldsOf rest ∧ forest.LeavesOutBelow request field occ.field) :
    ∀ occ ∈ occs, field ∈ occ.field.fields → occ.field ∈ fieldsOf (selection :: rest)
      ∧ forest.LeavesOutBelow request field occ.field := by
  intro occ hocc hfield
  have hmem := hrest.mem_fieldsOf hfragments hocc hfield
  rcases hleaves.first_or_later with ⟨hfirst, -⟩ | h
  · exact absurd hmem (not_mem_rest hplaces hfirst)
  · rw [fieldsOf, List.map_append] at hplaces
    obtain ⟨hupper, hlower⟩ := hlater (List.Nodup.of_append_right hplaces) h occ hocc hfield
    exact ⟨List.mem_append_right _ hupper, hlower⟩

/-- If a field is left out of selections and stands below a field that is met, it is left out
there. -/
theorem Request.Expands.lower_leavesOut (hfragments : request.OfFragments (· ≠ field))
    {root : TypeSet} {conditions : List Name} {selections : List Selection}
    {occs : List Occurrence} (h : request.Expands root conditions selections occs)
    (hplaces : ((fieldsOf selections).map (·.place)).Nodup)
    (hleaves : forest.LeavesOut request field root conditions selections) :
    ∀ occ ∈ occs, field ∈ occ.field.fields →
      occ.field ∈ fieldsOf selections ∧ forest.LeavesOutBelow request field occ.field := by
  induction h with
  | nil => exact fun _ hocc => absurd hocc List.not_mem_nil
  | excluded _ hrest ih => exact hrest.later_leavesOut hfragments hplaces hleaves ih
  | pruned _ hrest ih => exact hrest.later_leavesOut hfragments hplaces hleaves ih
  | @field conditions upper rest others hin hleft hrest ih =>
    intro occ hocc hfield
    rcases List.mem_cons.1 hocc with rfl | hocc
    · have hnot := not_mem_rest hplaces hfield
      cases hleaves with
      | excluded _ hout => exact (false_of_ok hout hin).elim
      | pruned _ hempty => exact absurd (hempty.symm.trans hleft) (by simp)
      | lower hid hnode h =>
        exact ⟨List.mem_append_left _ (Field.mem_fields.2 (.inl rfl)), _, _, hid, hnode, h⟩
      | later h => exact absurd h.mem hnot
    · exact hrest.later_leavesOut hfragments hplaces hleaves ih occ hocc hfield
  | inline hin hinner hrest ihinner ihrest =>
    intro occ hocc hfield
    rcases List.mem_append.1 hocc with hocc | hocc
    · have hmem := hinner.mem_fieldsOf hfragments hocc hfield
      have hnot := not_mem_rest hplaces hmem
      rw [fieldsOf, List.map_append] at hplaces
      cases hleaves with
      | excluded _ hout => exact (false_of_ok hout hin).elim
      | pruned _ hempty =>
        have hnone := TypeSet.isEmpty_iff.1 hempty
        rw [hinner.eq_nil fun type ht => hnone type (left_cons_subset ht)] at hocc
        exact absurd hocc List.not_mem_nil
      | inline h =>
        obtain ⟨hupper, hlower⟩ := ihinner (List.Nodup.of_append_left hplaces) h occ hocc hfield
        exact ⟨List.mem_append_left _ hupper, hlower⟩
      | later h => exact absurd h.mem hnot
    · exact hrest.later_leavesOut hfragments hplaces hleaves ihrest occ hocc hfield
  | spread _ hget _ hinner hrest _ ihrest =>
    intro occ hocc hfield
    rcases List.mem_append.1 hocc with hocc | hocc
    · have hmem := hinner.mem_fieldsOf hfragments hocc hfield
      exact absurd rfl (hfragments _ (List.mem_of_find?_eq_some hget) field hmem)
    · exact hrest.later_leavesOut hfragments hplaces hleaves ihrest occ hocc hfield
  | fragmentExcluded _ _ hrest ih => exact hrest.later_leavesOut hfragments hplaces hleaves ih

mutual

theorem Selection.fields_sublist : ∀ (selection : Selection), field ∈ selection.fields →
    field.fields.Sublist selection.fields
  | .field ⟨_, _, _, _, _, selections⟩, h => by
    rcases List.mem_cons.1 h with rfl | h
    · exact .refl _
    · exact .cons _ (fields_sublist selections h)
  | .inline _ _ selections, h => fields_sublist selections h
  | .spread _ _, h => absurd h List.not_mem_nil

/-- The fields of a field stand together among those that selections write. -/
theorem fields_sublist : ∀ (selections : List Selection), field ∈ fieldsOf selections →
    field.fields.Sublist (fieldsOf selections)
  | [], h => absurd h List.not_mem_nil
  | selection :: selections, h => by
    rcases List.mem_append.1 h with h | h
    · exact (selection.fields_sublist h).trans (List.sublist_append_left _ _)
    · exact (fields_sublist selections h).trans (List.sublist_append_right _ _)

end

/-- A field that is merged into a node is met where the node is listed. -/
theorem Forest.Lists.exists_occurrence {types : TypeSet} {selections : List Selection}
    {ids : List Nat} (h : forest.Lists request types selections ids) {id : Nat} (hid : id ∈ ids)
    {merged : Bundle} (hmerged : forest.merged? id = some merged) {upper : Field}
    (hupper : upper ∈ merged.fields) :
    ∃ occs, request.Expands types [] selections occs ∧ ∃ occ ∈ occs, occ.field = upper := by
  obtain ⟨occs, hexp, -, hshows⟩ := h
  obtain ⟨cls, hcls, _, -, -, hfields⟩ := exists_right hshows hid
  obtain rfl := Option.some.inj (hfields.symm.trans hmerged)
  obtain ⟨occ, hmember, rfl⟩ := OccurrenceClass.mem_fields.1 hupper
  exact ⟨occs, hexp, occ, Schema.mem_of_group hcls hmember, rfl⟩

theorem eq_singleton_of_mem {α : Type} {xs : List α} (h : xs.length ≤ 1) {x : α} (hx : x ∈ xs) :
    xs = [x] := by
  obtain ⟨y, rfl⟩ := List.length_eq_one_iff.1 (Nat.le_antisymm h (List.length_pos_of_mem hx))
  rw [List.mem_singleton.1 hx]

section Owned

variable {operation : Operation} (hplaces : operation.HasPlaces request.fragments)
  (hcollects : forest.Collects request operation)

include hplaces

theorem Operation.HasPlaces.apart_ne (hfield : field ∈ fieldsOf operation.selections) :
    request.OfFragments (· ≠ field) := fun fragment hfragment other hother heq =>
  hplaces.apart field hfield fragment hfragment other hother (congrArg _ heq)

/-- Below a field of an operation, places tell fields apart too. -/
theorem Operation.HasPlaces.distinct_below {upper : Field}
    (hupper : upper ∈ fieldsOf operation.selections) :
    (upper.fields.map (·.place)).Nodup :=
  hplaces.distinct.sublist ((fields_sublist _ hupper).map _)

include hcollects

/-- Only a field of an operation itself is merged in its place. -/
theorem Forest.Collects.eq_of_place (hfield : field ∈ fieldsOf operation.selections) {id : Nat}
    {node : Node} {merged : Bundle} (hnode : forest.node? id = some node)
    (hmerged : forest.merged? id = some merged) {other : Field} (hother : other ∈ merged.fields)
    (hplace : other.place = field.place) : other = field := by
  have hfragments : request.OfFragments fun other => other.place = field.place → other = field :=
    fun fragment hfragment other hother hplace =>
      absurd hplace (hplaces.apart field hfield fragment hfragment other hother)
  have hwritten : ∀ other ∈ fieldsOf operation.selections,
      other.place = field.place → other = field := fun other hother hplace =>
    List.inj_on_of_nodup_map hplaces.distinct hother hfield hplace
  obtain ⟨types, selections, ids, hlevel, hlisted, hid⟩ := hcollects.exists_level hnode
  obtain ⟨occs, hexp, occ, hocc, rfl⟩ := hlisted.exists_occurrence hid hmerged hother
  exact hexp.forall_fields hfragments (hlevel.forall_fields hfragments hwritten) occ hocc occ.field
    (Field.mem_fields.2 (.inl rfl)) hplace

variable (hindexed : forest.IsIndexed) (hwell : forest.IsWellFormed request.schema)
  (honce : ∀ upper ∈ fieldsOf operation.selections, (forest.nodesOf upper).length ≤ 1)

include hindexed hwell honce

/-- If a field is left out of an operation, it is left out below all merged fields that hold it. -/
theorem Forest.Collects.leavesOutBelow (hfield : field ∈ fieldsOf operation.selections)
    (hleaves : forest.LeavesOut request field (request.schema.standsFor operation.rootType) []
      operation.selections) {id : Nat} {node : Node} (hnode : forest.node? id = some node)
    {merged : Bundle} (hmerged : forest.merged? id = some merged) {upper : Field}
    (hupper : upper ∈ merged.fields) (hholds : field ∈ upper.fields) :
    upper ∈ fieldsOf operation.selections ∧ forest.LeavesOutBelow request field upper := by
  have hfragments := hplaces.apart_ne hfield
  refine hcollects.reached (R := fun id => ∀ merged, forest.merged? id = some merged →
    ∀ upper ∈ merged.fields, field ∈ upper.fields →
      upper ∈ fieldsOf operation.selections ∧ forest.LeavesOutBelow request field upper)
    ?_ ?_ hnode merged hmerged upper hupper hholds
  · intro id hid merged hmerged upper hupper hholds
    obtain ⟨types, htypes, hroots⟩ := hcollects.roots
    obtain rfl := Request.types_eq_standsFor htypes
    obtain ⟨occs, hexp, occ, hocc, rfl⟩ := hroots.exists_occurrence hid hmerged hupper
    exact hexp.lower_leavesOut hfragments hplaces.distinct hleaves occ hocc hholds
  · intro id node hnode ih child hchild merged hmerged upper hupper hholds
    obtain ⟨types, pool, htypes, hpool, hlists⟩ :=
      hcollects.below hnode (hcollects.isComposite_of_child hnode hchild)
    obtain rfl := Request.types_eq_standsFor htypes
    obtain ⟨occs, hexp, occ, hocc, rfl⟩ := hlists.exists_occurrence hchild hmerged hupper
    obtain ⟨above, habove, part, hpart, hocc⟩ := hexp.exists_upper hocc
    have hinside := hpart.mem_fieldsOf hfragments hocc hholds
    obtain ⟨hwritten, id', node', hid', hnode', hlower⟩ :=
      ih pool hpool above habove (Field.mem_fields.2 (.inr hinside))
    -- The field above is merged into one node only, so its object types are those of this level.
    have hid : id ∈ forest.nodesOf above :=
      (Forest.mem_nodesOf hindexed hwell).2 ⟨pool, hpool, above, habove, rfl⟩
    rw [eq_singleton_of_mem (honce above hwritten) hid, List.mem_singleton] at hid'
    subst hid'
    obtain rfl := Option.some.inj (hnode.symm.trans hnode')
    have hdistinct : ((fieldsOf above.selections).map (·.place)).Nodup := by
      cases above
      exact (List.nodup_cons.1 (hplaces.distinct_below hwritten)).2
    obtain ⟨hmem, hbelow⟩ :=
      hpart.lower_leavesOut hfragments hdistinct hlower occ hocc hholds
    exact ⟨(fields_sublist _ hwritten).subset (Field.mem_fields.2 (.inr hmem)), hbelow⟩

/-- No node is found for a field of an operation if and only if it is left out. -/
theorem Forest.Collects.nodesOf_eq_nil_iff (hfield : field ∈ fieldsOf operation.selections) :
    forest.nodesOf field = [] ↔ forest.LeavesOut request field
      (request.schema.standsFor operation.rootType) [] operation.selections := by
  constructor
  · intro hnone
    have hunmerged : ¬ forest.HasMerged field := fun ⟨id, merged, hmerged, hmem⟩ => by
      have hid := (Forest.mem_nodesOf hindexed hwell).2 ⟨merged, hmerged, field, hmem, rfl⟩
      exact absurd (hnone ▸ hid) List.not_mem_nil
    obtain ⟨types, htypes, hroots⟩ := hcollects.roots
    obtain rfl := Request.types_eq_standsFor htypes
    have ⟨occs, hexp, _, _⟩ := hroots
    exact leavesOut_of_unmerged (hcollects.mergesBelow hindexed hwell) hunmerged _ hexp
      (hroots.hasMerged hexp) hfield
  · intro hleaves
    refine List.eq_nil_iff_forall_not_mem.2 fun id hid => ?_
    obtain ⟨merged, hmerged, other, hother, hplace⟩ := (Forest.mem_nodesOf hindexed hwell).1 hid
    obtain ⟨node, hnode⟩ := hwell.exists_node hmerged
    obtain rfl := hcollects.eq_of_place hplaces hfield hnode hmerged hother hplace
    obtain ⟨-, _, _, -, -, hbelow⟩ := hcollects.leavesOutBelow hplaces hindexed hwell honce hfield
      hleaves hnode hmerged hother (Field.mem_fields.2 (.inl rfl))
    -- The field does not stand below itself.
    have hdistinct := hplaces.distinct_below hfield
    cases other
    exact (List.nodup_cons.1 hdistinct).1 (List.mem_map_of_mem hbelow.mem)

end Owned

/-- Each field that an operation writes outside of fragments is merged into at most one node, and
there once; and into none if and only if it, or a field or an inline fragment around it, is excluded
or is come to with no object type left. -/
theorem Operation.forestWith_owns {operation : Operation} {schema : Schema} {options : Options}
    {fragments : Fragments} {bindings : Members} {sources : Option TracedInputs} {forest : Forest}
    (hplaces : operation.HasPlaces fragments)
    (h : operation.forestWith schema options fragments bindings sources = .ok forest) :
    ∀ field ∈ fieldsOf operation.selections,
      (forest.nodesOf field).length ≤ 1
      ∧ (∀ id ∈ forest.nodesOf field, ∀ other,
        forest.timesMerged field other = if other = id then 1 else 0)
      ∧ (forest.nodesOf field = [] ↔ forest.LeavesOut ⟨schema, fragments, bindings, sources⟩ field
        (schema.standsFor operation.rootType) [] operation.selections) := by
  let request : Request := ⟨schema, fragments, bindings, sources⟩
  obtain ⟨trees, htrees, rfl⟩ := Operation.forestWith_eq_ok.1 h
  have hwell := Request.grow_isWellFormed htrees
  have hindexed : (Forest.ofTrees trees).IsIndexed := by
    obtain ⟨hranks, hthrough⟩ := Request.grow_ranks htrees
    exact Forest.isIndexed_ofTrees (preorder_ids hranks hthrough)
  have honce : ∀ field ∈ fieldsOf operation.selections,
      ((Forest.ofTrees trees).nodesOf field).length ≤ 1 := fun field hfield => by
    have hfragments : request.OfFragments fun other => decide (other.place = field.place) = false :=
      fun fragment hfragment other hother =>
        decide_eq_false (hplaces.apart field hfield fragment hfragment other hother)
    have hcount := List.nodup_iff_count_le_one.1 hplaces.distinct field.place
    rw [List.count_eq_countP, List.countP_map] at hcount
    rw [Forest.length_nodesOf]
    exact Nat.le_trans (Request.countP_grow_le hfragments htrees) hcount
  intro field hfield
  refine ⟨honce field hfield, fun id hid other => ?_,
    (Request.grow_collects htrees).nodesOf_eq_nil_iff hplaces hindexed hwell honce hfield⟩
  rw [Forest.timesMerged_eq_count hindexed hwell, eq_singleton_of_mem (honce field hfield) hid,
    List.count_singleton]
  exact if_congr (by rw [beq_iff_eq, eq_comm]) rfl rfl

/-! ## A sample

A field below one that is skipped, and a fragment that is spread twice. -/

namespace Owning

/-- `fragment ofThing on Thing { y }` -/
def ofThing : Fragment := ⟨"ofThing", "Thing", [], [.field (Sample.plain 5 "y" [])]⟩

/-- `child { x ...ofThing ...ofThing }` -/
def childOfA : Field :=
  Sample.plain 1 "child" [.field Sample.x, .spread "ofThing" [], .spread "ofThing" []]

/-- `child @skip(if: true) { y }` -/
def childOfB : Field :=
  { Sample.childOfB with directives := [⟨"skip", [⟨"if", .boolean true⟩]⟩] }

/-- The field `node`, with the first field on `A` and the second one on `B`. -/
def operation : Operation :=
  ⟨none, "Query", [], [.field (Sample.plain 0 "node"
    [.inline "A" [] [.field childOfA], .inline "B" [] [.field childOfB]])]⟩

/-- The field `x` is merged once, and the field `y` of the operation is left out. That of the
fragment is merged twice into one node. -/
theorem operation_owns :
    ∃ forest, operation.forestWith Sample.schema {} [ofThing] [] none = .ok forest
      ∧ forest.nodesOf Sample.x = [2]
      ∧ (∀ id, forest.timesMerged Sample.x id = if id = 2 then 1 else 0)
      ∧ forest.LeavesOut ⟨Sample.schema, [ofThing], [], none⟩ Sample.y
        (Sample.schema.standsFor "Query") [] operation.selections
      ∧ forest.nodesOf (Sample.plain 5 "y" []) = [3, 3] := by
  have hplaces : operation.HasPlaces [ofThing] := ⟨by decide +kernel, by decide +kernel⟩
  obtain ⟨forest, hforest, hx, hy, htwice⟩ : ∃ forest,
      operation.forestWith Sample.schema {} [ofThing] [] none = .ok forest
        ∧ forest.nodesOf Sample.x = [2] ∧ forest.nodesOf Sample.y = []
        ∧ forest.nodesOf (Sample.plain 5 "y" []) = [3, 3] := ⟨_, rfl, rfl, rfl, rfl⟩
  have howns := Operation.forestWith_owns hplaces hforest
  have hwritten : fieldsOf operation.selections
      = [Sample.plain 0 "node" [.inline "A" [] [.field childOfA], .inline "B" [] [.field childOfB]],
        childOfA, Sample.x, childOfB, Sample.y] := rfl
  rw [hwritten] at howns
  obtain ⟨-, honce, -⟩ := howns Sample.x (by simp)
  obtain ⟨-, -, hleft⟩ := howns Sample.y (by simp)
  exact ⟨forest, hforest, hx, honce 2 (by simp [hx]), hleft.1 hy, htwice⟩

end Owning

end SelectionForest
