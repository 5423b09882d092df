import Mathlib.Order.Lattice.Nat
import SelectionForest.Proofs.Forest.Bounds
import SelectionForest.Proofs.Forest.WellFormed
import SelectionForest.Proofs.Rewriting.Inlining

/-!
# How deep forests are

The depth of selections is the least number of levels that their fields nest within, those of spread
fragments included (`Fragments.fieldDepth`). It is the depth of the fields themselves once all
fragments stand in the place of their spreads (`Inlines.fieldDepth_eq`). No node of a forest stands
deeper than the fields of its operation do (`depth_le_fieldDepth`).
-/

namespace SelectionForest

mutual

/-- How many fields stand one inside the other in a selection. Spreads hold none. -/
def Selection.fieldDepth : Selection → Nat
  | .field field => field.fieldDepth
  | .inline _ _ selections => fieldDepthOf selections
  | .spread _ _ => 0

/-- How many fields stand one inside the other in a field, itself included. -/
def Field.fieldDepth : Field → Nat
  | ⟨_, _, _, _, _, selections⟩ => fieldDepthOf selections + 1

/-- How many fields stand one inside the other in selections. -/
def fieldDepthOf : List Selection → Nat
  | [] => 0
  | selection :: selections => max selection.fieldDepth (fieldDepthOf selections)

end

theorem fieldDepthOf_field (field : Field) (selections : List Selection) :
    fieldDepthOf (.field field :: selections)
      = max (fieldDepthOf field.selections + 1) (fieldDepthOf selections) := by
  cases field
  rfl

namespace Fragments

variable {fragments : Fragments} {levels : Nat} {selections others : List Selection}

/-- How many fields stand one inside the other in selections, those of spread fragments included. -/
noncomputable def fieldDepth (fragments : Fragments) (selections : List Selection) : Nat :=
  sInf {levels | fragments.NestsWithin levels selections}

/-- Selections that nest within any number of levels nest within their depth. -/
theorem NestsWithin.fieldDepth (h : fragments.NestsWithin levels selections) :
    fragments.NestsWithin (fragments.fieldDepth selections) selections := by
  have hsome : {levels | fragments.NestsWithin levels selections}.Nonempty := ⟨levels, h⟩
  exact Nat.sInf_mem hsome

theorem AreAcyclic.nestsWithin_fieldDepth (hacyclic : fragments.AreAcyclic)
    (selections : List Selection) :
    fragments.NestsWithin (fragments.fieldDepth selections) selections :=
  (hacyclic.nestsWithin selections).fieldDepth

/-- Selections nest within the levels that they have with fragments in place of their spreads. -/
theorem Inlines.nestsWithin_iff (h : fragments.Inlines selections others) :
    fragments.NestsWithin levels selections ↔ fieldDepthOf others ≤ levels := by
  induction h generalizing levels with
  | nil => exact iff_of_true .nil (Nat.zero_le _)
  | field _ _ _ _ ihbelow ihrest =>
    rw [fieldDepthOf_field, Nat.max_le]
    constructor
    · rintro (_ | ⟨hbelow, hrest⟩)
      exact ⟨Nat.succ_le_succ (ihbelow.1 hbelow), ihrest.1 hrest⟩
    · rintro ⟨hbelow, hrest⟩
      obtain ⟨levels, rfl⟩ : ∃ n, levels = n + 1 := ⟨levels - 1, by omega⟩
      exact .field (ihbelow.2 (Nat.le_of_succ_le_succ hbelow)) (ihrest.2 hrest)
  | inline _ _ ihinner ihrest =>
    rw [fieldDepthOf, Nat.max_le, Selection.fieldDepth, ← ihinner, ← ihrest]
    constructor
    · rintro (_ | _ | ⟨hinner, hrest⟩)
      exact ⟨hinner, hrest⟩
    · exact fun ⟨hinner, hrest⟩ => .inline hinner hrest
  | spread hget _ _ ihinner ihrest =>
    rw [fieldDepthOf, Nat.max_le, Selection.fieldDepth, ← ihinner, ← ihrest]
    constructor
    · rintro (_ | _ | _ | ⟨hfragment, hrest⟩)
      exact ⟨hfragment _ hget, hrest⟩
    · rintro ⟨hinner, hrest⟩
      refine .spread (fun other hother => ?_) hrest
      exact Option.some.inj (hget.symm.trans hother) ▸ hinner

/-- The depth of selections is that of their fields with fragments in place of their spreads. -/
theorem Inlines.fieldDepth_eq (h : fragments.Inlines selections others) :
    fragments.fieldDepth selections = fieldDepthOf others := by
  have hown : fragments.NestsWithin (fieldDepthOf others) selections :=
    h.nestsWithin_iff.2 (Nat.le_refl _)
  exact Nat.le_antisymm (Nat.sInf_le hown) (h.nestsWithin_iff.1 hown.fieldDepth)

end Fragments

/-! ## The depth of nodes -/

section Nodes

variable {request : Request} {operation : Operation} {forest : Forest} {levels : Nat}

/-- What is below the nodes of a level nests less deep than the selections of the level. -/
theorem Forest.Lists.nestsWithin {types : TypeSet} {selections : List Selection} {ids : List Nat}
    (h : forest.Lists request types selections ids)
    (hnests : request.fragments.NestsWithin levels selections) {id : Nat} (hid : id ∈ ids) :
    ∃ below merged, levels = below + 1 ∧ forest.merged? id = some merged
      ∧ request.fragments.NestsWithin below (merged.fields.flatMap (·.selections)) := by
  obtain ⟨occs, hexp, -, hshows⟩ := h
  obtain ⟨cls, hcls, _, -, -, hmerged⟩ := exists_right hshows hid
  obtain ⟨below, hlevels, hbelow⟩ := hexp.nestsWithin_class hnests hcls
  exact ⟨below, cls.fields, hlevels, hmerged, hbelow⟩

/-- A node leaves so many levels to what is below it as its depth does not use up. -/
theorem Forest.Collects.depth_add_eq (hcollects : forest.Collects request operation)
    (hwell : forest.IsWellFormed request.schema)
    (hnests : request.fragments.NestsWithin levels operation.selections) {id : Nat} {node : Node}
    (hnode : forest.node? id = some node) :
    ∃ below merged, node.depth + below = levels ∧ forest.merged? id = some merged
      ∧ request.fragments.NestsWithin below (merged.fields.flatMap (·.selections)) := by
  refine hcollects.reached (R := fun id => ∀ node, forest.node? id = some node →
    ∃ below merged, node.depth + below = levels ∧ forest.merged? id = some merged
      ∧ request.fragments.NestsWithin below (merged.fields.flatMap (·.selections)))
    ?_ ?_ hnode node hnode
  · intro id hid node hnode
    obtain ⟨types, -, hroots⟩ := hcollects.roots
    obtain ⟨below, merged, rfl, hmerged, hbelow⟩ := hroots.nestsWithin hnests hid
    obtain ⟨root, hroot, hparent⟩ := hwell.root_iff.1 hid
    obtain rfl := Option.some.inj (hroot.symm.trans hnode)
    refine ⟨below, merged, ?_, hmerged, hbelow⟩
    rw [hwell.root_depth hnode hparent, Nat.add_comm]
  · intro id node hnode ih child hchild lower hlower
    obtain ⟨upto, upper, hlevels, hupper, hnests⟩ := ih node hnode
    obtain ⟨_, merged, -, hmerged, hlists⟩ :=
      hcollects.below hnode (hcollects.isComposite_of_child hnode hchild)
    obtain rfl := Option.some.inj (hupper.symm.trans hmerged)
    obtain ⟨below, fields, rfl, hfields, hbelow⟩ := hlists.nestsWithin hnests hchild
    refine ⟨below, fields, ?_, hfields, hbelow⟩
    rw [(hwell.child_below hnode hlower hchild).2, ← hlevels]
    omega

end Nodes

/-- No node stands deeper than the fields of its operation do, with fragments in place of their
spreads. -/
theorem Operation.depth_le_fieldDepth {operation : Operation} {schema : Schema} {options : Options}
    {fragments : Fragments} {bindings : Members} {sources : Option TracedInputs} {forest : Forest}
    (h : operation.forestWith schema options fragments bindings sources = .ok forest)
    (hacyclic : fragments.AreAcyclic) {node : Node} (hnode : node ∈ forest.nodes) :
    node.depth ≤ fragments.fieldDepth operation.selections := by
  obtain ⟨trees, htrees, rfl⟩ := Operation.forestWith_eq_ok.1 h
  obtain ⟨id, hid⟩ := List.mem_iff_getElem?.1 hnode
  obtain ⟨below, _, hdepth, -⟩ := (Request.grow_collects htrees).depth_add_eq
    (Request.grow_isWellFormed htrees) (hacyclic.nestsWithin_fieldDepth operation.selections) hid
  exact hdepth ▸ Nat.le_add_right _ _

end SelectionForest
