import SelectionForest.Forest.Printer
import SelectionForest.Proofs.Forest.WellFormed

/-!
# The text of a forest

The text is written by going down from the roots, node by node, while the order of a forest comes
from a walk with a stack. Both meet the nodes in pre-order, which is stated on its own
(`Forest.IsPreorder`): a number, all that stands below it, and what comes after it.

* `Traverses.isPreorder`, `IsPreorder.unique`: a walk with a stack lists the nodes in pre-order, and
  there is only one such listing;
* `foldl_writeNode`: what is written for numbers on lines of their own is a line for each node of
  their pre-order, if the level is the one that the nodes keep;
* `Operation.forestWith_render`: the text of the forest of an operation has a line for each node, in
  the order of the forest.
-/

namespace SelectionForest

/-! ## Pre-order -/

namespace Forest

/-- The listing of numbers in pre-order: each one, then what stands below it, then what comes
after. -/
inductive IsPreorder (forest : Forest) : List Nat → List Nat → Prop
  | nil : IsPreorder forest [] []
  | cons {id : Nat} {ids below after : List Nat}
      (hbelow : IsPreorder forest (forest.children id) below)
      (hafter : IsPreorder forest ids after) : IsPreorder forest (id :: ids) (id :: (below ++ after))

variable {forest : Forest}

namespace IsPreorder

theorem unique {ids listing other : List Nat} (h : forest.IsPreorder ids listing)
    (hother : forest.IsPreorder ids other) : listing = other := by
  induction h generalizing other with
  | nil =>
    cases hother
    rfl
  | cons _ _ ihBelow ihAfter =>
    cases hother with
    | cons hbelow hafter => rw [ihBelow hbelow, ihAfter hafter]

/-- What is listed for two runs of numbers is what is listed for each of them. -/
theorem of_append {first second listing : List Nat}
    (h : forest.IsPreorder (first ++ second) listing) :
    ∃ front back, listing = front ++ back
      ∧ forest.IsPreorder first front ∧ forest.IsPreorder second back := by
  induction first generalizing listing with
  | nil => exact ⟨[], listing, rfl, .nil, h⟩
  | cons id first ih =>
    cases h with
    | @cons _ _ below after hbelow hafter =>
      obtain ⟨front, back, rfl, hfront, hback⟩ := ih hafter
      refine ⟨id :: (below ++ front), back, ?_, .cons hbelow hfront, hback⟩
      rw [List.cons_append, List.append_assoc]

end IsPreorder

/-- A walk with a stack lists the nodes in pre-order. -/
theorem Traverses.isPreorder {stack ids : List Nat} (h : forest.Traverses stack ids) :
    forest.IsPreorder stack ids := by
  induction h with
  | done => exact .nil
  | visit _ ih =>
    obtain ⟨below, after, rfl, hbelow, hafter⟩ := ih.of_append
    exact .cons hbelow hafter

end Forest

/-! ## Writing -/

namespace Writer

@[simp]
theorem write_write (w : Writer) (first second : String) :
    (w.write first).write second = w.write (first ++ second) := by
  simp [write, String.append_assoc]

@[simp]
theorem newLine_eq (w : Writer) : w.newLine = w.write ("\n" ++ blanks w.level) := write_write ..

theorem writeLines_cons {α : Type} (writeValue : Writer → α → Writer) (value : α) (values : List α)
    (w : Writer) : w.writeLines writeValue (value :: values)
      = (writeValue w.newLine value).writeLines writeValue values := rfl

/-- What is written below leaves the level as it was. -/
theorem writeBelow_eq {α : Type} {writeValue : Writer → α → Writer} {values : List α} {w : Writer}
    {text : String} (h : w.indent.writeLines writeValue values = w.indent.write text) :
    w.writeBelow writeValue values = w.write text := by
  rw [writeBelow, h]
  rfl

end Writer

/-- The line of a node, which starts with two blanks for each level above it. -/
def Node.line (node : Node) : String := blanks (node.depth - 1) ++ node.render

/-- The lines of nodes, each with a line end in front. -/
def linesAfter (nodes : List Node) : String := String.join (nodes.map ("\n" ++ ·.line))

theorem linesAfter_cons (node : Node) (nodes : List Node) :
    linesAfter (node :: nodes) = "\n" ++ node.line ++ linesAfter nodes := by
  rw [linesAfter, List.map_cons, String.join_cons, linesAfter]

theorem linesAfter_append (nodes others : List Node) :
    linesAfter (nodes ++ others) = linesAfter nodes ++ linesAfter others := by
  rw [linesAfter, List.map_append, String.join_append, linesAfter, linesAfter]

/-- Lines with one line end between two of them. -/
theorem intercalate_lines (node : Node) (nodes : List Node) :
    "\n".intercalate ((node :: nodes).map (·.line)) = node.line ++ linesAfter nodes := by
  induction nodes generalizing node with
  | nil => simp [linesAfter]
  | cons next nodes ih =>
    rw [List.map_cons, List.map_cons, String.intercalate_cons_cons, ← List.map_cons, ih,
      linesAfter_cons, String.append_assoc, String.append_assoc]

namespace Forest

variable {forest : Forest} {schema : Schema}

/-- Whether nodes are those of numbers. -/
def Numbers (forest : Forest) (ids : List Nat) (nodes : List Node) : Prop :=
  List.Forall₂ (fun id node => forest.node? id = some node) ids nodes

/-- Whether numbers stand below a level. -/
def StandBelow (forest : Forest) (level : Nat) (ids : List Nat) : Prop :=
  ∀ id ∈ ids, ∀ node, forest.node? id = some node → node.depth = level + 1

/-- Whether what is written for numbers on lines of their own is a line for each node of a listing,
if the level of the writer is the one above them. -/
def Writes (forest : Forest) (levels : Nat) (ids listing : List Nat) : Prop :=
  ∀ w : Writer, forest.StandBelow w.level ids → ∃ nodes, forest.Numbers listing nodes
    ∧ w.writeLines (forest.writeNode levels) ids = w.write (linesAfter nodes)

section WellFormed

variable (hwell : forest.IsWellFormed schema)

include hwell

/-- The children of a node stand below its level. -/
theorem standBelow_children {id : Nat} {node : Node} (hnode : forest.node? id = some node) :
    forest.StandBelow node.depth (forest.children id) := by
  intro child hchild lower hlower
  rw [children_of_node? hnode] at hchild
  exact (hwell.child_below hnode hlower hchild).2

/-- What is written for a node, and then for others on lines of their own, is the text of the node
and the lines of what stands below it and comes after it. -/
theorem Writes.node {id levels : Nat} {ids below after : List Nat}
    (hbelow : forest.Writes levels (forest.children id) below)
    (hafter : forest.Writes (levels + 1) ids after) {node : Node}
    (hnode : forest.node? id = some node) {w : Writer} (hdepth : node.depth = w.level + 1)
    (hstand : forest.StandBelow w.level ids) :
    ∃ rest, forest.Numbers (below ++ after) rest
      ∧ (forest.writeNode (levels + 1) w id).writeLines (forest.writeNode (levels + 1)) ids
        = w.write (node.render ++ linesAfter rest) := by
  -- The writer goes down one level for the children, as they do.
  have hchildren := standBelow_children hwell hnode
  rw [hdepth] at hchildren
  obtain ⟨lower, hlower, hwritten⟩ := hbelow (w.write node.render).indent hchildren
  have hfirst : forest.writeNode (levels + 1) w id = w.write (node.render ++ linesAfter lower) := by
    rw [writeNode, hnode, Writer.writeBelow_eq hwritten, Writer.write_write]
  obtain ⟨later, hlater, hothers⟩ := hafter (w.write (node.render ++ linesAfter lower)) hstand
  refine ⟨lower ++ later, List.rel_append hlower hlater, ?_⟩
  rw [hfirst, hothers, Writer.write_write, linesAfter_append, String.append_assoc]

/-- Numbers are written as their pre-order says, if no node lies too deep. -/
theorem IsPreorder.writes {ids listing : List Nat} (h : forest.IsPreorder ids listing)
    (hnodes : ∀ id ∈ listing, ∃ node, forest.node? id = some node) {levels : Nat}
    (hlevels : listing.length ≤ levels) : forest.Writes levels ids listing := by
  induction h generalizing levels with
  | nil => exact fun w _ => ⟨[], .nil, by simp [linesAfter, Writer.write, Writer.writeLines]⟩
  | @cons id ids below after _ _ ihBelow ihAfter =>
    intro w hstand
    obtain ⟨⟨node, hnode⟩, hnodes⟩ := List.forall_mem_cons.1 hnodes
    obtain ⟨hbelow, hafter⟩ := List.forall_mem_append.1 hnodes
    obtain ⟨hfirst, hstand⟩ := List.forall_mem_cons.1 hstand
    rw [List.length_cons, List.length_append] at hlevels
    obtain ⟨levels, rfl⟩ := Nat.exists_eq_add_one.2 (Nat.lt_of_lt_of_le (Nat.succ_pos _) hlevels)
    have hdepth := hfirst node hnode
    have hlower : forest.Writes levels (forest.children id) below := ihBelow hbelow (by omega)
    have hlater : forest.Writes (levels + 1) ids after := ihAfter hafter (by omega)
    obtain ⟨rest, hrest, hwritten⟩ := hlower.node hwell hlater hnode (w := w.newLine) hdepth hstand
    have hline : node.line = blanks w.level ++ node.render := by
      rw [Node.line, hdepth, Nat.add_sub_cancel]
    refine ⟨node :: rest, .cons hnode hrest, ?_⟩
    rw [Writer.writeLines_cons, hwritten, Writer.newLine_eq, Writer.write_write, linesAfter_cons,
      hline]
    simp only [String.append_assoc]

theorem exists_node_of_order : ∀ id ∈ forest.order, ∃ node, forest.node? id = some node := by
  intro id hid
  have hlt : id < forest.nodes.length := List.mem_range.1 (hwell.complete.subset hid)
  exact ⟨forest.nodes[id], List.getElem?_eq_getElem hlt⟩

/-- The roots stand at the outermost level. -/
theorem standBelow_roots : forest.StandBelow 0 forest.roots := by
  intro id hroot node hnode
  obtain ⟨root, hfound, hparent⟩ := hwell.root_iff.1 hroot
  obtain rfl := Option.some.inj (hfound.symm.trans hnode)
  exact hwell.root_depth hnode hparent

theorem depth_pos {id : Nat} {node : Node} (hnode : forest.node? id = some node) :
    0 < node.depth := by
  cases hparent : node.parent with
  | none =>
    rw [hwell.root_depth hnode hparent]
    exact Nat.one_pos
  | some upper =>
    have hchild : id ∈ forest.children upper := by
      rw [hwell.child_iff, parent?, hnode]
      exact hparent
    obtain ⟨above, habove⟩ : ∃ above, forest.node? upper = some above := by
      unfold children at hchild
      split at hchild
      · exact ⟨_, ‹_›⟩
      · exact absurd hchild List.not_mem_nil
    rw [standBelow_children hwell habove id hchild node hnode]
    exact Nat.succ_pos _

/-- The text of a forest has a line for each node, in the order of the forest. -/
theorem render_eq : ∃ nodes, forest.Numbers forest.order nodes
    ∧ forest.render = "\n".intercalate (nodes.map (·.line)) := by
  have hlength : forest.order.length = forest.size := by
    rw [hwell.complete.length_eq, List.length_range]
  have hnodes := exists_node_of_order hwell
  have hstand := standBelow_roots hwell
  have hpre := hwell.ends.isPreorder
  generalize forest.order = order at hlength hnodes hpre ⊢
  unfold render
  cases hroots : forest.roots with
  | nil =>
    rw [hroots] at hpre
    cases hpre
    exact ⟨[], .nil, rfl⟩
  | cons first rest =>
    rw [hroots] at hpre hstand
    cases hpre with
    | @cons _ _ below after hbelow hafter =>
      obtain ⟨⟨node, hnode⟩, hnodes⟩ := List.forall_mem_cons.1 hnodes
      obtain ⟨hbelowNodes, hafterNodes⟩ := List.forall_mem_append.1 hnodes
      obtain ⟨hfirst, hstand⟩ := List.forall_mem_cons.1 hstand
      rw [List.length_cons, List.length_append] at hlength
      obtain ⟨levels, hlevels⟩ := Nat.exists_eq_add_one.2 (show 0 < forest.size by omega)
      rw [hlevels] at hlength ⊢
      have hlower : forest.Writes levels (forest.children first) below :=
        hbelow.writes hwell hbelowNodes (by omega)
      have hlater : forest.Writes (levels + 1) rest after :=
        hafter.writes hwell hafterNodes (by omega)
      -- The first root is written on the line that is there already.
      have hdepth := hfirst node hnode
      obtain ⟨lines, hlines, hwritten⟩ :=
        hlower.node hwell hlater hnode (w := .empty) hdepth hstand
      have hline : node.line = node.render := by
        rw [Node.line, hdepth]
        exact String.empty_append
      refine ⟨node :: lines, .cons hnode hlines, ?_⟩
      dsimp only
      rw [hwritten, intercalate_lines, hline]
      exact String.empty_append

end WellFormed

end Forest

/-- The text of the forest of an operation has a line for each node, in the order of the forest,
with one line end between two of them. That order lists the roots in pre-order, and nothing else
does. -/
theorem Operation.forestWith_render {operation : Operation} {schema : Schema} {options : Options}
    {fragments : Fragments} {bindings : Members} {sources : Option TracedInputs} {forest : Forest}
    (h : operation.forestWith schema options fragments bindings sources = .ok forest) :
    (∃ nodes, forest.Numbers forest.order nodes ∧ (∀ node ∈ nodes, 0 < node.depth)
        ∧ forest.render = "\n".intercalate (nodes.map (·.line)))
      ∧ (forest.isEmpty = true → forest.render = "")
      ∧ ∀ listing, forest.IsPreorder forest.roots listing ↔ forest.order = listing := by
  obtain ⟨trees, htrees, rfl⟩ := Operation.forestWith_eq_ok.1 h
  have hwell := Request.grow_isWellFormed htrees
  have hpre := hwell.ends.isPreorder
  obtain ⟨nodes, hnumbers, hrender⟩ := Forest.render_eq hwell
  refine ⟨⟨nodes, hnumbers, fun node hnode => ?_, hrender⟩, fun hempty => ?_, fun listing =>
    ⟨fun hlisting => hpre.unique hlisting, fun heq => heq ▸ hpre⟩⟩
  · obtain ⟨id, -, hid⟩ := exists_left hnumbers hnode
    exact Forest.depth_pos hwell hid
  · have hlength := hnumbers.length_eq
    rw [hwell.complete.length_eq, List.length_range, Forest.size,
      List.isEmpty_iff.1 hempty, List.length_nil, eq_comm, List.length_eq_zero_iff] at hlength
    rw [hrender, hlength]
    rfl

namespace Sample

/-- The sample has a line for each of its four nodes, which the walk meets by their numbers. -/
theorem forest_render :
    (∃ nodes, forest.Numbers forest.order nodes ∧ (∀ node ∈ nodes, 0 < node.depth)
        ∧ forest.render = "\n".intercalate (nodes.map (·.line)))
      ∧ (forest.isEmpty = true → forest.render = "")
      ∧ ∀ listing, forest.IsPreorder forest.roots listing ↔ forest.order = listing :=
  Operation.forestWith_render forest_eq

example : forest.render = "Query.node\n  [A, B].child\n    Thing.x\n    Thing.y" := by decide

end Sample

end SelectionForest
