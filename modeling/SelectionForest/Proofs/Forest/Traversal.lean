import SelectionForest.Proofs.Forest.Numbering

/-!
# Going through a forest

A walk with a stack takes the number on top of the stack, and puts the children of that node in its
place; it ends when the stack is empty (`Forest.Traverses`). This relation has no bound on the
number of steps.

* `orderFrom_of_traverses`: with as many steps as it has numbers, or more, the bounded walk ends,
  and gives the same numbers;
* `Traverses.child_later`: whatever is met, its children are met behind it;
* `traverses_roots`, `order_ofTrees`: from the roots of a forest the walk ends, and meets the nodes
  as the trees have them in pre-order.
-/

namespace SelectionForest

namespace Forest

/-- Whether a walk with a stack ends, and which numbers it meets on the way. -/
inductive Traverses (forest : Forest) : List Nat → List Nat → Prop
  | done : Traverses forest [] []
  | visit {id : Nat} {stack ids : List Nat}
      (h : Traverses forest (forest.children id ++ stack) ids) :
      Traverses forest (id :: stack) (id :: ids)

variable {forest : Forest}

namespace Traverses

/-- What is on the stack is met, in this order. -/
theorem stack_sublist {stack ids : List Nat} (h : Traverses forest stack ids) :
    stack.Sublist ids := by
  induction h with
  | done => exact .slnil
  | visit _ ih => exact .cons_cons _ ((List.sublist_append_right _ _).trans ih)

/-- Whatever is met, its children are met behind it. -/
theorem child_later {stack ids : List Nat} (h : Traverses forest stack ids) {parent child : Nat}
    (hparent : parent ∈ ids) (hchild : child ∈ forest.children parent) :
    [parent, child].Sublist ids := by
  induction h with
  | done => exact absurd hparent List.not_mem_nil
  | visit h ih =>
    rcases List.mem_cons.1 hparent with rfl | hparent
    · have hmet := h.stack_sublist.subset (List.mem_append_left _ hchild)
      exact .cons_cons _ (List.singleton_sublist.2 hmet)
    · exact .cons _ (ih hparent)

end Traverses

/-- A bound that is no less than the length of the walk does not cut it short. -/
theorem orderFrom_of_traverses {stack ids : List Nat} (h : Traverses forest stack ids) {steps : Nat}
    (hsteps : ids.length ≤ steps) : forest.orderFrom steps stack = ids := by
  induction h generalizing steps with
  | done => cases steps <;> rfl
  | visit _ ih =>
    obtain ⟨steps, rfl⟩ := Nat.exists_eq_add_of_lt (Nat.lt_of_lt_of_le (Nat.zero_lt_succ _) hsteps)
    rw [Nat.zero_add, orderFrom, ih (Nat.le_of_succ_le_succ (by simpa using hsteps))]

end Forest

/-! ## Along the trees -/

mutual

theorem Tree.number_traverses {forest : Forest} {nodes : List NumberedNode}
    (hchildren : ∀ n ∈ nodes, forest.children n.id = n.node.children) :
    ∀ (tree : Tree) {parent : Option Nat} {depth start next : Nat} {stack ids : List Nat},
    tree.number parent depth start next ⊆ nodes → forest.Traverses stack ids →
    forest.Traverses ((start + tree.rank) :: stack)
      ((tree.number parent depth start next).map (·.id) ++ ids)
  | ⟨cluster, rank, children⟩, parent, depth, start, next, stack, ids, hsub, h => by
    rw [Tree.number] at hsub ⊢
    obtain ⟨hfirst, hrest⟩ := List.cons_subset.1 hsub
    refine .visit ?_
    rw [hchildren _ hfirst]
    exact numberLevel_traverses hchildren children hrest h

/-- A walk that has the trees of a level on top of the stack meets their nodes in pre-order, and
goes on with the rest of the stack. -/
theorem numberLevel_traverses {forest : Forest} {nodes : List NumberedNode}
    (hchildren : ∀ n ∈ nodes, forest.children n.id = n.node.children) :
    ∀ (trees : List Tree) {parent : Option Nat} {depth start next : Nat} {stack ids : List Nat},
    numberLevel parent depth start next trees ⊆ nodes → forest.Traverses stack ids →
    forest.Traverses (trees.map (start + ·.rank) ++ stack)
      ((numberLevel parent depth start next trees).map (·.id) ++ ids)
  | [], _, _, _, _, _, _, _, h => by
    rw [numberLevel]
    exact h
  | tree :: trees, parent, depth, start, next, stack, ids, hsub, h => by
    rw [numberLevel] at hsub ⊢
    obtain ⟨htree, hrest⟩ := List.append_subset.1 hsub
    rw [List.map_append, List.append_assoc]
    exact Tree.number_traverses hchildren tree htree
      (numberLevel_traverses hchildren trees hrest h)

end

namespace Forest

variable {trees : List Tree} (hids : ((preorderOf trees).map (·.id)).Perm
  (List.range (preorderOf trees).length))

include hids

theorem children_of_mem {n : NumberedNode} (hn : n ∈ preorderOf trees) :
    (ofTrees trees).children n.id = n.node.children := by
  rw [children, (node?_of_mem hids hn).1]

/-- From the roots of a forest the walk ends, and meets the nodes in pre-order. -/
theorem traverses_roots :
    (ofTrees trees).Traverses (ofTrees trees).roots ((preorderOf trees).map (·.id)) := by
  have h : (ofTrees trees).Traverses (trees.map (0 + ·.rank) ++ [])
      ((preorderOf trees).map (·.id) ++ []) :=
    numberLevel_traverses (fun _ hn => children_of_mem hids hn) trees (List.Subset.refl _) .done
  simp only [Nat.zero_add, List.append_nil] at h
  exact h

theorem size_ofTrees : (ofTrees trees).size = (preorderOf trees).length := by
  have hlength := congrArg List.length (sortByNumber_ids hids)
  rw [List.length_map, List.length_range] at hlength
  exact (List.length_map ..).trans hlength

theorem order_ofTrees : (ofTrees trees).order = (preorderOf trees).map (·.id) := by
  refine orderFrom_of_traverses (traverses_roots hids) ?_
  rw [List.length_map, size_ofTrees hids]

end Forest

end SelectionForest
