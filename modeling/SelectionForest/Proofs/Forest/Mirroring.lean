import SelectionForest.Proofs.Forest.Bounds
import SelectionForest.Proofs.Forest.Building
import SelectionForest.Proofs.Forest.Relating
import SelectionForest.Proofs.Level.Mirroring

/-!
# Forests of two documents

If the fields of two documents are paired so that the steps below paired fields are paired again
(`Request.Mirrors`), then the forests of their operations have the same nodes, the same roots and
the same index by coordinates (`Forest.Mirrors`), or the operations are refused with the same error
(`forestWith_mirrors`). The two requests differ in their fragments, and so may the bounds that their
walks and their growth take.

* `Mirrors.relates`, `growLevel_mirrors`: levels keep clusters paired, and so does growth;
* `ofTrees_mirrors`: paired trees make paired forests.
-/

namespace SelectionForest

/-! ## Trees -/

mutual

/-- Whether two trees are the same, but for the fields that are paired. -/
def Tree.Mirrors (pairing : Pairing) : Tree → Tree → Prop
  | ⟨cluster, rank, children⟩, ⟨cluster', rank', children'⟩ =>
    cluster.Mirrors pairing cluster' ∧ rank' = rank ∧ treesMirror pairing children children'

/-- Whether trees are the same one by one, but for the fields that are paired. -/
def treesMirror (pairing : Pairing) : List Tree → List Tree → Prop
  | [], [] => True
  | tree :: trees, tree' :: trees' => tree.Mirrors pairing tree' ∧ treesMirror pairing trees trees'
  | _, _ => False

end

variable {pairing : Pairing}

mutual

theorem Tree.mirrors_iff : ∀ (tree other : Tree),
    tree.Mirrors pairing other ↔ tree.Related (Cluster.Mirrors pairing) other
  | ⟨_, _, children⟩, ⟨_, _, others⟩ =>
    and_congr_right fun _ => and_congr_right fun _ => treesMirror_iff children others

/-- Trees that are paired are related by their clusters. -/
theorem treesMirror_iff : ∀ (trees others : List Tree),
    treesMirror pairing trees others ↔ treesRelated (Cluster.Mirrors pairing) trees others
  | [], [] => Iff.rfl
  | [], _ :: _ => Iff.rfl
  | _ :: _, [] => Iff.rfl
  | tree :: trees, other :: others =>
    and_congr (Tree.mirrors_iff tree other) (treesMirror_iff trees others)

end

namespace Request

variable {request : Request} {options : Options} {fragments : Fragments}

/-- The same request with other fragments. -/
def spreading (request : Request) (fragments : Fragments) : Request :=
  { request with fragments := fragments }

theorem fragments_spreading (request : Request) (fragments : Fragments) :
    (request.spreading fragments).fragments = fragments := rfl

/-- Fragments in place of as many others may be entered as deep. -/
theorem nestingBound_spreading (h : fragments.length = request.fragments.length)
    (types : TypeSet) :
    (request.spreading fragments).nestingBound types = request.nestingBound types := by
  rw [nestingBound, nestingBound, ← h]
  rfl

/-- Whether a pairing of fields is kept by what is below them: the steps below paired fields are
paired, and so are those below a field and its copy. -/
structure Mirrors (request : Request) (pairing : Pairing) (fragments : Fragments) : Prop where
  matched : ∀ {field other}, pairing.matched field other → ∀ types,
    pairing.Steps (request.steps types field.selections)
      ((request.spreading fragments).steps types other.selections)
  copied : ∀ {field copy}, pairing.copied field copy → ∀ types,
    pairing.CopiedSteps ((request.spreading fragments).steps types field.selections)
      ((request.spreading fragments).steps types copy.selections)

theorem level_mirrors {types : TypeSet} {sets others : List (List Selection)}
    (h : pairing.Steps (request.steps types sets.flatten)
      ((request.spreading fragments).steps types others.flatten)) :
    Agree (List.Forall₂ (Cluster.Mirrors pairing)) (request.level types sets)
      ((request.spreading fragments).level types others) := by
  rw [level_eq_visitSteps, level_eq_visitSteps]
  exact visitSteps_mirrors h

/-- The steps below paired fields, taken together, are paired. -/
theorem Mirrors.flatMap (hrequest : request.Mirrors pairing fragments) {fields others : List Field}
    (h : pairing.Fields fields others) (types : TypeSet) :
    pairing.Steps (request.steps types (fields.flatMap (·.selections)))
      ((request.spreading fragments).steps types (others.flatMap (·.selections))) := by
  rw [steps_flatMap, steps_flatMap]
  exact Padded.flatMap (fun _ _ hmatched => hrequest.matched hmatched types)
    (fun _ _ hcopied => hrequest.copied hcopied types) h

/-- The steps below paired clusters are paired. -/
theorem Mirrors.below (hrequest : request.Mirrors pairing fragments) {cluster other : Cluster}
    (h : cluster.Mirrors pairing other) (types : TypeSet) :
    pairing.Steps (request.steps types cluster.selectionSets.flatten)
      ((request.spreading fragments).steps types other.selectionSets.flatten) := by
  rw [cluster.flatten_selectionSets, other.flatten_selectionSets]
  exact hrequest.flatMap h.fields types

/-- Paired steps make paired clusters, with paired steps below them. -/
theorem Mirrors.relates (hrequest : request.Mirrors pairing fragments) :
    request.Relates (request.spreading fragments) False (Cluster.Mirrors pairing)
      fun types selections others => pairing.Steps (request.steps types selections)
        ((request.spreading fragments).steps types others) where
  schema := rfl
  type h := h.type
  responseKey h := (pairing.matched_head h.first).responseKey
  level h := (level_mirrors h).unless False
  below h _ := hrequest.below h _

/-- The trees of a level are paired if the steps of its selection sets are. -/
theorem growLevel_mirrors (hrequest : request.Mirrors pairing fragments) {levels depth : Nat}
    {types : TypeSet} {sets others : List (List Selection)}
    (h : pairing.Steps (request.steps types sets.flatten)
      ((request.spreading fragments).steps types others.flatten)) :
    Agree (treesMirror pairing) (request.growLevel options levels depth types sets)
      ((request.spreading fragments).growLevel options levels depth types others) := by
  have hrelated : AgreeUnless False (treesRelated (Cluster.Mirrors pairing))
      (request.growLevel options levels depth types sets)
      ((request.spreading fragments).growLevel options levels depth types others) :=
    growLevel_related hrequest.relates h
  exact (hrelated.agree id).imp fun trees others => (treesMirror_iff trees others).2

/-- The trees of two operations are paired if the steps of their selection sets are. -/
theorem grow_mirrors (hrequest : request.Mirrors pairing fragments)
    (hacyclic : request.fragments.AreAcyclic) (hacyclic' : fragments.AreAcyclic)
    {operation other : Operation} (hroot : other.rootType = operation.rootType)
    (h : ∀ types, pairing.Steps (request.steps types operation.selections)
      ((request.spreading fragments).steps types other.selections)) :
    Agree (treesMirror pairing) (request.grow options operation)
      ((request.spreading fragments).grow options other) := by
  rw [grow, grow, hroot]
  refine .bind_left (request.typesOf _) fun types => .bind_left _ fun _ => ?_
  have hlevels (levels : Nat) : Agree (treesMirror pairing)
      (request.growLevel options levels 1 types [operation.selections])
      ((request.spreading fragments).growLevel options levels 1 types [other.selections]) := by
    refine growLevel_mirrors hrequest ?_
    rw [List.flatten_singleton, List.flatten_singleton]
    exact h types
  cases hlimit : options.depthLimit with
  | some limit =>
    rw [levelBound, levelBound, hlimit]
    exact hlevels (limit + 1)
  | none =>
    obtain ⟨nesting, hnesting⟩ := growLevel_levelBound hacyclic hlimit operation.selections
    have hothers : (request.spreading fragments).fragments.AreAcyclic := hacyclic'
    obtain ⟨nesting', hnesting'⟩ := growLevel_levelBound hothers hlimit other.selections
    rw [hnesting (nesting + nesting' + 1) 1 types (by omega),
      hnesting' (nesting + nesting' + 1) 1 types (by omega)]
    exact hlevels _

end Request

/-! ## Numbers -/

/-- Whether two numbered nodes are the same, but for the merged fields, which are paired. -/
structure NumberedNode.Mirrors (pairing : Pairing) (n other : NumberedNode) : Prop where
  id : other.id = n.id
  node : other.node = n.node
  merged : pairing.Fields n.merged.fields other.merged.fields

theorem NumberedNode.Related.mirrors {n m : NumberedNode}
    (h : n.Related (Cluster.Mirrors pairing) m) : n.Mirrors pairing m := by
  obtain ⟨cluster, cluster', hcluster, hn, hm⟩ := h.clusters
  refine ⟨h.id, h.node_eq fun hmirrors => hmirrors.sameNode, ?_⟩
  rw [hn.merged, hm.merged]
  exact hcluster.fields

/-! ## Forests -/

/-- Whether two forests differ in the merged fields and their places only, and the merged fields are
paired. -/
structure Forest.Mirrors (pairing : Pairing) (forest other : Forest) : Prop
    extends Forest.HasNodesOf forest other where
  merged : List.Forall₂ (fun bundle bundle' => pairing.Fields bundle.fields bundle'.fields)
    forest.merged other.merged
  /-- If places are kept, the index by places has all that it had, in the same order. -/
  byPlace : (∀ {field other}, pairing.matched field other → other.place = field.place) →
    ∀ place, (forest.byPlace.getAll place).Sublist (other.byPlace.getAll place)

/-- Whether two forests differ in the merged fields and their places only. The merged fields are
related one by one. -/
structure Forest.IsLike (R : Field → Field → Prop) (forest other : Forest) : Prop
    extends Forest.HasNodesOf forest other where
  merged : List.Forall₂ (fun bundle bundle' => List.Forall₂ R bundle.fields bundle'.fields)
    forest.merged other.merged

theorem Forest.IsLike.imp {R S : Field → Field → Prop} {forest other : Forest}
    (h : forest.IsLike R other) (hRS : ∀ field other, R field other → S field other) :
    forest.IsLike S other where
  toHasNodesOf := h.toHasNodesOf
  merged := h.merged.imp fun _ _ hfields => hfields.imp hRS

/-- Without copies, forests that are paired are alike. -/
theorem Forest.Mirrors.isLike {forest other : Forest} (h : forest.Mirrors pairing other)
    (hnone : ∀ field copy, ¬ pairing.copied field copy) : forest.IsLike pairing.matched other where
  toHasNodesOf := h.toHasNodesOf
  merged := h.merged.imp fun _ _ hfields => hfields.forall₂ hnone

/-- The places of the merged fields of nodes, each with the number of its node, are kept where paired
fields have the same place. -/
theorem placesOf_sublist
    (hplaces : ∀ {field other}, pairing.matched field other → other.place = field.place)
    {nodes others : List NumberedNode}
    (h : List.Forall₂ (NumberedNode.Mirrors pairing) nodes others) :
    (nodes.flatMap fun n => n.merged.fields.map fun field => (field.place, n.id)).Sublist
      (others.flatMap fun n => n.merged.fields.map fun field => (field.place, n.id)) := by
  induction h with
  | nil => exact .slnil
  | @cons n other _ _ hn _ ih =>
    rw [List.flatMap_cons, List.flatMap_cons, hn.id]
    refine List.Sublist.append (hn.merged.sublist_map fun field other hmatched => ?_) ih
    rw [hplaces hmatched]

theorem Forest.ofTrees_mirrors {trees others : List Tree} (h : treesMirror pairing trees others) :
    (Forest.ofTrees trees).Mirrors pairing (Forest.ofTrees others) := by
  have hrelated := (treesMirror_iff trees others).1 h
  have hpreorder : List.Forall₂ (NumberedNode.Mirrors pairing) (preorderOf trees)
      (preorderOf others) := (preorder_related hrelated).imp fun _ _ hn => hn.mirrors
  have hsorted := sortByNumber_rel NumberedNode.Mirrors.id hpreorder
  refine ⟨ofTrees_hasNodesOf (fun hmirrors => hmirrors.sameNode) hrelated, ?_, fun hplaces place => ?_⟩
  · exact List.rel_map (fun _ _ hn => hn.merged) hsorted
  · show ((OrderedMap.pushAll _).getAll place).Sublist ((OrderedMap.pushAll _).getAll place)
    rw [OrderedMap.getAll_pushAll, OrderedMap.getAll_pushAll]
    exact ((placesOf_sublist hplaces hpreorder).filter _).map _

/-- The forests of two operations are paired if the steps of their selection sets are, and the
operations are refused with the same error otherwise. -/
theorem Operation.forestWith_mirrors {schema : Schema} {options : Options}
    {fragments others : Fragments} {bindings : Members} {sources : Option TracedInputs}
    (hrequest : Request.Mirrors ⟨schema, fragments, bindings, sources⟩ pairing others)
    (hacyclic : fragments.AreAcyclic) (hacyclic' : others.AreAcyclic) {operation other : Operation}
    (hroot : other.rootType = operation.rootType)
    (h : ∀ types, pairing.Steps
      (Request.steps ⟨schema, fragments, bindings, sources⟩ types operation.selections)
      (Request.steps ⟨schema, others, bindings, sources⟩ types other.selections)) :
    Agree (Forest.Mirrors pairing)
      (operation.forestWith schema options fragments bindings sources)
      (other.forestWith schema options others bindings sources) := by
  rw [forestWith_eq_grow, forestWith_eq_grow]
  exact (Request.grow_mirrors hrequest hacyclic hacyclic' hroot h).bind fun _ _ htrees =>
    .ok (Forest.ofTrees_mirrors htrees)

end SelectionForest
