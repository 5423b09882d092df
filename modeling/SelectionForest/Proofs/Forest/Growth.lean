import SelectionForest.Forest.Tree
import SelectionForest.Proofs.Forest.Numbering
import SelectionForest.Proofs.Level.Merging

/-!
# What grows

Growth that succeeds has put a level below each cluster whose type is composite, and nothing below
any other (`Request.Grown`). A level consists of trees for the clusters that its walks make, in the
order of `Level.grouped` (`Request.LevelOf`).

* `growLevel_grown`: this holds for the trees of a level, and throughout each of them;
* `LevelOf.gathers`: the trees of a level gather the classes of the occurrences that are met;
* `grow_grown`, `grow_ranks`: all trees of an operation are grown, and have ranks level by level.
-/

namespace SelectionForest

namespace Request

/-- Whether trees are those of the level of selection sets. -/
def LevelOf (request : Request) (types : TypeSet) (sets : List (List Selection))
    (trees : List Tree) : Prop :=
  ∃ level, request.level types sets = .ok level
    ∧ trees.map (fun tree => (tree.cluster, tree.rank)) = level.grouped

/-- Whether what stands below a cluster is what its type and its fields ask for. -/
structure Grown (request : Request) (tree : Tree) : Prop where
  leaf : request.schema.isComposite tree.cluster.type.innerName = false → tree.children = []
  branch : request.schema.isComposite tree.cluster.type.innerName = true →
    ∃ types, request.typesOf tree.cluster.type.innerName = .ok types
      ∧ request.LevelOf types tree.cluster.selectionSets tree.children

variable {request : Request}

theorem growTree_grown {options : Options}
    {below : TypeSet → List (List Selection) → Outcome (List Tree)} {depth : Nat}
    (hbelow : ∀ {types sets trees}, below types sets = .ok trees →
      request.LevelOf types sets trees ∧ ∀ tree ∈ trees, tree.Throughout (Grown request))
    {cluster : Cluster} {rank : Nat} {tree : Tree}
    (h : request.growTree options below depth (cluster, rank) = .ok tree) :
    (tree.cluster, tree.rank) = (cluster, rank) ∧ tree.Throughout (Grown request) := by
  rw [growTree] at h
  by_cases hcomposite : request.schema.isComposite cluster.type.innerName = true
  · rw [if_pos hcomposite] at h
    obtain ⟨_, -, h⟩ := bind_eq_ok.1 h
    obtain ⟨types, htypes, h⟩ := bind_eq_ok.1 h
    obtain ⟨children, hchildren, h⟩ := bind_eq_ok.1 h
    obtain rfl := pure_eq_ok.1 h
    obtain ⟨hlevel, hgrown⟩ := hbelow hchildren
    refine ⟨rfl, .intro ⟨fun hleaf => ?_, fun _ => ⟨types, htypes, hlevel⟩⟩ hgrown⟩
    exact absurd (hleaf.symm.trans hcomposite) (by simp)
  · rw [if_neg hcomposite] at h
    obtain rfl := pure_eq_ok.1 h
    exact ⟨rfl, .intro ⟨fun _ => rfl, fun hbranch => absurd hbranch hcomposite⟩
      fun _ hchild => absurd hchild List.not_mem_nil⟩

/-- The trees of a level are those that its walks ask for, and are so throughout. -/
theorem growLevel_grown {options : Options} {levels depth : Nat} {types : TypeSet}
    {sets : List (List Selection)} {trees : List Tree}
    (h : request.growLevel options levels depth types sets = .ok trees) :
    request.LevelOf types sets trees ∧ ∀ tree ∈ trees, tree.Throughout (Grown request) := by
  induction levels generalizing depth types sets trees with
  | zero => cases h
  | succ levels ih =>
    rw [growLevel] at h
    obtain ⟨level, hlevel, h⟩ := bind_eq_ok.1 h
    have hgrown := (mapM_eq_ok.1 h).imp fun _ _ ht => growTree_grown ih ht
    constructor
    · refine ⟨level, hlevel, ?_⟩
      rw [← List.forall₂_eq_eq_eq, List.forall₂_map_left_iff]
      exact (hgrown.imp fun _ _ ht => ht.1).flip
    · clear h hlevel
      intro tree htree
      obtain ⟨entry, -, ht⟩ := exists_left hgrown htree
      exact ht.2

namespace LevelOf

variable {types : TypeSet} {sets : List (List Selection)} {trees : List Tree}

theorem haveRanks (h : request.LevelOf types sets trees) : Tree.HaveRanks trees := by
  obtain ⟨level, -, htrees⟩ := h
  have hranks : trees.map (·.rank) = level.grouped.map (·.2) := by
    rw [← htrees, List.map_map]
    rfl
  have hperm := level.grouped_ranks
  have hlength : trees.length = level.length := by
    simpa [← htrees] using hperm.length_eq
  rw [Tree.HaveRanks, hranks, hlength]
  exact hperm

/-- The trees of a level gather the classes of the occurrences that its walks meet. -/
theorem gathers (h : request.LevelOf types sets trees) :
    ∃ occs, Expands request types [] sets.flatten occs
      ∧ List.Forall₂ (fun tree cls => tree.cluster.Gathers request cls) trees
        (request.schema.groups occs) := by
  obtain ⟨level, hlevel, htrees⟩ := h
  obtain ⟨occs, hexp, hgathers⟩ := level_gathers hlevel
  refine ⟨occs, hexp, ?_⟩
  have hgrouped := grouped_gathers hgathers
  rwa [← htrees, List.forall₂_map_left_iff] at hgrouped

end LevelOf

theorem Grown.haveRanks {tree : Tree} (h : request.Grown tree) : Tree.HaveRanks tree.children := by
  cases hc : request.schema.isComposite tree.cluster.type.innerName with
  | false =>
    rw [h.leaf hc]
    exact .nil
  | true =>
    obtain ⟨_, -, hlevel⟩ := h.branch hc
    exact hlevel.haveRanks

/-- The trees of an operation are those of its top level, and what grows below them is so too. -/
theorem grow_grown {options : Options} {operation : Operation} {trees : List Tree}
    (h : request.grow options operation = .ok trees) :
    ∃ types, request.typesOf operation.rootType = .ok types
      ∧ request.LevelOf types [operation.selections] trees
      ∧ ∀ tree ∈ trees, tree.Throughout (Grown request) := by
  obtain ⟨types, htypes, h⟩ := bind_eq_ok.1 h
  obtain ⟨_, -, h⟩ := bind_eq_ok.1 h
  exact ⟨types, htypes, growLevel_grown h⟩

/-- Every level of the trees of an operation has ranks. -/
theorem grow_ranks {options : Options} {operation : Operation} {trees : List Tree}
    (h : request.grow options operation = .ok trees) :
    Tree.HaveRanks trees
      ∧ ∀ tree ∈ trees, tree.Throughout fun t => Tree.HaveRanks t.children := by
  obtain ⟨_, -, hlevel, hgrown⟩ := grow_grown h
  exact ⟨hlevel.haveRanks, fun tree ht => (hgrown tree ht).imp fun _ => Grown.haveRanks⟩

end Request

end SelectionForest
