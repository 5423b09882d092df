import SelectionForest.Proofs.Forest.Bounds
import SelectionForest.Proofs.Forest.WellFormed

/-!
# Limits on the depth

A limit is asked before each level is collected: once for the top level, and once at each node of a
composite type, whether or not anything is selected below it. So a limit accepts a forest if it is at
least one and more than the depth of each such node (`Forest.FitsWithin`), and does nothing else.

* `growLevel_limited`: a level that grows grows in the same way under a limit that its trees fit
  within, and is rejected by any other limit;
* `forestWith_limited`: the same of a forest;
* `forest_onlyRejects`: all that a limit does to the forest of an operation.
-/

namespace SelectionForest

/-- The same options, with or without a limit on the depth. -/
def Options.withLimit (options : Options) (limit : Option Nat) : Options :=
  { options with depthLimit := limit }

theorem Options.withLimit_withLimit (options : Options) (limit other : Option Nat) :
    (options.withLimit limit).withLimit other = options.withLimit other := rfl

theorem Options.allowDepth_withLimit (options : Options) (limit depth : Nat) :
    (options.withLimit (some limit)).allowDepth depth
      = if limit < depth then .error (.depthLimit limit) else .ok () := rfl

/-- Whether a limit accepts the nodes of a forest. -/
structure Forest.FitsWithin (forest : Forest) (schema : Schema) (limit : Nat) : Prop where
  top : 1 ≤ limit
  below : ∀ node ∈ forest.nodes, schema.isComposite node.type.innerName = true →
    node.depth < limit

instance (forest : Forest) (schema : Schema) (limit : Nat) :
    Decidable (forest.FitsWithin schema limit) :=
  decidable_of_iff (1 ≤ limit ∧ ∀ node ∈ forest.nodes,
      schema.isComposite node.type.innerName = true → node.depth < limit)
    ⟨fun h => ⟨h.1, h.2⟩, fun h => ⟨h.top, h.below⟩⟩

theorem Forest.FitsWithin.mono {forest : Forest} {schema : Schema} {limit more : Nat}
    (h : forest.FitsWithin schema limit) (hle : limit ≤ more) : forest.FitsWithin schema more where
  top := Nat.le_trans h.top hle
  below node hnode hcomposite := Nat.lt_of_lt_of_le (h.below node hnode hcomposite) hle

/-! ## The depths that are asked for -/

mutual

/-- The depths of the nodes of a tree that have a composite type, from the depth of the tree. -/
def Tree.branchDepths (schema : Schema) (depth : Nat) : Tree → List Nat
  | ⟨cluster, _, children⟩ =>
    if schema.isComposite cluster.type.innerName then
      depth :: branchDepthsOf schema (depth + 1) children
    else branchDepthsOf schema (depth + 1) children

/-- The depths of the nodes of trees that have a composite type, from the depth of the trees. -/
def branchDepthsOf (schema : Schema) (depth : Nat) : List Tree → List Nat
  | [] => []
  | tree :: trees => tree.branchDepths schema depth ++ branchDepthsOf schema depth trees

end

theorem all_branchDepthsOf (schema : Schema) (depth : Nat) (P : Nat → Bool) (trees : List Tree) :
    (branchDepthsOf schema depth trees).all P
      = trees.all fun tree => (tree.branchDepths schema depth).all P := by
  induction trees with
  | nil => rfl
  | cons tree trees ih => rw [branchDepthsOf, List.all_append, ih, List.all_cons]

/-- The depths of nodes that have a composite type. -/
def depthsOfBranches (schema : Schema) (nodes : List NumberedNode) : List Nat :=
  (nodes.filter fun n => schema.isComposite n.node.type.innerName).map (·.node.depth)

theorem mem_depthsOfBranches {schema : Schema} {nodes : List NumberedNode} {d : Nat} :
    d ∈ depthsOfBranches schema nodes
      ↔ ∃ n ∈ nodes, schema.isComposite n.node.type.innerName = true ∧ n.node.depth = d := by
  simp only [depthsOfBranches, List.mem_map, List.mem_filter, and_assoc]

mutual

/-- The nodes of a tree keep the depths that the tree gives them. -/
theorem Tree.depthsOfBranches_number (schema : Schema) : ∀ (tree : Tree) (parent : Option Nat)
    (depth start next : Nat),
    depthsOfBranches schema (tree.number parent depth start next) = tree.branchDepths schema depth
  | ⟨cluster, rank, children⟩, parent, depth, start, next => by
    have hbelow := depthsOfBranches_numberLevel schema children (some (start + rank)) (depth + 1)
      next (next + children.length)
    rw [Tree.number, Tree.branchDepths, ← hbelow]
    cases hcomposite : schema.isComposite cluster.type.innerName with
    | true => simp [depthsOfBranches, Cluster.node, hcomposite]
    | false => simp [depthsOfBranches, Cluster.node, hcomposite]

theorem depthsOfBranches_numberLevel (schema : Schema) : ∀ (trees : List Tree)
    (parent : Option Nat) (depth start next : Nat),
    depthsOfBranches schema (numberLevel parent depth start next trees)
      = branchDepthsOf schema depth trees
  | [], _, _, _, _ => rfl
  | tree :: trees, parent, depth, start, next => by
    have htree := tree.depthsOfBranches_number schema parent depth start next
    have htrees := depthsOfBranches_numberLevel schema trees parent depth start
      (next + tree.descendants)
    rw [numberLevel, branchDepthsOf, ← htree, ← htrees, depthsOfBranches, List.filter_append,
      List.map_append]
    rfl

end

/-- A limit accepts a forest if it is more than the depths that its trees ask for. -/
theorem Forest.fitsWithin_ofTrees {schema : Schema} {trees : List Tree} {limit : Nat} :
    (ofTrees trees).FitsWithin schema limit
      ↔ 1 ≤ limit ∧ (branchDepthsOf schema 1 trees).all (· < limit) = true := by
  have hnodes (node : Node) : node ∈ (ofTrees trees).nodes ↔ ∃ n ∈ preorderOf trees, n.node = node := by
    simp only [ofTrees, List.mem_map, sortByNumber_eq_insertionSort, List.mem_insertionSort]
    rfl
  simp only [← depthsOfBranches_numberLevel schema trees none 1 0 trees.length, List.all_eq_true,
    decide_eq_true_eq]
  constructor
  · rintro ⟨htop, hbelow⟩
    refine ⟨htop, fun d hd => ?_⟩
    obtain ⟨n, hn, hcomposite, rfl⟩ := mem_depthsOfBranches.1 hd
    exact hbelow _ ((hnodes _).2 ⟨n, hn, rfl⟩) hcomposite
  · rintro ⟨htop, hbelow⟩
    refine ⟨htop, fun node hnode hcomposite => ?_⟩
    obtain ⟨n, hn, rfl⟩ := (hnodes node).1 hnode
    exact hbelow _ (mem_depthsOfBranches.2 ⟨n, hn, hcomposite, rfl⟩)

/-! ## Growth under a limit -/

/-- A traversal whose steps all refuse in the same way refuses as soon as one of them does. -/
theorem mapM_eq_ite {α β : Type} {f : α → Outcome β} {P : β → Bool} {error : Error} {xs : List α}
    {ys : List β} (h : List.Forall₂ (fun x y => f x = if P y then .ok y else .error error) xs ys) :
    xs.mapM f = if ys.all P then .ok ys else .error error := by
  induction h with
  | nil => rfl
  | @cons x y xs ys hxy _ ih =>
    rw [List.mapM_cons, hxy, ih, List.all_cons]
    cases P y with
    | false => rfl
    | true => cases ys.all P <;> rfl

namespace Request

variable {request : Request} {options : Options}

theorem growTree_limited {below below' : TypeSet → List (List Selection) → Outcome (List Tree)}
    {limit depth : Nat} {cluster : Cluster} {rank : Nat} {tree : Tree}
    (hbelow : ∀ {types : TypeSet} {sets : List (List Selection)} {trees : List Tree},
      depth < limit → below types sets = .ok trees →
      below' types sets = if (branchDepthsOf request.schema (depth + 1) trees).all (· < limit)
        then .ok trees else .error (.depthLimit limit))
    (h : request.growTree options below depth (cluster, rank) = .ok tree) :
    request.growTree (options.withLimit (some limit)) below' depth (cluster, rank)
      = if (tree.branchDepths request.schema depth).all (· < limit)
        then .ok tree else .error (.depthLimit limit) := by
  rw [growTree] at h ⊢
  by_cases hcomposite : request.schema.isComposite cluster.type.innerName = true
  · rw [if_pos hcomposite] at h ⊢
    obtain ⟨_, -, h⟩ := bind_eq_ok.1 h
    obtain ⟨types, htypes, h⟩ := bind_eq_ok.1 h
    obtain ⟨children, hchildren, h⟩ := bind_eq_ok.1 h
    obtain rfl := pure_eq_ok.1 h
    rw [Options.allowDepth_withLimit, htypes, Tree.branchDepths, if_pos hcomposite, List.all_cons]
    by_cases hdepth : depth < limit
    · rw [if_neg (by omega), ok_bind, ok_bind, hbelow hdepth hchildren, decide_eq_true hdepth,
        Bool.true_and]
      split <;> rfl
    · -- The limit is asked first, so it decides whatever is below.
      rw [if_pos (by omega), decide_eq_false hdepth, Bool.false_and]
      rfl
  · rw [if_neg hcomposite] at h ⊢
    obtain rfl := pure_eq_ok.1 h
    rw [Tree.branchDepths, if_neg hcomposite]
    rfl

/-- A level that grows under some options grows in the same way under a limit that its trees fit
within, and is rejected by any other limit. The limit leaves enough levels to see that. -/
theorem growLevel_limited {limit levels more depth : Nat} {types : TypeSet}
    {sets : List (List Selection)} {trees : List Tree} (hdepth : depth ≤ limit)
    (hmore : limit + 2 ≤ more + depth)
    (h : request.growLevel options levels depth types sets = .ok trees) :
    request.growLevel (options.withLimit (some limit)) more depth types sets
      = if (branchDepthsOf request.schema depth trees).all (· < limit)
        then .ok trees else .error (.depthLimit limit) := by
  induction levels generalizing more depth types sets trees with
  | zero => cases h
  | succ levels ih =>
    obtain ⟨more, rfl⟩ : ∃ n, more = n + 1 := ⟨more - 1, by omega⟩
    rw [growLevel] at h ⊢
    obtain ⟨level, hlevel, h⟩ := bind_eq_ok.1 h
    have hsteps : List.Forall₂ (fun entry tree =>
        request.growTree (options.withLimit (some limit))
            (request.growLevel (options.withLimit (some limit)) more (depth + 1)) depth entry
          = if (tree.branchDepths request.schema depth).all (· < limit)
            then .ok tree else .error (.depthLimit limit)) level.grouped trees :=
      (mapM_eq_ok.1 h).imp fun _ _ ht =>
        growTree_limited (fun hdepth hbelow => ih hdepth (by omega) hbelow) ht
    rw [hlevel, ok_bind, mapM_eq_ite hsteps, all_branchDepthsOf]

/-- An operation that grows under some options grows in the same way under a limit that its forest
fits within, and is rejected by any other limit. -/
theorem grow_limited {operation : Operation} {trees : List Tree}
    (h : request.grow options operation = .ok trees) (limit : Nat) :
    request.grow (options.withLimit (some limit)) operation
      = if (Forest.ofTrees trees).FitsWithin request.schema limit
        then .ok trees else .error (.depthLimit limit) := by
  rw [grow] at h ⊢
  obtain ⟨types, htypes, h⟩ := bind_eq_ok.1 h
  obtain ⟨_, -, h⟩ := bind_eq_ok.1 h
  have hbound : request.levelBound (options.withLimit (some limit)) operation.selections
      = limit + 1 := rfl
  rw [htypes, ok_bind, Options.allowDepth_withLimit, hbound]
  by_cases htop : 1 ≤ limit
  · rw [if_neg (by omega), ok_bind, growLevel_limited htop (by omega) h]
    exact if_congr (by rw [Forest.fitsWithin_ofTrees, and_iff_right htop]) rfl rfl
  · rw [if_pos (by omega), if_neg fun hfits => htop hfits.top]
    rfl

/-! ## Growth without a limit -/

/-- What grows under some options grows in the same way without a limit. -/
theorem growLevel_unlimited {levels more depth : Nat} {types : TypeSet}
    {sets : List (List Selection)} {trees : List Tree} (hmore : levels ≤ more)
    (h : request.growLevel options levels depth types sets = .ok trees) :
    request.growLevel (options.withLimit none) more depth types sets = .ok trees := by
  induction levels generalizing more depth types sets trees with
  | zero => cases h
  | succ levels ih =>
    obtain ⟨more, rfl⟩ : ∃ n, more = n + 1 := ⟨more - 1, by omega⟩
    rw [growLevel] at h ⊢
    obtain ⟨level, hlevel, h⟩ := bind_eq_ok.1 h
    rw [hlevel, ok_bind]
    refine mapM_eq_ok.2 ((mapM_eq_ok.1 h).imp fun entry tree ht => ?_)
    obtain ⟨cluster, rank⟩ := entry
    rw [growTree] at ht ⊢
    by_cases hcomposite : request.schema.isComposite cluster.type.innerName = true
    · rw [if_pos hcomposite] at ht ⊢
      obtain ⟨_, -, ht⟩ := bind_eq_ok.1 ht
      obtain ⟨below, hbelow, ht⟩ := bind_eq_ok.1 ht
      obtain ⟨children, hchildren, ht⟩ := bind_eq_ok.1 ht
      rw [hbelow, ok_bind, ih (Nat.le_of_succ_le_succ hmore) hchildren]
      exact ht
    · rwa [if_neg hcomposite] at ht ⊢

/-- What grows under some options grows in the same way without a limit, if growth without a limit
has enough levels. -/
theorem grow_unlimited (hacyclic : request.fragments.AreAcyclic) {operation : Operation}
    {trees : List Tree} (h : request.grow options operation = .ok trees) :
    request.grow (options.withLimit none) operation = .ok trees := by
  rw [grow] at h ⊢
  obtain ⟨types, htypes, h⟩ := bind_eq_ok.1 h
  obtain ⟨_, -, h⟩ := bind_eq_ok.1 h
  have hlimit : (options.withLimit none).depthLimit = none := rfl
  obtain ⟨nesting, hnesting⟩ := growLevel_levelBound hacyclic hlimit operation.selections
  have hless : nesting < nesting + 1 + request.levelBound options operation.selections := by omega
  have htop : (options.withLimit none).allowDepth 1 = .ok () := rfl
  rw [htypes, ok_bind, htop, ok_bind, hnesting _ 1 types hless]
  exact growLevel_unlimited (by omega) h

end Request

/-! ## Forests under a limit -/

section Limited

variable {operation : Operation} {schema : Schema} {options : Options} {fragments : Fragments}
  {bindings : Members} {sources : Option TracedInputs} {forest : Forest}

/-- A forest that is built under some options is also built under a limit that it fits within, and
is rejected by any other limit. -/
theorem Operation.forestWith_limited
    (h : operation.forestWith schema options fragments bindings sources = .ok forest)
    (limit : Nat) :
    operation.forestWith schema (options.withLimit (some limit)) fragments bindings sources
      = if forest.FitsWithin schema limit then .ok forest else .error (.depthLimit limit) := by
  obtain ⟨trees, htrees, rfl⟩ := Operation.forestWith_eq_ok.1 h
  rw [forestWith_eq_grow, Request.grow_limited htrees limit]
  split <;> rfl

/-- The nodes of a forest stand at most one level below one of a composite type. -/
theorem Forest.FitsWithin.depth_le {limit : Nat} (hfits : forest.FitsWithin schema limit)
    (hforest : forest.IsWellFormed schema) {id : Nat} {node : Node}
    (hnode : forest.node? id = some node) : node.depth ≤ limit := by
  cases hparent : node.parent with
  | none =>
    rw [hforest.root_depth hnode hparent]
    exact hfits.top
  | some above =>
    have hchild : id ∈ forest.children above :=
      hforest.child_iff.2 (by rw [Forest.parent?, hnode]; exact hparent)
    rw [Forest.children] at hchild
    split at hchild
    · rename_i upper hupper
      have hcomposite := hforest.branch hupper (List.ne_nil_of_mem hchild)
      have hdepth := hfits.below upper (List.mem_of_getElem? hupper) hcomposite
      rw [(hforest.child_below hupper hnode hchild).2]
      exact hdepth
    · exact absurd hchild List.not_mem_nil

end Limited

/-- Whether a limit does nothing but reject, where forests that spread fragments are built with or
without one. -/
structure Schema.OnlyRejects (schema : Schema) (fragments : Fragments)
    (build : Option Nat → Outcome Forest) : Prop where
  /-- The limits that reject a forest are those that it does not fit within. -/
  threshold : ∀ {forest}, build none = .ok forest → ∀ limit,
    build (some limit)
      = if forest.FitsWithin schema limit then .ok forest else .error (.depthLimit limit)
  /-- No forest is deeper than its limit. -/
  bounded : ∀ {limit forest}, build (some limit) = .ok forest →
    ∀ node ∈ forest.nodes, node.depth ≤ limit
  /-- A forest stays what it is under every greater limit. -/
  raised : ∀ {limit more forest}, build (some limit) = .ok forest → limit ≤ more →
    build (some more) = .ok forest
  /-- A forest stays what it is without a limit. -/
  lifted : fragments.AreAcyclic → ∀ {limit forest}, build (some limit) = .ok forest →
    build none = .ok forest

theorem Operation.forestWith_onlyRejects (operation : Operation) (schema : Schema)
    (options : Options) (fragments : Fragments) (bindings : Members)
    (sources : Option TracedInputs) :
    schema.OnlyRejects fragments fun limit =>
      operation.forestWith schema (options.withLimit limit) fragments bindings sources := by
  -- What is built under a limit fits within it, because the limit is one of those that decide.
  have hfits {limit : Nat} {forest : Forest} (h : operation.forestWith schema
      (options.withLimit (some limit)) fragments bindings sources = .ok forest) :
      forest.FitsWithin schema limit := by
    have hsame := forestWith_limited h limit
    rw [Options.withLimit_withLimit, h] at hsame
    by_contra hnot
    rw [if_neg hnot] at hsame
    cases hsame
  exact {
    threshold := fun h limit => forestWith_limited h limit
    bounded := fun {limit forest} h node hnode => by
      obtain ⟨id, hid⟩ := List.mem_iff_getElem?.1 hnode
      obtain ⟨trees, htrees, rfl⟩ := Operation.forestWith_eq_ok.1 h
      exact (hfits h).depth_le (Request.grow_isWellFormed htrees) hid
    raised := fun {limit more forest} h hle => by
      have hmore := forestWith_limited h more
      rwa [Options.withLimit_withLimit, if_pos ((hfits h).mono hle)] at hmore
    lifted := fun hacyclic {limit forest} h => by
      obtain ⟨trees, htrees, h⟩ := forestWith_eq_ok.1 h
      have hsame := Request.grow_unlimited hacyclic htrees
      exact forestWith_eq_ok.2 ⟨trees, hsame, h⟩ }

/-- A limit on the depth only rejects, whether the values of variables are coerced already or are
those of a request. -/
theorem Operation.forest_onlyRejects (operation : Operation) (schema : Schema)
    (options : Options) (fragments : Fragments) :
    (∀ bindings, schema.OnlyRejects fragments fun limit =>
      operation.forest schema (options.withLimit limit) fragments bindings)
    ∧ ∀ values, schema.OnlyRejects fragments fun limit =>
      operation.forestOfValues schema (options.withLimit limit) fragments values := by
  refine ⟨fun bindings => operation.forestWith_onlyRejects schema options fragments bindings none,
    fun values => ?_⟩
  have hvalues (limit : Option Nat) :
      operation.forestOfValues schema (options.withLimit limit) fragments values
        = coerceVariables schema operation.variableDefinitions values >>= fun bindings =>
          operation.forestWith schema (options.withLimit limit) fragments bindings
            (if options.tracesArguments
              then some (traceVariables operation.variableDefinitions values) else none) := rfl
  cases hbindings : coerceVariables schema operation.variableDefinitions values with
  | ok bindings =>
    simp only [hvalues, hbindings, ok_bind]
    exact operation.forestWith_onlyRejects schema options fragments bindings _
  | error error =>
    simp only [hvalues, hbindings]
    exact ⟨nofun, nofun, nofun, fun _ => nofun⟩

namespace Sample

/-- The sample has a node of a composite type at depth two. So a limit of two rejects it, and it is
the same forest under a limit of three, a greater one or none. -/
theorem limits_decide :
    operation.forest schema (Options.withLimit {} (some 2)) [] [] = .error (.depthLimit 2)
      ∧ operation.forestOfValues schema (Options.withLimit {} (some 2)) [] []
        = .error (.depthLimit 2)
      ∧ operation.forest schema (Options.withLimit {} (some 3)) [] [] = .ok forest
      ∧ (∀ node ∈ forest.nodes, node.depth ≤ 3)
      ∧ operation.forest schema (Options.withLimit {} (some 5)) [] [] = .ok forest
      ∧ operation.forest schema (Options.withLimit {} none) [] [] = .ok forest := by
  obtain ⟨hcoerced, hvalues⟩ := operation.forest_onlyRejects schema {} []
  have hacyclic : Fragments.AreAcyclic [] := .of_rank (fun _ => 0) (List.forall_mem_nil _)
  have hfits : forest.FitsWithin schema 3 := by decide
  have hdeep : ¬ forest.FitsWithin schema 2 := by decide
  have hthree := (hcoerced []).threshold forest_eq 3
  have htwo := (hcoerced []).threshold forest_eq 2
  rw [if_pos hfits] at hthree
  rw [if_neg hdeep] at htwo
  -- From the values of a request, the forest traces its arguments as well.
  obtain ⟨traced, htraced, hdeep'⟩ : ∃ traced,
      operation.forestOfValues schema (Options.withLimit {} none) [] [] = .ok traced
        ∧ ¬ traced.FitsWithin schema 2 := ⟨_, rfl, by decide⟩
  have htwo' := (hvalues []).threshold htraced 2
  rw [if_neg hdeep'] at htwo'
  exact ⟨htwo, htwo', hthree, (hcoerced []).bounded hthree,
    (hcoerced []).raised hthree (by decide), (hcoerced []).lifted hacyclic hthree⟩

end Sample

end SelectionForest
