import SelectionForest.Proofs.Forest.Bounds
import SelectionForest.Proofs.Level.Dividing
import SelectionForest.Proofs.Walk.Soundness

/-!
# Sound operations

An operation that is sound on a consistent schema has a forest, unless its arguments are at fault or
the forest would be deeper than the limit; and the field of a node is one of each of its object types
(`forest_ends`).

A level is collected for the object types of one definition of a field, and its selections were
written against others: those on an interface, or on the types of other fields that are merged into
the same cluster. What is kept from level to level is that each selection is sound on a type that
applies to all the object types of the level, whichever that is (`Request.SoundFor`,
`Cluster.IsSound`).

* `add_ends`: one field that is put into a level;
* `level_ends`: the levels of sound selections;
* `growLevel_ends`: all that grows below.
-/

namespace SelectionForest

/-- Whether the field of a type may be selected with arguments: an introspection field of the query
root if that is an object, and another one if the arguments are placed in its definition on each
object that the type stands for. Only input objects have parts there. -/
def Schema.admits (schema : Schema) (parent field : Name) (arguments : List Argument) : Bool :=
  (!schema.isIntrospection parent field || schema.isObject parent)
    && (schema.runtimeTypes parent).all fun object =>
      (schema.field? object field).all (·.places schema (!·.isInputObject) arguments)

/-- Whether all object types of a cluster have its field. -/
def Cluster.HasField (cluster : Cluster) (schema : Schema) : Prop :=
  ∀ object ∈ cluster.objectTypes,
    ∃ definition, schema.field? object cluster.merged.name = some definition

section Fieldless

variable {schema : Schema} {fragments : Fragments} {fits : Name → Name → List Argument → Bool}
  {parent other : Name}

mutual

theorem Selection.isSound_of_fieldless
    (hnone : ∀ field : Field, field.isSound schema fragments fits parent = false) :
    ∀ (selection : Selection), selection.isSound schema fragments fits parent = true →
      selection.isSound schema fragments fits other = true
  | .field field, h => by
    rw [Selection.isSound, hnone] at h
    cases h
  | .inline condition directives selections, h => by
    rw [Selection.isSound, Bool.and_eq_true] at h ⊢
    refine ⟨h.1, ?_⟩
    cases condition with
    | none => exact areSound_of_fieldless hnone selections h.2
    | some name => exact h.2
  | .spread _ _, h => h

/-- Selections that are sound on a type which has no fields select none there, and are sound on any
other. -/
theorem areSound_of_fieldless
    (hnone : ∀ field : Field, field.isSound schema fragments fits parent = false) :
    ∀ (selections : List Selection), areSound schema fragments fits parent selections = true →
      areSound schema fragments fits other selections = true
  | [], _ => rfl
  | selection :: selections, h => by
    rw [areSound, Bool.and_eq_true] at h ⊢
    exact ⟨selection.isSound_of_fieldless hnone h.1, areSound_of_fieldless hnone selections h.2⟩

end

/-- No field is selected below `__typename`. -/
theorem Schema.IsConsistent.not_isSound_string (hschema : schema.IsConsistent) (field : Field) :
    field.isSound schema fragments schema.admits "String" = false := by
  have hbuiltIn := hschema.builtIn
  refine Bool.eq_false_iff.2 fun h => ?_
  obtain ⟨-, hadmits, definition, hdef, -⟩ := Field.isSound_iff.1 h
  have hroot := Schema.isIntrospection_of_isComposite_false hbuiltIn hdef
  have hobject : schema.isObject "String" = false := Bool.eq_false_iff.2 fun hobject => by
    simp [Schema.isComposite_of_isObject hobject] at hbuiltIn
  rw [Schema.admits, hroot, hobject] at hadmits
  cases hadmits

end Fieldless

/-! ## Levels -/

section Levels

variable {request : Request} (hschema : request.schema.IsConsistent)

/-- Whether a cluster has a field of all its object types, and what is selected below it is sound on
types that apply to all that its own type stands for. -/
structure Cluster.IsSound (cluster : Cluster) (request : Request) : Prop where
  hasField : cluster.HasField request.schema
  below : ∀ field ∈ cluster.merged.fields, ∃ parent,
    areSound request.schema request.fragments request.schema.admits parent field.selections = true
      ∧ request.schema.isWithin cluster.type.innerName parent = true

theorem Cluster.IsSound.soundFor {cluster : Cluster} (h : cluster.IsSound request)
    {types : TypeSet} (htypes : request.typesOf cluster.type.innerName = .ok types) :
    request.SoundFor request.schema.admits types cluster.selectionSets.flatten := by
  rw [Cluster.flatten_selectionSets]
  intro selection hselection
  obtain ⟨field, hfield, hselection⟩ := List.mem_flatMap.1 hselection
  obtain ⟨parent, hsound, hwithin⟩ := h.below field hfield
  exact ⟨parent, areSound_iff.1 hsound selection hselection, fun object hobject =>
    Schema.isWithin_iff.1 hwithin object ((Request.mem_typesOf htypes).1 hobject)⟩

/-- Merging a field that is sound below keeps a cluster sound. -/
theorem Cluster.IsSound.merge {cluster : Cluster} (h : cluster.IsSound request) {field : Field}
    {types : TypeSet}
    (hfield : ∀ object ∈ types,
      ∃ definition, request.schema.field? object cluster.merged.name = some definition)
    (hbelow : ∃ parent,
      areSound request.schema request.fragments request.schema.admits parent field.selections = true
        ∧ request.schema.isWithin cluster.type.innerName parent = true) :
    (cluster.merge field types).IsSound request where
  hasField object hobject := by
    rcases TypeSet.mem_union.1 hobject with hobject | hobject
    · exact h.hasField object hobject
    · exact hfield object hobject
  below other hother := by
    have hpushed : other ∈ cluster.merged.fields ++ [field] := hother
    rcases List.mem_append.1 hpushed with hother | hother
    · exact h.below other hother
    · exact List.mem_singleton.1 hother ▸ hbelow

include hschema

/-- The field of a sound occurrence is one of each of its object types, its arguments are placed
there, and what is selected below is sound on a type that applies to all that it returns there. -/
theorem Occurrence.IsSound.exists_field {occ : Occurrence} {parent : Name}
    {definition : FieldDefinition}
    (h : occ.IsSound request request.schema.admits parent definition) {object : Name}
    (hobject : object ∈ occ.types) :
    ∃ own, request.schema.field? object occ.field.name = some own
      ∧ own.places request.schema (!·.isInputObject) occ.field.arguments = true
      ∧ ∃ below, areSound request.schema request.fragments request.schema.admits below
          occ.field.selections = true
        ∧ request.schema.isWithin own.type.innerName below = true := by
  obtain ⟨hroot, hplaced⟩ := (Bool.and_eq_true _ _).mp h.admitted
  have happlies := h.applies object hobject
  obtain ⟨own, hown, hwithin⟩ := Schema.exists_field_within hschema
    (fun hintrospection => by simpa [hintrospection] using hroot) h.defined happlies
  have hplaces := List.all_eq_true.1 hplaced object (Schema.mem_runtimeTypes.2 happlies)
  rw [hown] at hplaces
  refine ⟨own, hown, hplaces, ?_⟩
  rcases hwithin with hwithin | rfl
  · exact ⟨_, h.below, hwithin⟩
  · exact ⟨_, areSound_of_fieldless hschema.not_isSound_string _ h.below,
      Schema.isWithin_refl _⟩

/-- A sound occurrence that is added to a level keeps it sound, unless its arguments are at
fault. -/
theorem Request.add_ends {occ : Occurrence} {parent : Name} {definition : FieldDefinition}
    (hocc : occ.IsSound request request.schema.admits parent definition) {level : Level}
    (hlevel : ∀ cluster ∈ level, cluster.IsSound request) :
    Ends Error.BlamesArguments (fun out => ∀ cluster ∈ out, cluster.IsSound request)
      (visitAt request.add level occ) := by
  obtain ⟨first, hfirst, hmem⟩ := TypeSet.exists_first hocc.nonempty
  obtain ⟨own, hown, hplaced, hbelow⟩ := hocc.exists_field hschema hmem
  have hfield : ∀ object ∈ occ.types,
      ∃ other, request.schema.field? object occ.field.name = some other := fun object hobject =>
    let ⟨other, hother, _⟩ := hocc.exists_field hschema hobject
    ⟨other, hother⟩
  rw [visitAt_add hfirst hown]
  split
  · rename_i merged hmerge
    obtain ⟨before, cluster, after, rfl, -, htakes, rfl⟩ := Level.merge?_eq_some hmerge
    simp only [Cluster.takes, Bool.and_eq_true, beq_iff_eq] at htakes
    obtain ⟨⟨⟨-, hname⟩, htype⟩, -⟩ := htakes
    obtain ⟨hbefore, hcluster, hafter⟩ :=
      (List.forall_mem_append.1 hlevel).imp_right List.forall_mem_cons.1
    have hmerged := hcluster.merge (hname ▸ hfield) (htype ▸ hbelow)
    exact .ok (List.forall_mem_append.2 ⟨hbefore, List.forall_mem_cons.2 ⟨hmerged, hafter⟩⟩)
  · have husable := Schema.isUsable_of_field? hschema.inputs hown
    have hresolved : FailsWith Error.BlamesArguments
        (resolveArguments request.schema request.bindings own occ.field.arguments) :=
      resolveArguments_failsWith hschema.inputs husable hplaced
    rw [found, bind_assoc]
    refine Ends.bind hresolved fun resolved _ _ => .ok ?_
    refine List.forall_mem_append.2 ⟨hlevel, List.forall_mem_singleton.2 ⟨hfield, ?_⟩⟩
    exact List.forall_mem_singleton.2 hbelow

/-- The clusters of sound selections are sound, unless the arguments are at fault. -/
theorem Request.level_ends (hacyclic : request.fragments.AreAcyclic)
    (hfragments : ∀ fragment ∈ request.fragments,
      fragment.isSound request.schema request.fragments request.schema.admits = true)
    {types : TypeSet} {sets : List (List Selection)}
    (hsound : request.SoundFor request.schema.admits types sets.flatten) :
    Ends Error.BlamesArguments (fun level => ∀ cluster ∈ level, cluster.IsSound request)
      (request.level types sets) := by
  rw [level_eq_visitSteps]
  refine Ends.foldlM (fun step hstep level hlevel => ?_) (List.forall_mem_nil _)
  obtain ⟨occ, parent, definition, rfl, hocc⟩ :=
    steps_sound hacyclic hfragments hsound step hstep
  exact add_ends hschema hocc hlevel

end Levels

/-! ## Growth -/

/-- Whether an error refuses what a document asks for: its arguments are at fault, or the forest would
be deeper than the limit. -/
def Options.Refuses (options : Options) (error : Error) : Prop :=
  error.BlamesArguments ∨ ∃ limit, options.depthLimit = some limit ∧ error = .depthLimit limit

theorem Options.Refuses.isInternal {options : Options} {error : Error} (h : options.Refuses error) :
    error.isInternal = false := by
  rcases h with ⟨_, rfl⟩ | ⟨_, -, rfl⟩ <;> rfl

theorem Options.allowDepth_ends (options : Options) (depth : Nat) :
    Ends options.Refuses (fun _ => ∀ limit, options.depthLimit = some limit → depth ≤ limit)
      (options.allowDepth depth) := by
  rw [allowDepth]
  split
  · rename_i limit hlimit
    split
    · exact .error (.inr ⟨limit, hlimit, rfl⟩)
    · rename_i hdepth
      refine .ok fun other hother => ?_
      obtain rfl := Option.some.inj (hlimit.symm.trans hother)
      exact Nat.le_of_not_lt hdepth
  · rename_i hnone
    exact .ok fun limit hlimit => by simp [hnone] at hlimit

namespace Request

variable {request : Request} {options : Options}

/-- Whether growth at a depth has more levels than selections can have below: a limit allows no more
than that, or the fields of the selections nest less deep. -/
def HasRoom (request : Request) (options : Options) (levels depth : Nat)
    (sets : List (List Selection)) : Prop :=
  match options.depthLimit with
  | some limit => depth ≤ limit ∧ limit + 2 ≤ levels + depth
  | none => ∃ nesting < levels, request.fragments.NestsWithin nesting sets.flatten

theorem HasRoom.pos {levels depth : Nat} {sets : List (List Selection)}
    (h : request.HasRoom options levels depth sets) : 0 < levels := by
  rw [HasRoom] at h
  split at h
  · omega
  · obtain ⟨nesting, hless, -⟩ := h
    exact Nat.zero_lt_of_lt hless

/-- There is room below a level at a depth that is allowed. -/
theorem HasRoom.below {levels depth : Nat} {types : TypeSet} {sets : List (List Selection)}
    (h : request.HasRoom options (levels + 1) depth sets)
    (hdepth : ∀ limit, options.depthLimit = some limit → depth + 1 ≤ limit) {level : Level}
    (hlevel : request.level types sets = .ok level) {cluster : Cluster} {rank : Nat}
    (hmem : (cluster, rank) ∈ level.grouped) :
    request.HasRoom options levels (depth + 1) cluster.selectionSets := by
  rw [HasRoom] at h ⊢
  split at h
  · rename_i limit hlimit
    exact ⟨hdepth limit hlimit, by omega⟩
  · obtain ⟨nesting, hless, hnests⟩ := h
    obtain ⟨below, rfl, hbelow⟩ := nestsWithin_below hnests hlevel hmem
    exact ⟨below, Nat.lt_of_succ_lt_succ hless, hbelow⟩

/-- The bound on the levels of an operation leaves room at the top, if fragments are acyclic or there is
a limit. -/
theorem hasRoom_levelBound
    (hacyclic : options.depthLimit = none → request.fragments.AreAcyclic)
    (hdepth : ∀ limit, options.depthLimit = some limit → 1 ≤ limit)
    (selections : List Selection) :
    request.HasRoom options (request.levelBound options selections) 1 [selections] := by
  rw [HasRoom]
  split
  · rename_i limit hlimit
    rw [levelBound, hlimit]
    exact ⟨hdepth limit hlimit, Nat.le_refl _⟩
  · rename_i hnone
    exact nestsWithin_levelBound (hacyclic hnone) hnone selections

/-- Whether trees are such that each cluster in them has a field of all its object types. -/
def HasFields (request : Request) (trees : List Tree) : Prop :=
  ∀ tree ∈ trees, tree.Throughout fun t => t.cluster.HasField request.schema

theorem growTree_ends {below : TypeSet → List (List Selection) → Outcome (List Tree)} {depth : Nat}
    {cluster : Cluster} {rank : Nat} (hcluster : cluster.HasField request.schema)
    (hbelow : (∀ limit, options.depthLimit = some limit → depth + 1 ≤ limit) →
      ∀ types, request.typesOf cluster.type.innerName = .ok types →
        Ends options.Refuses request.HasFields (below types cluster.selectionSets)) :
    Ends options.Refuses (fun tree => tree.Throughout fun t => t.cluster.HasField request.schema)
      (request.growTree options below depth (cluster, rank)) := by
  rw [growTree]
  split
  · rename_i hcomposite
    refine (options.allowDepth_ends (depth + 1)).bind fun _ _ hdepth => ?_
    obtain ⟨types, htypes⟩ := exists_typesOf hcomposite
    rw [htypes, ok_bind]
    exact (hbelow hdepth types htypes).bind fun children _ hchildren =>
      .ok (.intro hcluster hchildren)
  · exact .ok (.intro hcluster (List.forall_mem_nil _))

section Sound

variable (hschema : request.schema.IsConsistent) (hacyclic : request.fragments.AreAcyclic)
  (hfragments : ∀ fragment ∈ request.fragments,
    fragment.isSound request.schema request.fragments request.schema.admits = true)

include hschema hacyclic hfragments

/-- With enough levels, sound selections grow into trees that have fields of all their object types,
unless they are refused. -/
theorem growLevel_ends {levels depth : Nat} {types : TypeSet} {sets : List (List Selection)}
    (hroom : request.HasRoom options levels depth sets)
    (hsound : request.SoundFor request.schema.admits types sets.flatten) :
    Ends options.Refuses request.HasFields
      (request.growLevel options levels depth types sets) := by
  induction levels generalizing depth types sets with
  | zero => exact absurd hroom.pos (Nat.lt_irrefl 0)
  | succ levels ih =>
    rw [growLevel]
    have hlevel : Ends options.Refuses (fun level => ∀ cluster ∈ level, cluster.IsSound request)
        (request.level types sets) :=
      (level_ends hschema hacyclic hfragments hsound).imp (fun _ h => .inl h) fun _ h => h
    refine hlevel.bind fun level hok hclusters => Ends.mapM fun entry hentry => ?_
    obtain ⟨cluster, rank⟩ := entry
    have hcluster : cluster.IsSound request := by
      obtain ⟨_, -, hfiltered⟩ := List.mem_flatMap.1 hentry
      exact hclusters cluster (List.fst_mem_of_mem_zipIdx (List.mem_filter.1 hfiltered).1)
    exact growTree_ends hcluster.hasField fun hdepth below hbelow =>
      ih (hroom.below hdepth hok hentry) (hcluster.soundFor hbelow)

theorem grow_ends {operation : Operation}
    (hroot : request.schema.isComposite operation.rootType = true)
    (hsound : areSound request.schema request.fragments request.schema.admits operation.rootType
      operation.selections = true) :
    Ends options.Refuses request.HasFields (request.grow options operation) := by
  rw [grow]
  obtain ⟨types, htypes⟩ := exists_typesOf hroot
  rw [htypes, ok_bind]
  refine (options.allowDepth_ends 1).bind fun _ _ hdepth => ?_
  refine growLevel_ends hschema hacyclic hfragments
    (hasRoom_levelBound (fun _ => hacyclic) hdepth operation.selections) ?_
  rw [List.flatten_singleton]
  exact .of_areSound hsound fun type ht => (mem_typesOf htypes).1 ht

end Sound

end Request

/-- Whether the field of a node is one of each of its object types. -/
def Node.HasField (node : Node) (schema : Schema) : Prop :=
  ∀ object ∈ node.objectTypes, ∃ definition, schema.field? object node.name = some definition

/-- What the clusters of trees have, the nodes of their forest have. -/
theorem Request.HasFields.node {request : Request} {options : Options} {operation : Operation}
    {trees : List Tree} (hgrow : request.grow options operation = .ok trees)
    (h : request.HasFields trees) {id : Nat} {node : Node}
    (hnode : (Forest.ofTrees trees).node? id = some node) : node.HasField request.schema := by
  obtain ⟨hranks, hthrough⟩ := grow_ranks hgrow
  obtain ⟨n, hn, rfl, rfl⟩ := Forest.exists_of_node? (preorder_ids hranks hthrough) hnode
  obtain ⟨tree, htree, hshows, -⟩ := exists_tree h n hn
  intro object hobject
  rw [hshows.name]
  exact htree object (hshows.objectTypes ▸ hobject)

/-- A sound operation on a consistent schema has a forest, or is refused: its arguments are at fault,
or the forest would be deeper than the limit. The field of each node is one of each of its object
types. -/
theorem Operation.forest_ends {operation : Operation} {schema : Schema} {fragments : Fragments}
    (hschema : schema.IsConsistent)
    (hsound : operation.isSound schema fragments schema.admits = true)
    (hacyclic : fragments.AreAcyclic) (options : Options) (bindings : Members) :
    Ends (fun error => options.Refuses error ∧ error.isInternal = false)
      (fun forest => ∀ id node, forest.node? id = some node → node.HasField schema)
      (operation.forest schema options fragments bindings) := by
  simp only [isSound, Bool.and_eq_true, List.all_eq_true] at hsound
  obtain ⟨⟨hroot, hselections⟩, hfragments⟩ := hsound
  have hgrow : Ends options.Refuses _
      (Request.grow ⟨schema, fragments, bindings, none⟩ options operation) :=
    Request.grow_ends hschema hacyclic hfragments hroot hselections
  have hforest : Ends options.Refuses
      (fun forest => ∀ id node, forest.node? id = some node → node.HasField schema)
      (operation.forest schema options fragments bindings) := by
    rw [forest, forestWith_eq_grow]
    exact hgrow.bind fun trees htrees hfields => .ok fun id node hnode =>
      hfields.node htrees hnode
  exact hforest.imp (fun _ h => ⟨h, h.isInternal⟩) fun _ h => h

/-! ## A sound operation

What `next` returns is refined by `A`, so what is selected below it on `Node` is collected for `B`. -/

namespace Refined

/-- `f(x: [Int]): Int` -/
def f : FieldDefinition := ⟨"f", [⟨"x", .list (.named "Int" false) false, none⟩], .named "Int" false⟩

/-- `type Query { node: Node }`, where a `Node` has `next: Node` and `f`; `next` is refined to `B` by
`A` and kept by `B`. -/
def schema : Schema where
  types := Schema.builtInTypes ++ [
    ("Query", .object [] [⟨"node", [], .named "Node" false⟩]),
    ("Node", .interface [] [⟨"next", [], .named "Node" false⟩, f]),
    ("A", .object ["Node"] [⟨"next", [], .named "B" false⟩, f]),
    ("B", .object ["Node"] [⟨"next", [], .named "Node" false⟩, f])]
  query := some "Query"
  mutation := none
  subscription := none
  directives := Schema.builtInDirectives

/-- `f(x: …)` -/
def valued (place : Nat) (value : Value) : Field :=
  { Sample.plain place "f" [] with arguments := [⟨"x", value⟩] }

/-- `fragment rest on Node @include(if: $deep) { f(x: [1, $v]) }` -/
def rest : Fragment := ⟨"rest", "Node", [⟨"include", [⟨"if", .variable "deep"⟩]⟩],
  [.field (valued 2 (.list [.int "1", .variable "v"]))]⟩

/-- `query($deep: Boolean, $v: Int) { node { next { ...rest } } }` -/
def operation : Operation :=
  ⟨none, "Query", [⟨"deep", .named "Boolean" false, none⟩, ⟨"v", .named "Int" false, none⟩],
    [.field (Sample.plain 0 "node" [.field (Sample.plain 1 "next" [.spread "rest" []])])]⟩

theorem isSound : schema.IsConsistent ∧ operation.isSound schema [rest] schema.admits = true :=
  ⟨by decide +kernel, by decide +kernel⟩

theorem areAcyclic : Fragments.AreAcyclic [rest] :=
  .of_rank (fun _ => 0) (by decide +kernel)

/-- The operation has a forest of three nodes, which have the fields of their object types; without
a level for the last of them it is refused. -/
theorem forest_hasFields :
    (∃ forest, operation.forest schema {} [rest] [("v", .number (.int 2))] = .ok forest
      ∧ forest.size = 3 ∧ ∀ id node, forest.node? id = some node → node.HasField schema)
    ∧ ∃ error, operation.forest schema { depthLimit := some 2 } [rest] [] = .error error
      ∧ error.isInternal = false := by
  obtain ⟨hschema, hsound⟩ := isSound
  obtain ⟨forest, hforest, hsize⟩ : ∃ forest,
      operation.forest schema {} [rest] [("v", .number (.int 2))] = .ok forest
        ∧ forest.size = 3 := ⟨_, rfl, rfl⟩
  have hrefused : operation.forest schema { depthLimit := some 2 } [rest] []
      = .error (.depthLimit 2) := rfl
  have hends := operation.forest_ends hschema hsound areAcyclic
  exact ⟨⟨forest, hforest, hsize, (hends _ _).of_ok hforest⟩,
    _, hrefused, ((hends _ _).of_error hrefused).2⟩

end Refined

/-! ## What does not suffice

That fields are defined on the types of their selection sets, and that no variable stands inside a
literal at a scalar or an enum, says nothing of introspection on a union, of literals at other types
without parts, and of what an argument is on the objects. -/

/-- Whether the arguments of a field are placed in its definition on the type that it is selected on,
if only scalars and enums have no parts there. -/
def Schema.placesOnParent (schema : Schema) (parent field : Name) (arguments : List Argument) : Bool :=
  (schema.field? parent field).all (·.places schema TypeDefinition.isLeaf arguments)

namespace Unadmitted

/-- A schema with types of its own. -/
def schemaOf (query : Name) (types : OrderedMap Name TypeDefinition) : Schema where
  types := Schema.builtInTypes ++ types
  query := some query
  mutation := none
  subscription := none
  directives := Schema.builtInDirectives

/-- `schema { query: Root } union Root = Query type Query { a: Int }` -/
def rootUnion : Schema := schemaOf "Root"
  [("Root", .union ["Query"]), ("Query", .object [] [⟨"a", [], .named "Int" false⟩])]

/-- `{ __schema { description } }` -/
def introspecting : Operation := ⟨none, "Root", [],
  [.field (Sample.plain 0 "__schema" [.field (Sample.plain 1 "description" [])])]⟩

/-- `type Query { f(x: Query): Int }` -/
def outputArgument : Schema := schemaOf "Query"
  [("Query", .object [] [⟨"f", [⟨"x", .named "Query" false, none⟩], .named "Int" false⟩])]

/-- `query($v: Int) { f(x: [$v]) }` -/
def listing : Operation := ⟨none, "Query", [⟨"v", .named "Int" false, none⟩],
  [.field (Refined.valued 0 (.list [.variable "v"]))]⟩

/-- `type Query { node: Node } interface Node { f(x: [Int]): Int } type A implements Node { f(x: S): Int }
scalar S` -/
def retypedArgument : Schema := schemaOf "Query"
  [("Query", .object [] [⟨"node", [], .named "Node" false⟩]),
    ("Node", .interface [] [Refined.f]),
    ("A", .object ["Node"] [⟨"f", [⟨"x", .named "S" false, none⟩], .named "Int" false⟩]),
    ("S", .scalar)]

/-- `query($v: Int) { node { f(x: [$v]) } }` -/
def listingBelow : Operation := ⟨none, "Query", [⟨"v", .named "Int" false, none⟩],
  [.field (Sample.plain 0 "node" [.field (Refined.valued 1 (.list [.variable "v"]))])]⟩

/-- The values of the variables. -/
def bindings : Members := [("v", .number (.int 1))]

/-- Operations without fragments that are sound on consistent schemas, as far as the types of their
selection sets say; but their forests fail with errors that are internal. -/
theorem forests_fail :
    Fragments.AreAcyclic []
      ∧ (rootUnion.IsConsistent ∧ introspecting.isSound rootUnion [] rootUnion.placesOnParent = true
        ∧ introspecting.forest rootUnion {} [] []
          = .error (.internal (.undefinedField "__schema" "Query")))
      ∧ (outputArgument.IsConsistent
        ∧ listing.isSound outputArgument [] outputArgument.placesOnParent = true
        ∧ listing.forest outputArgument {} [] bindings
          = .error (.internal (.variableInConstant (.argument "x"))))
      ∧ (retypedArgument.IsConsistent
        ∧ listingBelow.isSound retypedArgument [] retypedArgument.placesOnParent = true
        ∧ listingBelow.forest retypedArgument {} [] bindings
          = .error (.internal (.variableInConstant (.argument "x")))) :=
  ⟨.of_rank (fun _ => 0) (List.forall_mem_nil _),
    ⟨by decide +kernel, by decide +kernel, rfl⟩, ⟨by decide +kernel, by decide +kernel, rfl⟩,
    ⟨by decide +kernel, by decide +kernel, rfl⟩⟩

end Unadmitted

end SelectionForest
