import SelectionForest.Proofs.Forest.Depth
import SelectionForest.Proofs.Forest.Soundness
import SelectionForest.Proofs.Forest.Tracing
import SelectionForest.Proofs.Walk.Termination

/-!
# Forests that come to an end

Building a forest enters fragments that spread each other, and grows one level below the other. The
model bounds both and gives up beyond the bounds. Here both bounds are parameters
(`Operation.forestWithin`), and an outcome terminates if it is not that of giving up, and is what
all bounds beyond some number give (`Terminates`).

* `growLevelWithin_eq_growLevel`: a level needs no more nesting than there are fragments, if none
  reaches itself without crossing a field;
* `HasRoom.growLevel_eq`, `HasRoom.growLevel_fails`: growth that has room for its levels does not
  come to the bound on them;
* `forest_terminates`: room there is if no fragment reaches itself at all, and then the forest is
  not deeper than the fields of the operation; or if the depth is limited.
-/

namespace SelectionForest

/-- Whether an outcome is that of a computation which comes to an end by itself: the bounds that the
computation takes do not cut it off, and all bounds beyond some number give the same. -/
structure Terminates {α : Type} (within : Nat → Nat → Outcome α) (outcome : Outcome α) : Prop where
  ends : outcome ≠ .error .endless
  stays : ∃ bound, ∀ nesting levels, bound ≤ nesting → bound ≤ levels →
    within nesting levels = outcome

/-- Whether an error can come from growth: what the document asks for is refused, or the inputs do
not fit together. -/
def Options.Stops (options : Options) (error : Error) : Prop :=
  options.Refuses error ∨ error.isInternal = true

theorem Options.Stops.ne_endless {options : Options} {error : Error} (h : options.Stops error) :
    error ≠ .endless := by
  rcases h with (h | ⟨_, -, rfl⟩) | h
  · exact Error.IsOfArguments.ne_endless (.inl h)
  · nofun
  · exact Error.IsOfArguments.ne_endless (.inr h)

theorem Error.IsOfArguments.stops {options : Options} {error : Error} (h : error.IsOfArguments) :
    options.Stops error :=
  h.imp_left .inl

theorem Options.allowDepth_stops (options : Options) (depth : Nat) :
    Ends options.Stops (fun _ => ∀ limit, options.depthLimit = some limit → depth ≤ limit)
      (options.allowDepth depth) :=
  (options.allowDepth_ends depth).imp (fun _ h => .inl h) fun _ h => h

namespace Request

variable {request : Request} {options : Options}

/-! ## Bounds on nesting -/

/-- The level of selection sets, entering at most `nesting` fragments one inside the other. -/
def levelWithin (request : Request) (nesting : Nat) (types : TypeSet)
    (sets : List (List Selection)) : Outcome Level :=
  sets.foldlM (fun level selections => request.walkWithin nesting request.add types selections level)
    []

/-- The trees of a level at a depth, entering at most `nesting` fragments one inside the other, and
with at most `levels` levels. -/
def growLevelWithin (request : Request) (options : Options) (nesting : Nat) :
    Nat → Nat → TypeSet → List (List Selection) → Outcome (List Tree)
  | 0, _, _, _ => .error .endless
  | levels + 1, depth, types, sets => do
    let level ← request.levelWithin nesting types sets
    let below := growLevelWithin request options nesting levels (depth + 1)
    level.grouped.mapM (request.growTree options below depth)

/-- The trees of an operation, with bounds on the nesting of fragments and on the levels. -/
def growWithin (request : Request) (options : Options) (operation : Operation)
    (nesting levels : Nat) : Outcome (List Tree) := do
  let types ← request.typesOf operation.rootType
  options.allowDepth 1
  request.growLevelWithin options nesting levels 1 types [operation.selections]

section Nesting

variable (hlevel : request.fragments.onLevel.AreAcyclic)

include hlevel

theorem levelWithin_eq_level {nesting : Nat} (hnesting : request.fragments.length < nesting)
    (types : TypeSet) (sets : List (List Selection)) :
    request.levelWithin nesting types sets = request.level types sets := by
  have hwalk : (fun level selections =>
        request.walkWithin nesting request.add types selections level)
      = fun level selections => request.walk request.add types selections level :=
    funext fun level => funext fun selections => walkWithin_eq_walk hlevel hnesting ..
  rw [levelWithin, level, hwalk]

/-- A level needs no more nesting than there are fragments. -/
theorem growLevelWithin_eq_growLevel {nesting : Nat}
    (hnesting : request.fragments.length < nesting) (levels depth : Nat) (types : TypeSet)
    (sets : List (List Selection)) :
    request.growLevelWithin options nesting levels depth types sets
      = request.growLevel options levels depth types sets := by
  induction levels generalizing depth types sets with
  | zero => rfl
  | succ levels ih =>
    have hbelow : request.growLevelWithin options nesting levels (depth + 1)
        = request.growLevel options levels (depth + 1) :=
      funext fun types => funext fun sets => ih (depth + 1) types sets
    rw [growLevelWithin, growLevel, levelWithin_eq_level hlevel hnesting, hbelow]

/-- What may be wrong with the fields of a level. -/
theorem level_fails (types : TypeSet) (sets : List (List Selection)) :
    FailsWith Error.IsOfArguments (request.level types sets) := by
  rw [level_eq_visitSteps]
  refine Ends.foldlM (fun step hstep level _ => ?_) trivial
  have hproceeds : FailsWith Error.IsOfArguments step :=
    (steps_proceed hlevel types _ step hstep).imp (fun _ h => .inr h) fun _ h => h
  refine hproceeds.bind fun occ => ?_
  rw [visitAt]
  split
  · rename_i first _
    have hdefinition : FailsWith Error.IsOfArguments
        (request.schema.definitionOf first occ.field.name) := by
      rw [Schema.definitionOf]
      split
      · exact .ok trivial
      · exact .error (.inr rfl)
    refine hdefinition.bind fun definition => ?_
    split
    · exact .ok trivial
    · have hfound : FailsWith Error.IsOfArguments (request.found definition occ.field occ.types) :=
        (resolveArguments_fails definition occ.field.arguments).bind fun _ => .ok trivial
      exact hfound.bind fun _ => .ok trivial
  · exact .ok trivial

end Nesting

/-! ## Bounds on levels -/

theorem HasRoom.mono {levels more depth : Nat} {sets : List (List Selection)}
    (h : request.HasRoom options levels depth sets) (hle : levels ≤ more) :
    request.HasRoom options more depth sets := by
  rw [HasRoom] at h ⊢
  split at h
  · exact ⟨h.1, by omega⟩
  · obtain ⟨nesting, hless, hnests⟩ := h
    exact ⟨nesting, Nat.lt_of_lt_of_le hless hle, hnests⟩

/-- A tree grows in the same way if what is below it does, at a depth that is allowed. -/
theorem growTree_eq_of_allowed
    {below below' : TypeSet → List (List Selection) → Outcome (List Tree)} {depth : Nat}
    {cluster : Cluster}
    (h : (∀ limit, options.depthLimit = some limit → depth + 1 ≤ limit) →
      ∀ types, below types cluster.selectionSets = below' types cluster.selectionSets)
    (rank : Nat) :
    request.growTree options below depth (cluster, rank)
      = request.growTree options below' depth (cluster, rank) := by
  have hallowed := options.allowDepth_ends (depth + 1)
  rw [growTree, growTree]
  cases hallow : options.allowDepth (depth + 1) with
  | error error => rfl
  | ok _ => simp only [h (hallowed.of_ok hallow)]

/-- Growth that has room for its levels gives the same with more of them. -/
theorem HasRoom.growLevel_eq {levels more depth : Nat} {sets : List (List Selection)}
    (h : request.HasRoom options levels depth sets) (hle : levels ≤ more) (types : TypeSet) :
    request.growLevel options more depth types sets
      = request.growLevel options levels depth types sets := by
  induction levels generalizing more depth types sets with
  | zero => exact absurd h.pos (Nat.lt_irrefl 0)
  | succ levels ih =>
    obtain ⟨more, rfl⟩ : ∃ n, more = n + 1 := ⟨more - 1, by omega⟩
    rw [growLevel, growLevel]
    cases hlevel : request.level types sets with
    | error error => rfl
    | ok level =>
      refine mapM_congr fun entry hmem => ?_
      obtain ⟨cluster, rank⟩ := entry
      exact growTree_eq_of_allowed (fun hdepth =>
        ih (h.below hdepth hlevel hmem) (Nat.le_of_succ_le_succ hle)) rank

section Ends

variable (hlevel : request.fragments.onLevel.AreAcyclic)

include hlevel

/-- Growth that has room for its levels is not given up. -/
theorem HasRoom.growLevel_fails {levels depth : Nat} {sets : List (List Selection)}
    (h : request.HasRoom options levels depth sets) (types : TypeSet) :
    FailsWith options.Stops (request.growLevel options levels depth types sets) := by
  induction levels generalizing depth types sets with
  | zero => exact absurd h.pos (Nat.lt_irrefl 0)
  | succ levels ih =>
    rw [growLevel]
    have hfields : FailsWith options.Stops (request.level types sets) :=
      (level_fails hlevel types sets).imp (fun _ h => h.stops) fun _ h => h
    refine Ends.bind hfields fun level hok _ => FailsWith.mapM fun entry hmem => ?_
    obtain ⟨cluster, rank⟩ := entry
    rw [growTree]
    split
    · refine (options.allowDepth_stops (depth + 1)).bind fun _ _ hdepth => ?_
      have htypes : FailsWith options.Stops (request.typesOf cluster.type.innerName) :=
        (request.typesOf_fails _).imp (fun _ h => .inr h) fun _ h => h
      exact htypes.bind fun below =>
        FailsWith.bind (ih (h.below hdepth hok hmem) below) fun _ => .ok trivial
    · exact .ok trivial

/-- With a limit on the depth or acyclic fragments, the growth of an operation terminates. -/
theorem grow_terminates (hdeep : options.depthLimit = none → request.fragments.AreAcyclic)
    (operation : Operation) :
    Terminates (request.growWithin options operation) (request.grow options operation) where
  ends := by
    have hgrow : FailsWith options.Stops (request.grow options operation) := by
      have htypes : FailsWith options.Stops (request.typesOf operation.rootType) :=
        (request.typesOf_fails _).imp (fun _ h => .inr h) fun _ h => h
      refine htypes.bind fun types => ?_
      refine (options.allowDepth_stops 1).bind fun _ _ hdepth => ?_
      exact (hasRoom_levelBound hdeep hdepth operation.selections).growLevel_fails hlevel types
    exact fun hendless => (hgrow.of_error hendless).ne_endless rfl
  stays := by
    let bound := request.levelBound options operation.selections
    refine ⟨max (request.fragments.length + 1) bound, fun nesting levels hnesting hlevels => ?_⟩
    obtain ⟨hnesting, -⟩ := Nat.max_le.1 hnesting
    obtain ⟨-, hlevels⟩ := Nat.max_le.1 hlevels
    rw [growWithin, grow]
    refine congrArg _ (funext fun types => ?_)
    have hallowed := options.allowDepth_ends 1
    cases hallow : options.allowDepth 1 with
    | error error => rfl
    | ok _ =>
      have hroom := hasRoom_levelBound hdeep (hallowed.of_ok hallow) operation.selections
      rw [ok_bind, ok_bind, growLevelWithin_eq_growLevel hlevel hnesting,
        hroom.growLevel_eq hlevels types]

end Ends

end Request

/-! ## Bounded forests -/

/-- What comes after a computation that takes no bounds terminates with it. -/
theorem Terminates.bind {α β : Type} {x : Outcome α} {within : α → Nat → Nat → Outcome β}
    {f : α → Outcome β} (hx : x ≠ .error .endless) (h : ∀ a, Terminates (within a) (f a)) :
    Terminates (fun nesting levels => x >>= fun a => within a nesting levels) (x >>= f) := by
  cases x with
  | ok a => exact h a
  | error error =>
    exact ⟨fun hendless => hx (congrArg _ (Except.error.inj hendless)), 0, fun _ _ _ _ => rfl⟩

/-- What is made of a result terminates with it. -/
theorem Terminates.map {α β : Type} {within : Nat → Nat → Outcome α} {x : Outcome α}
    (h : Terminates within x) (f : α → β) :
    Terminates (fun nesting levels => within nesting levels >>= fun a => pure (f a))
      (x >>= fun a => pure (f a)) where
  ends := by
    cases x with
    | ok a => nofun
    | error error => exact fun hendless => h.ends (congrArg _ (Except.error.inj hendless))
  stays := by
    obtain ⟨bound, hbound⟩ := h.stays
    refine ⟨bound, fun nesting levels hnesting hlevels => ?_⟩
    rw [hbound nesting levels hnesting hlevels]

namespace Operation

/-- The forest of an operation, with bounds on the nesting of fragments and on the levels. -/
def forestWithin (operation : Operation) (schema : Schema) (options : Options)
    (fragments : Fragments) (bindings : Members) (sources : Option TracedInputs)
    (nesting levels : Nat) : Outcome Forest := do
  let request : Request := ⟨schema, fragments, bindings, sources⟩
  let trees ← request.growWithin options operation nesting levels
  pure (.ofTrees trees)

/-- The forest of an operation with the values that a request gives to its variables, with bounds on
the nesting of fragments and on the levels. -/
def forestOfValuesWithin (operation : Operation) (schema : Schema) (options : Options)
    (fragments : Fragments) (values : Members) (nesting levels : Nat) : Outcome Forest := do
  let bindings ← coerceVariables schema operation.variableDefinitions values
  let sources := sourcesFor options operation.variableDefinitions values
  operation.forestWithin schema options fragments bindings sources nesting levels

theorem forestWith_terminates {schema : Schema} {options : Options} {fragments : Fragments}
    (hlevel : fragments.onLevel.AreAcyclic)
    (hdeep : options.depthLimit = none → fragments.AreAcyclic) (operation : Operation)
    (bindings : Members) (sources : Option TracedInputs) :
    Terminates (operation.forestWithin schema options fragments bindings sources)
      (operation.forestWith schema options fragments bindings sources) := by
  let request : Request := ⟨schema, fragments, bindings, sources⟩
  have hgrow : Terminates (request.growWithin options operation) (request.grow options operation) :=
    Request.grow_terminates hlevel hdeep operation
  rw [forestWith_eq_grow]
  exact hgrow.map Forest.ofTrees

/-- The forest of an operation terminates, from coerced values and from those of a request, if no
fragment reaches itself without crossing a field, and either none reaches itself at all or the depth
is limited. In the former case its nodes are no deeper than the fields of the operation with all
fragments in place of their spreads. -/
theorem forest_terminates {schema : Schema} {options : Options} {fragments : Fragments}
    (hlevel : fragments.onLevel.AreAcyclic)
    (hdeep : fragments.AreAcyclic ∨ options.depthLimit.isSome = true) (operation : Operation) :
    (∀ bindings sources,
      Terminates (operation.forestWithin schema options fragments bindings sources)
        (operation.forestWith schema options fragments bindings sources))
    ∧ (∀ values,
      Terminates (operation.forestOfValuesWithin schema options fragments values)
        (operation.forestOfValues schema options fragments values))
    ∧ (fragments.AreAcyclic →
      (∀ bindings sources forest,
        operation.forestWith schema options fragments bindings sources = .ok forest →
        ∀ node ∈ forest.nodes, node.depth ≤ fragments.fieldDepth operation.selections)
      ∧ ∀ selections, fragments.Inlines operation.selections selections →
        fragments.fieldDepth operation.selections = fieldDepthOf selections) := by
  have hunlimited : options.depthLimit = none → fragments.AreAcyclic := fun hnone =>
    hdeep.resolve_right (by simp [hnone])
  refine ⟨forestWith_terminates hlevel hunlimited operation, fun values => ?_, fun hacyclic => ?_⟩
  · have hcoerced : FailsWith Error.IsOfVariables
        (coerceVariables schema operation.variableDefinitions values) := coerceVariables_fails ..
    have hstarts : coerceVariables schema operation.variableDefinitions values ≠ .error .endless :=
      fun hendless => (hcoerced.of_error hendless).ne_endless rfl
    exact .bind hstarts fun bindings => forestWith_terminates hlevel hunlimited operation bindings _
  · exact ⟨fun _ _ _ hforest _ hnode => depth_le_fieldDepth hforest hacyclic hnode,
      fun _ hinlines => hinlines.fieldDepth_eq⟩

end Operation

/-! ## A sample

A fragment that spreads itself below a field. -/

namespace Looping

/-- `type Query { next: Query }` -/
def schema : Schema where
  types := Schema.builtInTypes ++ [("Query", .object [] [⟨"next", [], .named "Query" false⟩])]
  query := some "Query"
  mutation := none
  subscription := none
  directives := Schema.builtInDirectives

/-- `fragment loop on Query { next { ...loop } }` -/
def loop : Fragment :=
  ⟨"loop", "Query", [], [.field (Sample.plain 0 "next" [.spread "loop" []])]⟩

/-- `{ ...loop }` -/
def operation : Operation := ⟨none, "Query", [], [.spread "loop" []]⟩

/-- The fragment reaches itself, though not on its level, and its operation ends at a limit on the
depth. The operation of another sample, whose fragments do not reach themselves, has nodes of depth
three at most. -/
theorem operation_ends :
    ¬ Fragments.AreAcyclic [loop]
      ∧ Terminates (operation.forestWithin schema { depthLimit := some 2 } [loop] [] none)
        (.error (.depthLimit 2))
      ∧ ∃ forest, Spreading.operation.forest Sample.schema {} Spreading.fragments [] = .ok forest
        ∧ forest.size = 3 ∧ ∀ node ∈ forest.nodes, node.depth ≤ 3 := by
  have hlevel : (Fragments.onLevel [loop]).AreAcyclic := .of_rank (fun _ => 0) (by decide +kernel)
  obtain ⟨hends, -, -⟩ := @Operation.forest_terminates schema { depthLimit := some 2 } [loop] hlevel
    (.inr rfl) operation
  have hspreading : Spreading.fragments.onLevel.AreAcyclic :=
    .of_rank (fun name => if name = "ofA" then 1 else 0) (by decide +kernel)
  obtain ⟨-, -, hdepth⟩ := @Operation.forest_terminates Sample.schema {} Spreading.fragments
    hspreading (.inl Spreading.areAcyclic) Spreading.operation
  obtain ⟨hnodes, hinlined⟩ := hdepth Spreading.areAcyclic
  have hthree : Spreading.fragments.fieldDepth Spreading.operation.selections = 3 :=
    hinlined _ Spreading.inlines
  obtain ⟨forest, hforest, hsize⟩ : ∃ forest,
      Spreading.operation.forest Sample.schema {} Spreading.fragments [] = .ok forest
        ∧ forest.size = 3 := ⟨_, rfl, rfl⟩
  have hcycle : Fragments.Spreads [loop] "loop" "loop" := ⟨loop, rfl, List.mem_cons_self⟩
  refine ⟨fun hacyclic => hacyclic "loop" (.single hcycle), hends [] none, forest, hforest, hsize, ?_⟩
  exact fun node hnode => hthree ▸ hnodes [] none forest hforest node hnode

end Looping

end SelectionForest
