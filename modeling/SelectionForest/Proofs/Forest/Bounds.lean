import SelectionForest.Proofs.Forest.Growth
import SelectionForest.Proofs.Walk.Nesting

/-!
# Growth that has enough levels

Growth takes a bound on the number of levels. Two bounds give the same trees, and the same error, if
both are more than the levels that the selections nest within (`growLevel_congr`). Where fragments
do not reach themselves, the bound that growth takes without a limit on the depth is such a one
(`growLevel_levelBound`).
-/

namespace SelectionForest

theorem Cluster.flatten_selectionSets (cluster : Cluster) :
    cluster.selectionSets.flatten = cluster.merged.fields.flatMap (·.selections) :=
  (List.flatMap_def ..).symm

namespace Request

variable {request : Request} {options : Options}

theorem growTree_congr {below below' : TypeSet → List (List Selection) → Outcome (List Tree)}
    {cluster : Cluster}
    (h : ∀ types, below types cluster.selectionSets = below' types cluster.selectionSets)
    (depth rank : Nat) :
    request.growTree options below depth (cluster, rank)
      = request.growTree options below' depth (cluster, rank) := by
  simp only [growTree, h]

/-- What is below the fields of a class of occurrences nests less deep than the selections that
expand to them. -/
theorem Expands.nestsWithin_class {levels : Nat} {types : TypeSet} {selections : List Selection}
    {occs : List Occurrence} (hexp : request.Expands types [] selections occs)
    (hnests : request.fragments.NestsWithin levels selections) {cls : OccurrenceClass}
    (hcls : cls ∈ request.schema.groups occs) :
    ∃ below, levels = below + 1
      ∧ request.fragments.NestsWithin below (cls.fields.fields.flatMap (·.selections)) := by
  have hbelow : ∀ field ∈ cls.fields.fields, ∃ below, levels = below + 1
      ∧ request.fragments.NestsWithin below field.selections := fun field hfield => by
    obtain ⟨occ, hocc, rfl⟩ := OccurrenceClass.mem_fields.1 hfield
    exact hexp.nestsWithin hnests occ (Schema.mem_of_group hcls hocc)
  obtain ⟨below, rfl, -⟩ := hbelow _ List.mem_cons_self
  refine ⟨below, rfl, Fragments.NestsWithin.flatMap fun field hfield => ?_⟩
  obtain ⟨below', hlevels, hfield⟩ := hbelow field hfield
  exact Nat.succ.inj hlevels ▸ hfield

/-- What is below a cluster of a level nests less deep than the level does. -/
theorem nestsWithin_below {levels : Nat} {types : TypeSet} {sets : List (List Selection)}
    {level : Level} (hnests : request.fragments.NestsWithin levels sets.flatten)
    (h : request.level types sets = .ok level) {cluster : Cluster} {rank : Nat}
    (hmem : (cluster, rank) ∈ level.grouped) :
    ∃ below, levels = below + 1
      ∧ request.fragments.NestsWithin below cluster.selectionSets.flatten := by
  obtain ⟨occs, hexp, hgathers⟩ := level_gathers h
  obtain ⟨cls, hcls, hcluster⟩ := exists_right (grouped_gathers hgathers) hmem
  rw [Cluster.flatten_selectionSets, hcluster.merged]
  exact hexp.nestsWithin_class hnests hcls

/-- Bounds beyond the levels that the selections nest within give the same outcome. -/
theorem growLevel_congr {nesting levels more depth : Nat} {types : TypeSet}
    {sets : List (List Selection)}
    (hnests : request.fragments.NestsWithin nesting sets.flatten) (hlevels : nesting < levels)
    (hmore : nesting < more) :
    request.growLevel options levels depth types sets
      = request.growLevel options more depth types sets := by
  induction nesting using Nat.strongRecOn generalizing levels more depth types sets with
  | _ nesting ih =>
    obtain ⟨levels, rfl⟩ : ∃ n, levels = n + 1 := ⟨levels - 1, by omega⟩
    obtain ⟨more, rfl⟩ : ∃ n, more = n + 1 := ⟨more - 1, by omega⟩
    rw [growLevel, growLevel]
    cases hlevel : request.level types sets with
    | error error => rfl
    | ok level =>
      refine mapM_congr fun entry hmem => ?_
      obtain ⟨cluster, rank⟩ := entry
      refine growTree_congr (fun types => ?_) depth rank
      obtain ⟨below, rfl, hbelow⟩ := nestsWithin_below hnests hlevel hmem
      exact ih below (by omega) hbelow (by omega) (by omega)

theorem succ_le_pow_self (n : Nat) : n + 1 ≤ Nat.pow (n + 1) (n + 1) :=
  Nat.le_mul_of_pos_left (n + 1) (Nat.pow_pos (Nat.succ_pos n))

/-- With acyclic fragments, growth without a limit on the depth has more levels than the selections
of an operation nest within. -/
theorem nestsWithin_levelBound (hacyclic : request.fragments.AreAcyclic)
    (hlimit : options.depthLimit = none) (selections : List Selection) :
    ∃ nesting < request.levelBound options selections,
      request.fragments.NestsWithin nesting [selections].flatten := by
  have hnests := hacyclic.nestsWithin selections
  rw [← List.flatten_singleton (l := selections)] at hnests
  refine ⟨_, ?_, hnests⟩
  rw [List.flatten_singleton, levelBound, hlimit]
  exact Nat.lt_of_lt_of_le (succ_le_pow_self _) (Nat.le_mul_of_pos_right _ (Nat.succ_pos _))

/-- With acyclic fragments, growth without a limit on the depth has enough levels. -/
theorem growLevel_levelBound (hacyclic : request.fragments.AreAcyclic)
    (hlimit : options.depthLimit = none) (selections : List Selection) :
    ∃ nesting, ∀ levels depth types, nesting < levels →
      request.growLevel options (request.levelBound options selections) depth types [selections]
        = request.growLevel options levels depth types [selections] := by
  obtain ⟨nesting, hless, hnests⟩ := nestsWithin_levelBound hacyclic hlimit selections
  exact ⟨nesting, fun levels depth types hlevels => growLevel_congr hnests hless hlevels⟩

end Request

end SelectionForest
