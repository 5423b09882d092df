import SelectionForest.Proofs.Level.Classes

/-!
# Levels are grouped occurrences

A level is made field by field; each is merged into the first cluster that takes it. What comes of
it are the classes of the occurrences that the walks meet: each cluster gathers one class
(`Cluster.Gathers`), and the clusters stand by response key in the order of `Schema.groups`.

* `add_gathers`: one step, which puts an occurrence into the first class that selects the same;
* `level_gathers`: a level, in the order in which its clusters are founded;
* `grouped_gathers`: a level by response key;
* `grouped_ranks`: listing by response key keeps every rank once;
* `grouped_together`, `grouped_ascending`: it brings the clusters of a key together, in the order in
  which they were founded.
-/

namespace SelectionForest

/-- Whether a cluster is what the occurrences of a class are merged into. All but its fields and its
object types comes from the founder. -/
structure Cluster.Gathers (request : Request) (cluster : Cluster) (cls : OccurrenceClass) :
    Prop where
  merged : cluster.merged = cls.fields
  objectTypes : cluster.objectTypes = cls.objectTypes
  type : request.schema.declaredType? cls.1 = some cluster.type
  founded : ∃ first definition, cls.1.types.first? = some first
    ∧ request.schema.field? first cls.1.field.name = some definition
    ∧ resolveArguments request.schema request.bindings definition cls.1.field.arguments
      = .ok cluster.resolved
    ∧ cluster.traced
      = request.traced.map fun sources => traceArguments sources definition cls.1.field.arguments

theorem Schema.definitionOf_eq_ok {schema : Schema} {type field : Name}
    {definition : FieldDefinition} :
    schema.definitionOf type field = .ok definition
      ↔ schema.field? type field = some definition := by
  unfold definitionOf
  cases schema.field? type field <;> simp

namespace Request

variable {request : Request}

/-- The cluster that an occurrence founds gathers the class that it founds. -/
theorem found_gathers {occ : Occurrence} {first : Name} {definition : FieldDefinition}
    {cluster : Cluster} (hfirst : occ.types.first? = some first)
    (hdef : request.schema.field? first occ.field.name = some definition)
    (h : request.found definition occ.field occ.types = .ok cluster) :
    cluster.Gathers request (occ, []) := by
  obtain ⟨resolved, hresolved, h⟩ := bind_eq_ok.1 h
  obtain rfl := pure_eq_ok.1 h
  exact {
    merged := rfl
    objectTypes := rfl
    type := by simp [Schema.declaredType?, hfirst, hdef]
    founded := ⟨first, definition, hfirst, hdef, hresolved, rfl⟩ }

/-- Merging an occurrence into a cluster adds it to the class. -/
theorem merge_gathers {cluster : Cluster} {founder occ : Occurrence} {members : List Occurrence}
    (h : cluster.Gathers request (founder, members)) :
    (cluster.merge occ.field occ.types).Gathers request (founder, members ++ [occ]) where
  merged := by simp [Cluster.merge, h.merged, Bundle.push, OccurrenceClass.fields]
  objectTypes := by
    simp [Cluster.merge, h.objectTypes, OccurrenceClass.objectTypes, TypeSet.unionAll_append]
  type := h.type
  founded := h.founded

/-- A cluster takes the occurrences that select the same as the founder of its class. -/
theorem takes_eq_selectsSame {cluster : Cluster} {cls : OccurrenceClass} {occ : Occurrence}
    {type : TypeRef} (h : cluster.Gathers request cls)
    (htype : request.schema.declaredType? occ = some type) :
    cluster.takes occ.field type = request.schema.selectsSame cls.1 occ := by
  have hbeq : (some cluster.type == some type) = (cluster.type == type) := rfl
  simp only [Cluster.takes, Schema.selectsSame, h.merged, h.type, htype, hbeq]
  rfl

/-- An occurrence that is merged into a level joins the first class that takes it. -/
theorem merge?_gathers {level out : Level} {classes : List OccurrenceClass} {occ : Occurrence}
    {type : TypeRef} (hlevel : List.Forall₂ (Cluster.Gathers request) level classes)
    (htype : request.schema.declaredType? occ = some type)
    (h : level.merge? occ.field type occ.types = some out) :
    List.Forall₂ (Cluster.Gathers request) out
      (joinClass request.schema.selectsSame occ classes) := by
  induction hlevel generalizing out with
  | nil => simp [Level.merge?] at h
  | @cons cluster cls level classes hcluster hlevel ih =>
    rw [Level.merge?, takes_eq_selectsSame hcluster htype] at h
    obtain ⟨founder, members⟩ := cls
    rw [joinClass]
    by_cases hsame : request.schema.selectsSame founder occ
    · rw [if_pos hsame] at h ⊢
      obtain rfl := Option.some.inj h
      exact .cons (merge_gathers hcluster) hlevel
    · rw [if_neg hsame] at h ⊢
      obtain ⟨rest, hrest, rfl⟩ := Option.map_eq_some_iff.1 h
      exact .cons hcluster (ih hrest)

/-- An occurrence that no cluster takes founds the last class. -/
theorem joinClass_of_merge?_none {level : Level} {classes : List OccurrenceClass}
    {occ : Occurrence} {type : TypeRef}
    (hlevel : List.Forall₂ (Cluster.Gathers request) level classes)
    (htype : request.schema.declaredType? occ = some type)
    (h : level.merge? occ.field type occ.types = none) :
    joinClass request.schema.selectsSame occ classes = classes ++ [(occ, [])] := by
  induction hlevel with
  | nil => rfl
  | @cons cluster cls level classes hcluster hlevel ih =>
    rw [Level.merge?, takes_eq_selectsSame hcluster htype] at h
    obtain ⟨founder, members⟩ := cls
    rw [joinClass]
    by_cases hsame : request.schema.selectsSame founder occ
    · rw [if_pos hsame] at h
      cases h
    · rw [if_neg hsame] at h ⊢
      rw [ih (Option.map_eq_none_iff.1 h), List.cons_append]

theorem add_gathers {level out : Level} {occs : List Occurrence} {occ : Occurrence}
    (hlevel : List.Forall₂ (Cluster.Gathers request) level
      (classesBy request.schema.selectsSame occs))
    (hocc : occ.types.first?.isSome) (h : visitAt request.add level occ = .ok out) :
    List.Forall₂ (Cluster.Gathers request) out
      (classesBy request.schema.selectsSame (occs ++ [occ])) := by
  obtain ⟨first, hfirst⟩ := Option.isSome_iff_exists.1 hocc
  rw [visitAt, hfirst] at h
  obtain ⟨definition, hdef, h⟩ := bind_eq_ok.1 h
  rw [Schema.definitionOf_eq_ok] at hdef
  have htype : request.schema.declaredType? occ = some definition.type := by
    simp [Schema.declaredType?, hfirst, hdef]
  rw [classesBy_append_singleton]
  split at h
  · rename_i merged hmerge
    obtain rfl := pure_eq_ok.1 h
    exact merge?_gathers hlevel htype hmerge
  · rename_i hmerge
    obtain ⟨cluster, hfound, h⟩ := bind_eq_ok.1 h
    obtain rfl := pure_eq_ok.1 h
    rw [joinClass_of_merge?_none hlevel htype hmerge]
    exact List.rel_append hlevel (.cons (found_gathers hfirst hdef hfound) .nil)

theorem foldlM_add_gathers {occs : List Occurrence} (hoccs : ∀ occ ∈ occs, occ.types.first?.isSome)
    {done : List Occurrence} {level out : Level}
    (hlevel : List.Forall₂ (Cluster.Gathers request) level
      (classesBy request.schema.selectsSame done))
    (h : occs.foldlM (visitAt request.add) level = .ok out) :
    List.Forall₂ (Cluster.Gathers request) out
      (classesBy request.schema.selectsSame (done ++ occs)) := by
  induction occs generalizing done level with
  | nil =>
    obtain rfl := pure_eq_ok.1 h
    rwa [List.append_nil]
  | cons occ occs ih =>
    rw [List.foldlM_cons, bind_eq_ok] at h
    obtain ⟨next, hnext, h⟩ := h
    obtain ⟨hocc, hrest⟩ := List.forall_mem_cons.1 hoccs
    rw [← List.singleton_append, ← List.append_assoc]
    exact ih hrest (add_gathers hlevel hocc hnext) h

/-- The clusters of a level gather the classes of the occurrences that its walks meet. -/
theorem level_gathers {types : TypeSet} {sets : List (List Selection)} {level : Level}
    (h : request.level types sets = .ok level) :
    ∃ occs, Expands request types [] sets.flatten occs
      ∧ List.Forall₂ (Cluster.Gathers request) level
        (classesBy request.schema.selectsSame occs) := by
  obtain ⟨occs, hexp, hfold⟩ := walks_visit h
  have hnil : List.Forall₂ (Cluster.Gathers request) []
      (classesBy request.schema.selectsSame []) := by
    rw [classesBy]
    exact .nil
  refine ⟨occs, hexp, foldlM_add_gathers (fun occ hocc => ?_) hnil hfold⟩
  obtain ⟨first, hfirst⟩ := hexp.exists_type hocc
  exact Option.isSome_iff_exists.2 ⟨first, hfirst⟩

/-! ## By response key -/

/-- The clusters by response key gather the classes by response key. -/
theorem grouped_gathers {level : Level} {occs : List Occurrence}
    (h : List.Forall₂ (Cluster.Gathers request) level
      (classesBy request.schema.selectsSame occs)) :
    List.Forall₂ (fun entry cls => Cluster.Gathers request entry.1 cls) level.grouped
      (request.schema.groups occs) := by
  have hkey {cluster : Cluster} {cls : OccurrenceClass} (hc : cluster.Gathers request cls) :
      cluster.merged.responseKey = cls.1.responseKey := by
    rw [hc.merged]
    rfl
  have hsame : ∀ x y, request.schema.selectsSame x y → x.responseKey = y.responseKey :=
    fun _ _ hxy => (Schema.selectsSame_iff.1 hxy).1
  have hkeys : level.map (·.merged.responseKey)
      = (classesBy request.schema.selectsSame occs).map (·.1.responseKey) :=
    List.forall₂_eq_eq_eq ▸ List.rel_map (fun _ _ hc => hkey hc) h
  have hplaces : List.Forall₂ (fun entry cls => Cluster.Gathers request entry.1 cls) level.zipIdx
      (classesBy request.schema.selectsSame occs) := by
    rw [← List.zipIdx_map_fst 0 level, List.forall₂_map_left_iff] at h
    exact h
  rw [Level.grouped, Schema.groups, hkeys, withoutRepeats_founders hsame]
  refine List.rel_flatMap (List.forall₂_same.2 fun _ _ => rfl) ?_
  rintro key _ rfl
  dsimp only
  rw [classesBy_filter hsame]
  refine List.rel_filter (fun entry cls hc => ?_) hplaces
  dsimp only
  rw [hkey hc]

end Request

/-- What is listed by response key has the rank of its place. -/
theorem Level.getElem?_of_mem_grouped {level : Level} {entry : Cluster × Nat}
    (h : entry ∈ level.grouped) : level[entry.2]? = some entry.1 := by
  obtain ⟨_, -, hentry⟩ := List.mem_flatMap.1 h
  exact List.mem_zipIdx_iff_getElem?.1 (List.mem_filter.1 hentry).1

/-- Listing by response key keeps every rank once. -/
theorem Level.grouped_ranks (level : Level) :
    (level.grouped.map (·.2)).Perm (List.range level.length) := by
  have hkeys : level.map (·.merged.responseKey)
      = level.zipIdx.map fun entry => entry.1.merged.responseKey := calc
    _ = (level.zipIdx.map Prod.fst).map (·.merged.responseKey) := by rw [List.zipIdx_map_fst]
    _ = _ := List.map_map
  rw [Level.grouped, hkeys]
  refine ((flatMap_keys_perm level.zipIdx).map _).trans ?_
  rw [List.zipIdx_map_snd, List.range_eq_range']

/-- Listing by response key brings the clusters of a key together. -/
theorem Level.grouped_together (level : Level) :
    AreTogether (level.grouped.map (·.1.merged.responseKey)) :=
  flatMap_filter_together (nodup_withoutRepeats _) level.zipIdx

/-- Listing by response key keeps the clusters of a key in the order of foundation. -/
theorem Level.grouped_ascending (level : Level) :
    level.grouped.Pairwise fun entry later =>
      entry.1.merged.responseKey = later.1.merged.responseKey → entry.2 < later.2 := by
  have hranks : level.zipIdx.Pairwise fun entry later => entry.2 < later.2 := by
    rw [← List.pairwise_map, List.zipIdx_map_snd]
    exact List.pairwise_lt_range'
  exact flatMap_filter_pairwise (nodup_withoutRepeats _) hranks

end SelectionForest
