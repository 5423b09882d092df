import SelectionForest.Proofs.Level.Mirroring
import SelectionForest.Proofs.Level.Relating

/-!
# Occurrences that are divided

Several occurrences may stand for one: they have its head and its type, and their object types are
together those that it has (`Schema.Divides`). Where a walk comes to the parts in place of the one
occurrence, they end up in one cluster, at the place that the occurrence has in the level
(`add_divided`). So the levels are the same, but for the fields merged into that cluster
(`visitSteps_divided`).

* `merge?_eq_some`: the first cluster that takes a field merges it;
* `visitSteps_parts`: the parts that follow the first one are merged where that was put.
-/

namespace SelectionForest

/-! ## Unions -/

namespace TypeSet

theorem union_assoc (set other third : TypeSet) :
    (set.union other).union third = set.union (other.union third) := by
  refine ext_names ?_
  show (set.names ++ other.names.filter (· ∉ set.names))
      ++ third.names.filter (· ∉ set.names ++ other.names.filter (· ∉ set.names))
    = set.names ++ (other.names ++ third.names.filter (· ∉ other.names)).filter (· ∉ set.names)
  rw [List.filter_append, List.append_assoc, List.filter_filter]
  congr 2
  refine List.filter_congr fun name _ => ?_
  by_cases hset : name ∈ set.names <;> simp [hset]

theorem union_unionAll (set other : TypeSet) (others : List TypeSet) :
    (set.union other).unionAll others = set.union (other.unionAll others) := by
  induction others generalizing other with
  | nil => rfl
  | cons third others ih =>
    show ((set.union other).union third).unionAll others = _
    rw [union_assoc, ih]
    rfl

/-- The union with single names that are missing puts them behind one another. -/
theorem names_unionAll_singleton {set : TypeSet} {names : List Name}
    (h : (set.names ++ names).Nodup) :
    (set.unionAll (names.map singleton)).names = set.names ++ names := by
  induction names generalizing set with
  | nil => exact (List.append_nil _).symm
  | cons name names ih =>
    have hmissing : name ∉ set.names := fun hname =>
      (List.nodup_append.1 h).2.2 name hname name List.mem_cons_self rfl
    have hunion : (set.union (singleton name)).names = set.names ++ [name] := by
      show set.names ++ [name].filter (· ∉ set.names) = _
      rw [List.filter_cons_of_pos (by simpa using hmissing), List.filter_nil]
    rw [List.append_cons] at h ⊢
    rw [← hunion] at h ⊢
    exact ih h

/-- A set is the union of its single names, in their order. -/
theorem unionAll_singleton {set : TypeSet} {first : Name} {rest : List Name}
    (h : set.names = first :: rest) : (singleton first).unionAll (rest.map singleton) = set := by
  refine ext_names ?_
  have hnodup : ((singleton first).names ++ rest).Nodup := by
    show (first :: rest).Nodup
    rw [← h]
    exact set.nodup
  rw [names_unionAll_singleton hnodup, h]
  rfl

end TypeSet

/-! ## Clusters -/

/-- Merges the fields of occurrences one after the other. -/
def Cluster.mergeAll (cluster : Cluster) (occs : List Occurrence) : Cluster :=
  occs.foldl (fun cluster occ => cluster.merge occ.field occ.types) cluster

namespace Cluster

variable {cluster : Cluster}

theorem mergeAll_cons (cluster : Cluster) (occ : Occurrence) (occs : List Occurrence) :
    cluster.mergeAll (occ :: occs) = (cluster.merge occ.field occ.types).mergeAll occs := rfl

/-- Merging adds fields and object types, and changes nothing else. -/
theorem mergeAll_eq (cluster : Cluster) (occs : List Occurrence) :
    cluster.mergeAll occs = { cluster with
      merged := ⟨cluster.merged.first, cluster.merged.more ++ occs.map (·.field)⟩
      objectTypes := cluster.objectTypes.unionAll (occs.map (·.types)) } := by
  induction occs generalizing cluster with
  | nil =>
    rw [List.map_nil, List.map_nil, List.append_nil]
    rfl
  | cons occ occs ih =>
    rw [mergeAll_cons, ih, List.map_cons, List.append_cons]
    rfl

end Cluster

/-- Whether two clusters are the same, but for one merged field, which others stand for in a cluster
of the given type. -/
structure Cluster.Divides (field : Field) (fields : List Field) (declared : TypeRef)
    (cluster other : Cluster) : Prop extends Cluster.SameNode cluster other where
  fields : other.merged.fields = cluster.merged.fields ∨ cluster.type = declared
    ∧ ∃ before after, cluster.merged.fields = before ++ field :: after
      ∧ other.merged.fields = before ++ fields ++ after

namespace Cluster.Divides

variable {field : Field} {fields : List Field} {type : TypeRef} {cluster other : Cluster}

theorem refl (cluster : Cluster) : cluster.Divides field fields type cluster :=
  ⟨.refl cluster, .inl rfl⟩

theorem refl_level (level : Level) :
    List.Forall₂ (Cluster.Divides field fields type) level level :=
  List.forall₂_same.2 fun cluster _ => refl cluster

theorem merge (h : cluster.Divides field fields type other) (added : Field) (types : TypeSet) :
    (cluster.merge added types).Divides field fields type (other.merge added types) where
  toSameNode := h.toSameNode.merge added added types
  fields := by
    rw [fields_merge, fields_merge]
    rcases h.fields with hfields | ⟨htype, before, after, hfields, hothers⟩
    · exact .inl (by rw [hfields])
    · refine .inr ⟨htype, before, after ++ [added], ?_, ?_⟩
      · rw [hfields, List.append_assoc, List.cons_append]
      · rw [hothers, List.append_assoc, List.append_assoc]

theorem goTogether (added : Field) (type' : TypeRef) (types : TypeSet) :
    GoTogether (Cluster.Divides field fields type) type' types added added where
  takes h := h.toSameNode.takes ⟨rfl, rfl, rfl⟩ type'
  merge h _ := h.merge added types

end Cluster.Divides

/-! ## Merging -/

namespace Level

variable {level out before after : Level} {cluster : Cluster} {field : Field} {type : TypeRef}
  {types : TypeSet}

theorem merge?_eq_none : level.merge? field type types = none
    ↔ ∀ cluster ∈ level, cluster.takes field type = false := by
  induction level with
  | nil => exact iff_of_true rfl (List.forall_mem_nil _)
  | cons cluster level ih =>
    rw [merge?, List.forall_mem_cons]
    cases htakes : cluster.takes field type with
    | true => simp
    | false => simpa using ih

/-- A field is merged into the first cluster that takes it. -/
theorem merge?_of_takes (hbefore : ∀ other ∈ before, other.takes field type = false)
    (htakes : cluster.takes field type = true) :
    Level.merge? field type types (before ++ cluster :: after)
      = some (before ++ cluster.merge field types :: after) := by
  induction before with
  | nil => rw [List.nil_append, merge?, if_pos htakes, List.nil_append]
  | cons other before ih =>
    obtain ⟨hother, hrest⟩ := List.forall_mem_cons.1 hbefore
    rw [List.cons_append, merge?, if_neg (by simp [hother]), ih hrest]
    rfl

theorem merge?_eq_some (h : level.merge? field type types = some out) :
    ∃ before cluster after, level = before ++ cluster :: after
      ∧ (∀ other ∈ before, other.takes field type = false) ∧ cluster.takes field type = true
      ∧ out = before ++ cluster.merge field types :: after := by
  induction level generalizing out with
  | nil => cases h
  | cons cluster level ih =>
    rw [merge?] at h
    cases htakes : cluster.takes field type with
    | true =>
      rw [if_pos htakes] at h
      exact ⟨[], cluster, level, rfl, List.forall_mem_nil _, htakes, (Option.some.inj h).symm⟩
    | false =>
      rw [if_neg (by simp [htakes])] at h
      obtain ⟨rest, hrest, rfl⟩ := Option.map_eq_some_iff.1 h
      obtain ⟨before, taking, after, rfl, hbefore, htaking, rfl⟩ := ih hrest
      exact ⟨cluster :: before, taking, after, rfl, List.forall_mem_cons.2 ⟨htakes, hbefore⟩,
        htaking, rfl⟩

end Level

/-! ## Parts of an occurrence -/

/-- The declared type of an occurrence is that of its field on the first of its object types. -/
theorem Schema.declaredType?_eq_some {schema : Schema} {occ : Occurrence} {type : TypeRef} :
    schema.declaredType? occ = some type ↔ ∃ object definition, occ.types.first? = some object
      ∧ schema.field? object occ.field.name = some definition ∧ definition.type = type := by
  simp only [declaredType?, Option.bind_eq_bind, Option.bind_eq_some_iff, Option.pure_def,
    Option.some.injEq, exists_and_left]

/-- Whether occurrences, the first of which is given apart, stand for another one. If there are
several, the arguments have to be like themselves, so that the parts are merged with one another. -/
structure Schema.Divides (schema : Schema) (type : TypeRef) (occ first : Occurrence)
    (more : List Occurrence) : Prop where
  head : ∀ part ∈ first :: more, occ.field.SameHead part.field
  declared : ∀ part ∈ first :: more, schema.declaredType? part = some type
  starts : first.types.first? = occ.types.first?
  union : first.types.unionAll (more.map (·.types)) = occ.types
  like : more ≠ [] → areLike occ.field.arguments occ.field.arguments = true

namespace Request

variable {request : Request} {type : TypeRef} {occ first : Occurrence} {more : List Occurrence}

/-- Adding an occurrence whose definition is known. -/
theorem visitAt_add {object : Name} {definition : FieldDefinition}
    (hobject : occ.types.first? = some object)
    (hdefinition : request.schema.field? object occ.field.name = some definition) (level : Level) :
    visitAt request.add level occ
      = match level.merge? occ.field definition.type occ.types with
        | some merged => .ok merged
        | none => request.found definition occ.field occ.types >>= fun cluster =>
          .ok (level ++ [cluster]) := by
  have hdef := Schema.definitionOf_eq_ok.2 hdefinition
  rw [visitAt, hobject]
  show request.add level occ.field object occ.types = _
  rw [add, hdef, ok_bind]
  cases level.merge? occ.field definition.type occ.types <;> rfl

/-- Occurrences that one cluster takes, and none before it, are merged into that cluster. -/
theorem visitSteps_parts {before after : Level} {cluster : Cluster} {parts : List Occurrence}
    (htype : ∀ part ∈ parts, request.schema.declaredType? part = some type)
    (hbefore : ∀ part ∈ parts, ∀ other ∈ before, other.takes part.field type = false)
    (htakes : ∀ part ∈ parts, cluster.takes part.field type = true) :
    visitSteps request.add (parts.map .ok) (before ++ cluster :: after)
      = .ok (before ++ cluster.mergeAll parts :: after) := by
  induction parts generalizing cluster with
  | nil => rfl
  | cons part parts ih =>
    obtain ⟨htype, htypes⟩ := List.forall_mem_cons.1 htype
    obtain ⟨hbefore, hbefores⟩ := List.forall_mem_cons.1 hbefore
    obtain ⟨htaken, htakes⟩ := List.forall_mem_cons.1 htakes
    obtain ⟨object, definition, hobject, hdefinition, rfl⟩ := Schema.declaredType?_eq_some.1 htype
    have hadded : visitAt request.add (before ++ cluster :: after) part
        = .ok (before ++ cluster.merge part.field part.types :: after) := by
      rw [visitAt_add hobject hdefinition, Level.merge?_of_takes hbefore htaken]
    rw [List.map_cons]
    show (visitAt request.add _ part >>= visitSteps request.add (parts.map .ok)) = _
    rw [hadded, ok_bind, Cluster.mergeAll_cons]
    exact ih htypes hbefores htakes

section Divided

variable (h : request.schema.Divides type occ first more)

include h

/-- Clusters take the parts of an occurrence if they take the occurrence. -/
theorem takes_part {part : Occurrence} (hpart : part ∈ first :: more) (cluster : Cluster) :
    cluster.takes part.field type = cluster.takes occ.field type :=
  (Cluster.SameNode.refl cluster).takes (h.head part hpart) type

/-- The parts that are merged into a cluster stand for the occurrence that is merged into it. -/
theorem merge_divided (cluster : Cluster) (htype : cluster.type = type) :
    (cluster.merge occ.field occ.types).Divides occ.field ((first :: more).map (·.field)) type
      (cluster.mergeAll (first :: more)) := by
  rw [Cluster.mergeAll_eq]
  refine ⟨⟨⟨rfl, rfl, rfl⟩, rfl, ?_, rfl, rfl⟩, .inr ⟨htype, cluster.merged.fields, [], rfl, ?_⟩⟩
  · show (cluster.objectTypes.union first.types).unionAll (more.map (·.types))
      = cluster.objectTypes.union occ.types
    rw [TypeSet.union_unionAll, h.union]
  · rw [List.append_nil]
    rfl

/-- A cluster that the first part founds and the others are merged into stands for the one that the
occurrence founds. -/
theorem found_divided (resolved : Members) (traced : Option TracedInputs) :
    Cluster.Divides occ.field ((first :: more).map (·.field)) type
      ⟨⟨occ.field, []⟩, type, occ.types, resolved, traced⟩
      (Cluster.mergeAll ⟨⟨first.field, []⟩, type, first.types, resolved, traced⟩ more) := by
  rw [Cluster.mergeAll_eq]
  have hhead := h.head first List.mem_cons_self
  refine ⟨⟨hhead, rfl, h.union, rfl, rfl⟩, .inr ⟨rfl, [], [], rfl, ?_⟩⟩
  rw [List.append_nil]
  rfl

/-- Where the occurrence is merged into a cluster, all its parts are merged into that one. -/
theorem merged_divided {level out : Level}
    (hmerge : level.merge? occ.field type occ.types = some out) :
    ∃ others, visitSteps request.add ((first :: more).map .ok) level = .ok others
      ∧ List.Forall₂ (Cluster.Divides occ.field ((first :: more).map (·.field)) type) out others := by
  obtain ⟨before, cluster, after, rfl, hbefore, htakes, rfl⟩ := Level.merge?_eq_some hmerge
  have htype : cluster.type = type := by
    simp only [Cluster.takes, Bool.and_eq_true, beq_iff_eq] at htakes
    exact htakes.1.2
  refine ⟨before ++ cluster.mergeAll (first :: more) :: after, ?_, ?_⟩
  · refine visitSteps_parts h.declared (fun part hpart other hother => ?_) (fun part hpart => ?_)
    · rw [takes_part h hpart]
      exact hbefore other hother
    · rw [takes_part h hpart]
      exact htakes
  · have hmerged := merge_divided h cluster htype
    exact List.rel_append (Cluster.Divides.refl_level before) (.cons hmerged (Cluster.Divides.refl_level after))

/-- Where no cluster takes the occurrence, all its parts are merged into the cluster that the first
one founds. -/
theorem founded_divided {level : Level} (hnone : ∀ other ∈ level, other.takes occ.field type = false)
    (resolved : Members) (traced : Option TracedInputs) :
    visitSteps request.add (more.map .ok)
        (level ++ [⟨⟨first.field, []⟩, type, first.types, resolved, traced⟩])
      = .ok (level
        ++ [Cluster.mergeAll ⟨⟨first.field, []⟩, type, first.types, resolved, traced⟩ more]) := by
  have hhead := h.head first List.mem_cons_self
  have hdeclared : ∀ part ∈ more, request.schema.declaredType? part = some type :=
    fun part hpart => h.declared part (List.mem_cons_of_mem _ hpart)
  refine visitSteps_parts hdeclared (fun part hpart other hother => ?_) (fun part hpart => ?_)
  · rw [takes_part h (List.mem_cons_of_mem _ hpart)]
    exact hnone other hother
  · rw [takes_part h (List.mem_cons_of_mem _ hpart)]
    have hlike := h.like (List.ne_nil_of_mem hpart)
    simp [Cluster.takes, Bundle.responseKey, Bundle.name, Bundle.arguments, hhead.responseKey,
      hhead.name, hhead.arguments, hlike]

/-- Adding the parts of an occurrence in its place gives the same level, but for the merged
fields. -/
theorem add_divided (level : Level) :
    Agree (List.Forall₂ (Cluster.Divides occ.field ((first :: more).map (·.field)) type))
      (visitAt request.add level occ)
      (visitSteps request.add ((first :: more).map .ok) level) := by
  have hfirst := h.declared first List.mem_cons_self
  have hhead := h.head first List.mem_cons_self
  obtain ⟨object, definition, hobject, hdefinition, rfl⟩ := Schema.declaredType?_eq_some.1 hfirst
  rw [visitAt_add (h.starts ▸ hobject) (hhead.name ▸ hdefinition)]
  cases hmerge : level.merge? occ.field definition.type occ.types with
  | some merged =>
    obtain ⟨others, hparts, hdivides⟩ := merged_divided h hmerge
    rw [hparts]
    exact .ok hdivides
  | none =>
    have hnone := Level.merge?_eq_none.1 hmerge
    have hmerge' : level.merge? first.field definition.type first.types = none :=
      Level.merge?_eq_none.2 fun other hother => by
        rw [takes_part h List.mem_cons_self]
        exact hnone other hother
    rw [List.map_cons]
    show Agree _ _ (visitAt request.add level first >>= visitSteps request.add (more.map .ok))
    rw [visitAt_add hobject hdefinition, hmerge']
    dsimp only
    unfold found
    rw [hhead.arguments]
    cases hresolved : resolveArguments request.schema request.bindings definition
        occ.field.arguments with
    | error error => exact .error error
    | ok resolved =>
      generalize htraced : (request.traced.map fun sources =>
        traceArguments sources definition occ.field.arguments) = traced
      show Agree _ (.ok _) (visitSteps request.add (more.map .ok) (level ++ [_]))
      rw [founded_divided h hnone resolved traced]
      have hfounded := found_divided h resolved traced
      exact .ok (List.rel_append (Cluster.Divides.refl_level level) (.cons hfounded .nil))

/-- Where the parts of an occurrence stand in its place among the steps of a walk, the levels are the
same but for the merged fields, or the walks end with the same error. -/
theorem visitSteps_divided (before after : List Step) :
    Agree (List.Forall₂ (Cluster.Divides occ.field ((first :: more).map (·.field)) type))
      (visitSteps request.add (before ++ .ok occ :: after) [])
      (visitSteps request.add (before ++ (first :: more).map .ok ++ after) []) := by
  have hafter {level others : Level} (hlevel : List.Forall₂
      (Cluster.Divides occ.field ((first :: more).map (·.field)) type) level others) :
      Agree (List.Forall₂ (Cluster.Divides occ.field ((first :: more).map (·.field)) type))
        (visitSteps request.add after level) (visitSteps request.add after others) := by
    refine (visitSteps_rel (fun added _ level others hlevel => ?_) hlevel).agree id
    refine add_rel rfl rfl rfl (fun _ definition _ _ => ?_) (fun definition => ?_) hlevel
    · exact Cluster.Divides.goTogether added.field definition.type added.types
    · exact (Agree.refl Cluster.Divides.refl _).unless False
  rw [List.append_assoc, visitSteps_append, visitSteps_append]
  refine .bind_left _ fun level => ?_
  rw [visitSteps_append]
  show Agree _ (visitAt request.add level occ >>= visitSteps request.add after) _
  exact (add_divided h level).bind fun _ _ => hafter

end Divided

end Request

end SelectionForest
