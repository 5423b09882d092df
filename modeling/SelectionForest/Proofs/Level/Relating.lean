import SelectionForest.Proofs.Level.Merging
import SelectionForest.Proofs.Walk.Steps

/-!
# Levels of two runs

Two runs on one schema add fields to levels side by side. A relation of clusters is kept by that if
related clusters take the same fields and merging keeps the relation: what is added is merged on
both sides, or founds a cluster on both (`merge?_rel`, `add_rel`). So it is kept by whole walks that
take the same steps (`visitSteps_rel`). Which fields a cluster takes depends on its type and on the
head of the field that founded it (`SameNode.takes`).
-/

namespace SelectionForest

/-- Whether two fields have the same alias, name and arguments. -/
structure Field.SameHead (field other : Field) : Prop where
  aliasName : other.aliasName = field.aliasName
  name : other.name = field.name
  arguments : other.arguments = field.arguments

theorem Field.SameHead.responseKey {field other : Field} (h : field.SameHead other) :
    other.responseKey = field.responseKey := by
  rw [Field.responseKey, Field.responseKey, h.aliasName, h.name]

namespace Cluster

/-- Whether two clusters are the same, but for what their merged fields select and for the fields
that were merged later. -/
structure SameNode (cluster other : Cluster) : Prop where
  first : cluster.merged.first.SameHead other.merged.first
  type : other.type = cluster.type
  objectTypes : other.objectTypes = cluster.objectTypes
  resolved : other.resolved = cluster.resolved
  traced : other.traced = cluster.traced

variable {cluster other : Cluster} {field paired : Field}

theorem SameNode.refl (cluster : Cluster) : cluster.SameNode cluster :=
  ⟨⟨rfl, rfl, rfl⟩, rfl, rfl, rfl, rfl⟩

/-- Clusters of one node take fields of one head. -/
theorem SameNode.takes (h : cluster.SameNode other) (hfield : field.SameHead paired)
    (type : TypeRef) : other.takes paired type = cluster.takes field type := by
  have hkey : other.merged.responseKey = cluster.merged.responseKey := h.first.responseKey
  have hname : other.merged.name = cluster.merged.name := h.first.name
  have harguments : other.merged.arguments = cluster.merged.arguments := h.first.arguments
  rw [Cluster.takes, Cluster.takes, hkey, hname, h.type, harguments, hfield.responseKey,
    hfield.name, hfield.arguments]

/-- Clusters of one node remain so with fields merged for the same object types. -/
theorem SameNode.merge (h : cluster.SameNode other) (field paired : Field) (types : TypeSet) :
    (cluster.merge field types).SameNode (other.merge paired types) where
  first := h.first
  type := h.type
  objectTypes := congrArg (TypeSet.union · types) h.objectTypes
  resolved := h.resolved
  traced := h.traced

theorem fields_merge (cluster : Cluster) (field : Field) (types : TypeSet) :
    (cluster.merge field types).merged.fields = cluster.merged.fields ++ [field] := rfl

end Cluster

/-- Whether two fields go to the same clusters: those of one run that take the one are related to
those of the other run that take the other, and merging keeps clusters related. -/
structure GoTogether (C : Cluster → Cluster → Prop) (type : TypeRef) (types : TypeSet)
    (field paired : Field) : Prop where
  takes : ∀ {cluster other}, C cluster other →
    other.takes paired type = cluster.takes field type
  merge : ∀ {cluster other}, C cluster other → cluster.takes field type = true →
    C (cluster.merge field types) (other.merge paired types)

variable {C : Cluster → Cluster → Prop}

/-- Fields that go together are merged into related clusters, or into none. -/
theorem Level.merge?_rel {level others : Level} {field paired : Field} {type : TypeRef}
    {types : TypeSet} (htogether : GoTogether C type types field paired)
    (h : List.Forall₂ C level others) :
    Option.Rel (List.Forall₂ C) (level.merge? field type types)
      (others.merge? paired type types) := by
  induction h with
  | nil => exact .none
  | @cons cluster other level others hcluster hlevel ih =>
    rw [merge?, merge?, htogether.takes hcluster]
    by_cases htakes : cluster.takes field type
    · rw [if_pos htakes, if_pos htakes]
      exact .some (.cons (htogether.merge hcluster htakes) hlevel)
    · rw [if_neg htakes, if_neg htakes]
      generalize Level.merge? field type types level = out at ih ⊢
      generalize Level.merge? paired type types others = out' at ih ⊢
      cases ih with
      | none => exact .none
      | some hrest => exact .some (.cons hcluster hrest)

namespace Request

variable {request other : Request} {apart : Prop} {level others : Level} {occ paired : Occurrence}

/-- Adding keeps levels related, if it does where fields are merged and where they found a
cluster. -/
theorem add_rel (hschema : other.schema = request.schema) (htypes : paired.types = occ.types)
    (hname : paired.field.name = occ.field.name)
    (htogether : ∀ first definition, occ.types.first? = some first →
      request.schema.definitionOf first occ.field.name = .ok definition →
      GoTogether C definition.type occ.types occ.field paired.field)
    (hfound : ∀ definition, AgreeUnless apart C (request.found definition occ.field occ.types)
      (other.found definition paired.field occ.types))
    (hlevel : List.Forall₂ C level others) :
    AgreeUnless apart (List.Forall₂ C) (visitAt request.add level occ)
      (visitAt other.add others paired) := by
  rw [visitAt, visitAt, htypes]
  cases hfirst : occ.types.first? with
  | none => exact .ok hlevel
  | some first =>
    dsimp only
    rw [add, add, hschema, hname]
    refine .bind_left _ fun definition hdefinition => ?_
    have hmerge := Level.merge?_rel (htogether first definition hfirst hdefinition) hlevel
    generalize level.merge? occ.field definition.type occ.types = out at hmerge ⊢
    generalize others.merge? paired.field definition.type occ.types = out' at hmerge ⊢
    cases hmerge with
    | some hmerged => exact .ok hmerged
    | none =>
      exact (hfound definition).bind fun _ _ hcluster =>
        .ok (List.rel_append hlevel (.cons hcluster .nil))

/-- Visiting the same steps keeps levels related, if adding what they come to does. -/
theorem visitSteps_rel {steps : List Step}
    (hadd : ∀ occ : Occurrence, .ok occ ∈ steps → ∀ level others, List.Forall₂ C level others →
      AgreeUnless apart (List.Forall₂ C) (visitAt request.add level occ)
        (visitAt other.add others occ))
    (hlevel : List.Forall₂ C level others) :
    AgreeUnless apart (List.Forall₂ C) (visitSteps request.add steps level)
      (visitSteps other.add steps others) := by
  induction steps generalizing level others with
  | nil => exact .ok hlevel
  | cons step steps ih =>
    unfold visitSteps at ih ⊢
    rw [List.foldlM_cons, List.foldlM_cons]
    cases step with
    | error error => exact .error error
    | ok occ =>
      have hadded := hadd occ List.mem_cons_self level others hlevel
      refine hadded.bind fun _ _ hout => ih (fun later hlater => ?_) hout
      exact hadd later (List.mem_cons_of_mem _ hlater)

end Request

end SelectionForest
