import SelectionForest.Proofs.Level.Relating
import SelectionForest.Proofs.Padding

/-!
# Levels of two documents

A `Pairing` says which field of a document stands in place of which field of another one, and which
fields of the latter copy one before them. If the steps of two walks are paired in this way, so are
the levels that come of them (`visitSteps_mirrors`): they have the same clusters, but for copies
among the merged fields (`Cluster.Mirrors`), or the walks end with the same error.

What carries the induction is that a level holds the fields that it was given (`Level.Holds`): the
first cluster that takes such a field has merged it already, and has its object types. So a copy is
merged where the original is, and adds no object type (`Level.Holds.absorbs`).
-/

namespace SelectionForest

/-- The union with types that are there already. -/
theorem TypeSet.union_of_subset {set other : TypeSet} (h : other.names ⊆ set.names) :
    set.union other = set := by
  refine TypeSet.ext_names ?_
  have hnone : other.names.filter (· ∉ set.names) = [] :=
    List.filter_eq_nil_iff.2 fun name hname => by simp [h hname]
  show set.names ++ other.names.filter (· ∉ set.names) = set.names
  rw [hnone, List.append_nil]

/-- How the fields of one document stand for those of another one. -/
structure Pairing where
  /-- Whether a field stands in place of another one. -/
  matched : Field → Field → Prop
  /-- Whether a field copies another one of its document. -/
  copied : Field → Field → Prop
  matched_head : ∀ {field other}, matched field other → field.SameHead other
  copied_head : ∀ {field copy}, copied field copy → field.SameHead copy
  copied_like : ∀ {field copy}, copied field copy → areLike field.arguments field.arguments

/-- The pairing of documents without copies. -/
def Pairing.withoutCopies (matched : Field → Field → Prop)
    (hhead : ∀ {field other}, matched field other → field.SameHead other) : Pairing where
  matched := matched
  copied _ _ := False
  matched_head := hhead
  copied_head h := h.elim
  copied_like h := h.elim

/-- Whether two occurrences have related fields and the same object types. -/
structure Occurrence.Like (R : Field → Field → Prop) (occ other : Occurrence) : Prop where
  types : other.types = occ.types
  field : R occ.field other.field

namespace Pairing

/-- Whether fields stand in place of others, with copies put in. -/
def Fields (pairing : Pairing) : List Field → List Field → Prop :=
  Padded pairing.matched pairing.copied

/-- Whether the steps of two walks are paired: they come to the same errors and to fields that are
paired, for the same object types. -/
def Steps (pairing : Pairing) : List Step → List Step → Prop :=
  Padded (Agree (Occurrence.Like pairing.matched)) (Agree (Occurrence.Like pairing.copied))

/-- Whether the steps of a walk copy those of another one in the same document. -/
def CopiedSteps (pairing : Pairing) : List Step → List Step → Prop :=
  List.Forall₂ (Agree (Occurrence.Like pairing.copied))

theorem Steps.error (pairing : Pairing) (error : Error) :
    pairing.Steps [.error error] [.error error] :=
  .singleton (.error error)

theorem Steps.visit {pairing : Pairing} {field other : Field}
    (h : pairing.matched field other) (types : TypeSet) :
    pairing.Steps [.ok ⟨field, types⟩] [.ok ⟨other, types⟩] :=
  .singleton (.ok ⟨rfl, h⟩)

theorem CopiedSteps.error (pairing : Pairing) (error : Error) :
    pairing.CopiedSteps [.error error] [.error error] :=
  .cons (.error error) .nil

theorem CopiedSteps.visit {pairing : Pairing} {field copy : Field}
    (h : pairing.copied field copy) (types : TypeSet) :
    pairing.CopiedSteps [.ok ⟨field, types⟩] [.ok ⟨copy, types⟩] :=
  .cons (.ok ⟨rfl, h⟩) .nil

section Under

variable {pairing : Pairing} {request : Request} {condition : Option Name}
  {directives : List Directive} {next next' : TypeSet → List Step}

/-- Steps below the same directives and the same type condition are paired if those further below
are. -/
theorem Steps.under (h : ∀ left, pairing.Steps (next left) (next' left)) (types : TypeSet) :
    pairing.Steps (request.stepsUnder condition directives types next)
      (request.stepsUnder condition directives types next') :=
  Request.stepsUnder_rel .nil (Steps.error pairing) _ _ _ h

theorem CopiedSteps.under (h : ∀ left, pairing.CopiedSteps (next left) (next' left))
    (types : TypeSet) : pairing.CopiedSteps (request.stepsUnder condition directives types next)
      (request.stepsUnder condition directives types next') :=
  Request.stepsUnder_rel .nil (CopiedSteps.error pairing) _ _ _ h

end Under

end Pairing

/-- Whether two clusters are the same, but for the fields that are paired. -/
structure Cluster.Mirrors (pairing : Pairing) (cluster other : Cluster) : Prop where
  first : pairing.matched cluster.merged.first other.merged.first
  fields : pairing.Fields cluster.merged.fields other.merged.fields
  type : other.type = cluster.type
  objectTypes : other.objectTypes = cluster.objectTypes
  resolved : other.resolved = cluster.resolved
  traced : other.traced = cluster.traced

namespace Cluster

variable {pairing : Pairing} {cluster other : Cluster} {field paired : Field}

namespace Mirrors

theorem sameNode (h : cluster.Mirrors pairing other) : cluster.SameNode other :=
  ⟨pairing.matched_head h.first, h.type, h.objectTypes, h.resolved, h.traced⟩

theorem merge (h : cluster.Mirrors pairing other) (hfield : pairing.matched field paired)
    (types : TypeSet) :
    (cluster.merge field types).Mirrors pairing (other.merge paired types) := by
  have hmerged := h.sameNode.merge field paired types
  exact ⟨h.first, h.fields.keep hfield, hmerged.type, hmerged.objectTypes, hmerged.resolved,
    hmerged.traced⟩

/-- Paired fields go to paired clusters. -/
theorem goTogether (hfield : pairing.matched field paired) (type : TypeRef) (types : TypeSet) :
    GoTogether (Mirrors pairing) type types field paired where
  takes h := h.sameNode.takes (pairing.matched_head hfield) type
  merge h _ := h.merge hfield types

end Mirrors

end Cluster

/-! ## Clusters that stand for a field -/

namespace Level

variable {pairing : Pairing} {level others : Level} {field paired copy : Field}
  {type type' : TypeRef} {types types' : TypeSet}

/-- Whether the first cluster that takes a field has merged it already, for the given object
types. -/
def Holds (field : Field) (type : TypeRef) (types : TypeSet) : Level → Prop
  | [] => False
  | cluster :: level =>
    if cluster.takes field type then
      field ∈ cluster.merged.fields ∧ types.names ⊆ cluster.objectTypes.names
    else Holds field type types level

theorem Holds.append (h : level.Holds field type types) (more : Level) :
    Level.Holds field type types (level ++ more) := by
  induction level with
  | nil => exact h.elim
  | cons cluster level ih =>
    rw [List.cons_append, Holds]
    rw [Holds] at h
    by_cases htakes : cluster.takes field type
    · rwa [if_pos htakes] at h ⊢
    · rw [if_neg htakes] at h ⊢
      exact ih h

/-- What a level holds it still holds with one field more. -/
theorem Holds.merge? (h : level.Holds field type types) {added : Field} {out : Level}
    (hout : level.merge? added type' types' = some out) : out.Holds field type types := by
  induction level generalizing out with
  | nil => exact h.elim
  | cons cluster level ih =>
    rw [Level.merge?] at hout
    rw [Holds] at h
    by_cases hadded : cluster.takes added type'
    · rw [if_pos hadded] at hout
      obtain rfl := Option.some.inj hout
      have htakes : (cluster.merge added types').takes field type = cluster.takes field type := rfl
      rw [Holds, htakes]
      by_cases hfield : cluster.takes field type
      · rw [if_pos hfield] at h ⊢
        exact ⟨List.mem_append_left _ h.1,
          List.Subset.trans h.2 (List.subset_append_left _ _)⟩
      · rwa [if_neg hfield] at h ⊢
    · rw [if_neg hadded] at hout
      obtain ⟨rest, hrest, rfl⟩ := Option.map_eq_some_iff.1 hout
      rw [Holds]
      by_cases hfield : cluster.takes field type
      · rwa [if_pos hfield] at h ⊢
      · rw [if_neg hfield] at h ⊢
        exact ih h hrest

/-- A level holds the field that was merged into it. -/
theorem holds_of_merge? {out : Level} (h : level.merge? field type types = some out) :
    out.Holds field type types := by
  induction level generalizing out with
  | nil => cases h
  | cons cluster level ih =>
    rw [merge?] at h
    by_cases htakes : cluster.takes field type
    · rw [if_pos htakes] at h
      obtain rfl := Option.some.inj h
      have htakes' : (cluster.merge field types).takes field type = true := htakes
      rw [Holds, if_pos htakes', Cluster.fields_merge]
      refine ⟨List.mem_append_right _ List.mem_cons_self, fun name hname => ?_⟩
      exact TypeSet.mem_union.2 (.inr hname)
    · rw [if_neg htakes] at h
      obtain ⟨rest, hrest, rfl⟩ := Option.map_eq_some_iff.1 h
      rw [Holds, if_neg htakes]
      exact ih hrest

/-- A level holds the field that founded its last cluster, if it is like itself. -/
theorem holds_of_founded {cluster : Cluster} (hnone : level.merge? field type types = none)
    (htakes : cluster.takes field type = true) (hfield : field ∈ cluster.merged.fields)
    (htypes : types.names ⊆ cluster.objectTypes.names) :
    Level.Holds field type types (level ++ [cluster]) := by
  induction level with
  | nil =>
    rw [List.nil_append, Holds, if_pos htakes]
    exact ⟨hfield, htypes⟩
  | cons other level ih =>
    rw [merge?] at hnone
    by_cases hother : other.takes field type
    · rw [if_pos hother] at hnone
      cases hnone
    · rw [if_neg hother, Option.map_eq_none_iff] at hnone
      rw [List.cons_append, Holds, if_neg hother]
      exact ih hnone

/-- A copy of a field that a level holds is merged where the field is, and adds no object type. -/
theorem Holds.absorbs (hlevel : List.Forall₂ (Cluster.Mirrors pairing) level others)
    (h : others.Holds field type types) (hcopy : pairing.copied field copy) :
    ∃ out, others.merge? copy type types = some out
      ∧ List.Forall₂ (Cluster.Mirrors pairing) level out := by
  induction hlevel with
  | nil => exact h.elim
  | @cons cluster other level others hcluster hlevel ih =>
    rw [Holds] at h
    rw [Level.merge?, (Cluster.SameNode.refl other).takes (pairing.copied_head hcopy)]
    by_cases htakes : other.takes field type
    · rw [if_pos htakes] at h ⊢
      obtain ⟨hmerged, htypes⟩ := h
      refine ⟨_, rfl, .cons ⟨hcluster.first, hcluster.fields.copy hmerged hcopy, hcluster.type, ?_,
        hcluster.resolved, hcluster.traced⟩ hlevel⟩
      exact (TypeSet.union_of_subset htypes).trans hcluster.objectTypes
    · rw [if_neg htakes] at h ⊢
      obtain ⟨out, hout, hmirrors⟩ := ih h
      exact ⟨other :: out, by rw [hout, Option.map_some], .cons hcluster hmirrors⟩

end Level

/-! ## Adding fields -/

namespace Request

variable {request : Request} {pairing : Pairing} {level others : Level} {occ paired : Occurrence}

theorem found_mirrors (definition : FieldDefinition) {field other : Field}
    (h : pairing.matched field other) (types : TypeSet) :
    Agree (Cluster.Mirrors pairing) (request.found definition field types)
      (request.found definition other types) := by
  have hhead := pairing.matched_head h
  rw [found, found, hhead.arguments]
  refine .bind_left _ fun resolved => .ok ?_
  exact ⟨h, .singleton h, rfl, rfl, rfl, rfl⟩

/-- Paired fields are added to paired levels with paired levels as result. -/
theorem add_mirrors (hlevel : List.Forall₂ (Cluster.Mirrors pairing) level others)
    (hocc : occ.Like pairing.matched paired) :
    Agree (List.Forall₂ (Cluster.Mirrors pairing)) (visitAt request.add level occ)
      (visitAt request.add others paired) := by
  obtain ⟨htypes, hfield⟩ := hocc
  have hname := (pairing.matched_head hfield).name
  have hadded : AgreeUnless False (List.Forall₂ (Cluster.Mirrors pairing))
      (visitAt request.add level occ) (visitAt request.add others paired) := by
    refine add_rel rfl htypes hname (fun _ definition _ _ => ?_) (fun definition => ?_) hlevel
    · exact Cluster.Mirrors.goTogether hfield definition.type occ.types
    · exact (found_mirrors definition hfield occ.types).unless False
  exact hadded.agree id

/-- Whether a level holds an occurrence, for the type of its field on the first of its object
types. A field that is not like itself may found a cluster that does not take it. -/
def Holds (request : Request) (level : Level) (occ : Occurrence) : Prop :=
  ∀ first, occ.types.first? = some first →
    ∃ definition, request.schema.definitionOf first occ.field.name = .ok definition
      ∧ (areLike occ.field.arguments occ.field.arguments →
        level.Holds occ.field definition.type occ.types)

/-- A level holds the occurrence that was added to it, and all that it held before. -/
theorem add_holds {out : Level} (h : visitAt request.add level occ = .ok out) :
    request.Holds out occ ∧ ∀ other, request.Holds level other → request.Holds out other := by
  rw [visitAt] at h
  cases hfirst : occ.types.first? with
  | none =>
    rw [hfirst] at h
    obtain rfl := pure_eq_ok.1 h
    refine ⟨fun first hsome => ?_, fun _ hother => hother⟩
    cases hfirst.symm.trans hsome
  | some first =>
    rw [hfirst] at h
    obtain ⟨definition, hdef, h⟩ := bind_eq_ok.1 h
    cases hmerge : level.merge? occ.field definition.type occ.types with
    | some merged =>
      rw [hmerge] at h
      obtain rfl := pure_eq_ok.1 h
      refine ⟨fun first' hfirst' => ?_, fun other hother first' hfirst' => ?_⟩
      · obtain rfl := Option.some.inj (hfirst.symm.trans hfirst')
        exact ⟨definition, hdef, fun _ => Level.holds_of_merge? hmerge⟩
      · obtain ⟨definition', hdef', hholds⟩ := hother first' hfirst'
        exact ⟨definition', hdef', fun hlike => (hholds hlike).merge? hmerge⟩
    | none =>
      rw [hmerge] at h
      obtain ⟨cluster, hfound, h⟩ := bind_eq_ok.1 h
      obtain rfl := pure_eq_ok.1 h
      obtain ⟨resolved, -, hfound⟩ := bind_eq_ok.1 hfound
      obtain rfl := pure_eq_ok.1 hfound
      refine ⟨fun first' hfirst' => ?_, fun other hother first' hfirst' => ?_⟩
      · obtain rfl := Option.some.inj (hfirst.symm.trans hfirst')
        refine ⟨definition, hdef, fun hlike => Level.holds_of_founded hmerge ?_
          List.mem_cons_self (List.Subset.refl _)⟩
        simp [Cluster.takes, Bundle.responseKey, Bundle.name, Bundle.arguments, hlike]
      · obtain ⟨definition', hdef', hholds⟩ := hother first' hfirst'
        exact ⟨definition', hdef', fun hlike => (hholds hlike).append _⟩

theorem add_of_merge? {field : Field} {first : Name} {types : TypeSet}
    {definition : FieldDefinition} {out : Level}
    (hdef : request.schema.definitionOf first field.name = .ok definition)
    (hmerge : level.merge? field definition.type types = some out) :
    request.add level field first types = .ok out := by
  rw [add, hdef, ok_bind, hmerge]
  rfl

/-- A copy of an occurrence that a level holds changes nothing but the merged fields. -/
theorem Holds.absorbs (hlevel : List.Forall₂ (Cluster.Mirrors pairing) level others)
    (h : request.Holds others occ) {copy : Occurrence} (hcopy : occ.Like pairing.copied copy) :
    ∃ out, visitAt request.add others copy = .ok out
      ∧ List.Forall₂ (Cluster.Mirrors pairing) level out := by
  obtain ⟨htypes, hfield⟩ := hcopy
  rw [visitAt, htypes]
  cases hfirst : occ.types.first? with
  | none => exact ⟨others, rfl, hlevel⟩
  | some first =>
    obtain ⟨definition, hdef, hholds⟩ := h first hfirst
    obtain ⟨out, hout, hmirrors⟩ := (hholds (pairing.copied_like hfield)).absorbs hlevel hfield
    rw [← (pairing.copied_head hfield).name] at hdef
    exact ⟨out, add_of_merge? hdef hout, hmirrors⟩

/-- Whether steps came to fields only, and a level holds them all. -/
def HoldsAll (request : Request) (level : Level) (steps : List Step) : Prop :=
  ∀ step ∈ steps, ∃ occ, step = .ok occ ∧ request.Holds level occ

theorem HoldsAll.append_singleton {steps : List Step} {occ : Occurrence} {out : Level}
    (h : request.HoldsAll level steps) (hout : visitAt request.add level occ = .ok out) :
    request.HoldsAll out (steps ++ [.ok occ]) := by
  obtain ⟨hadded, hkept⟩ := add_holds hout
  refine List.forall_mem_append.2
    ⟨fun step hstep => ?_, List.forall_mem_singleton.2 ⟨occ, rfl, hadded⟩⟩
  obtain ⟨other, rfl, hother⟩ := h step hstep
  exact ⟨other, rfl, hkept other hother⟩

/-- Steps that are paired make levels that are paired, or end with the same error. -/
theorem visitSteps_mirrors {steps others : List Step} (h : pairing.Steps steps others) :
    Agree (List.Forall₂ (Cluster.Mirrors pairing)) (visitSteps request.add steps [])
      (visitSteps request.add others []) := by
  -- The level on the right holds all that was come to there, so that copies find it.
  suffices hholds : Agree (fun level level' => List.Forall₂ (Cluster.Mirrors pairing) level level'
      ∧ request.HoldsAll level' others) (visitSteps request.add steps [])
      (visitSteps request.add others []) from
    hholds.imp fun _ _ hboth => hboth.1
  induction h with
  | nil => exact .ok ⟨.nil, fun _ hstep => absurd hstep List.not_mem_nil⟩
  | @keep steps others step paired _ hstep ih =>
    rw [visitSteps_append, visitSteps_append]
    refine ih.bind fun level level' ⟨hlevel, hholds⟩ => ?_
    rw [visitSteps_singleton, visitSteps_singleton]
    cases hstep with
    | error error => exact .error error
    | ok hocc => exact (add_mirrors hlevel hocc).and_right fun _ => hholds.append_singleton
  | @copy steps others step copied _ hmem hcopy ih =>
    rw [visitSteps_append, ← bind_pure (visitSteps request.add steps [])]
    refine ih.bind fun level level' ⟨hlevel, hholds⟩ => ?_
    obtain ⟨occ, rfl, hocc⟩ := hholds step hmem
    rw [visitSteps_singleton]
    cases hcopy with
    | @ok _ copy hcopy =>
      obtain ⟨out, hout, hmirrors⟩ := hocc.absorbs hlevel hcopy
      show Agree _ (.ok level) (visitAt request.add level' copy)
      rw [hout]
      exact .ok ⟨hmirrors, hholds.append_singleton hout⟩

end Request

end SelectionForest
