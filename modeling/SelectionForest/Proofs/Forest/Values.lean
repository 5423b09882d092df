import SelectionForest.Proofs.Forest.Bounds
import SelectionForest.Proofs.Forest.Building
import SelectionForest.Proofs.Forest.Relating
import SelectionForest.Proofs.Level.Relating
import SelectionForest.Proofs.Walk.Readings

/-!
# Forests with other values of the variables

The values of the variables decide which selections are let in, and otherwise only what the
arguments of the nodes resolve to. If the same is let in with two maps of values, the two forests
are the same but for the values of arguments and for their provenance (`Forest.Resembles`). The runs
may fail apart, if resolving arguments may; `apart` says whether that is so.

* `visitSteps_resembles`: merging looks at literals and never at values;
* `forestWith_resembles`: the forests of an operation with values that are read alike.
-/

namespace SelectionForest

/-! ## Clusters -/

/-- Whether two clusters are the same, but for the values of their arguments, which are related, and
their provenance. All merged fields have a property. -/
structure Cluster.Resembles (values : Members → Members → Prop) (P : Field → Prop)
    (cluster other : Cluster) : Prop where
  merged : other.merged = cluster.merged
  type : other.type = cluster.type
  objectTypes : other.objectTypes = cluster.objectTypes
  resolved : values cluster.resolved other.resolved
  fields : ∀ field ∈ cluster.merged.fields, P field

variable {values : Members → Members → Prop} {P : Field → Prop}

namespace Cluster.Resembles

variable {cluster other : Cluster} {field : Field}

theorem takes (h : cluster.Resembles values P other) (field : Field) (type : TypeRef) :
    other.takes field type = cluster.takes field type := by
  unfold Cluster.takes
  rw [h.merged, h.type]

theorem merge (h : cluster.Resembles values P other) (hfield : P field) (types : TypeSet) :
    (cluster.merge field types).Resembles values P (other.merge field types) where
  merged := congrArg (Bundle.push · field) h.merged
  type := h.type
  objectTypes := congrArg (TypeSet.union · types) h.objectTypes
  resolved := h.resolved
  fields := List.forall_mem_append.2 ⟨h.fields, List.forall_mem_singleton.2 hfield⟩

end Cluster.Resembles

/-- A field goes to clusters that resemble each other. -/
theorem Cluster.Resembles.goTogether {field : Field} (hfield : P field) (type : TypeRef)
    (types : TypeSet) : GoTogether (Cluster.Resembles values P) type types field field where
  takes h := h.takes field type
  merge h _ := h.merge hfield types

/-! ## Levels -/

namespace Request

variable {request : Request} {bindings : Members} {traced : Option TracedInputs} {apart : Prop}

/-- Whether two maps of values resolve arguments to related values, or may fail apart. -/
def ResolvesLike (request : Request) (bindings : Members) (apart : Prop)
    (values : Members → Members → Prop) : Prop :=
  ∀ (definition : FieldDefinition) (arguments : List Argument), AgreeUnless apart values
    (resolveArguments request.schema request.bindings definition arguments)
    (resolveArguments request.schema bindings definition arguments)

/-- Visiting the same steps gives levels that resemble each other. -/
theorem visitSteps_resembles (hvalues : request.ResolvesLike bindings apart values)
    {steps : List Step} (hsteps : ∀ occ : Occurrence, .ok occ ∈ steps → P occ.field) :
    AgreeUnless apart (List.Forall₂ (Cluster.Resembles values P)) (visitSteps request.add steps [])
      (visitSteps (request.given bindings traced).add steps []) := by
  refine visitSteps_rel (fun occ hocc level others hlevel => ?_) .nil
  have hfield := hsteps occ hocc
  refine add_rel rfl rfl rfl (fun _ definition _ _ => ?_) (fun definition => ?_) hlevel
  · exact Cluster.Resembles.goTogether hfield definition.type occ.types
  · refine (hvalues definition occ.field.arguments).bind fun resolved resolved' hresolved => ?_
    exact .ok ⟨rfl, rfl, rfl, hresolved, List.forall_mem_singleton.2 hfield⟩

/-- Levels of values that are read alike resemble each other, and so on below them. -/
theorem relates_given (traced : Option TracedInputs)
    (hvalues : request.ResolvesLike bindings apart values)
    (hfragments : ∀ fragment ∈ request.fragments,
      ReadAlike request.bindings bindings fragment.allDirectives) :
    request.Relates (request.given bindings traced) apart
      (Cluster.Resembles values (ReadAlikeBelow request.bindings bindings))
      (fun _ selections others => others = selections
        ∧ ReadAlike request.bindings bindings (directivesOf selections)) where
  schema := rfl
  type h := h.type
  responseKey h := congrArg Bundle.responseKey h.merged
  level := by
    rintro types sets others ⟨hsame, hread⟩
    have hsteps := steps_given traced hfragments hread types
    rw [level_eq_visitSteps, level_eq_visitSteps, hsame, hsteps.same]
    exact visitSteps_resembles hvalues hsteps.fields
  below := by
    intro cluster cluster' types h _
    rw [cluster.flatten_selectionSets, cluster'.flatten_selectionSets, h.merged]
    exact ⟨rfl, readAlike_flatMap h.fields⟩

end Request

/-! ## Forests -/

/-- Whether two nodes are the same, but for the values of their arguments, which are related, and
their provenance. -/
structure Node.Resembles (values : Members → Members → Prop) (node other : Node) : Prop where
  aliasName : other.aliasName = node.aliasName
  name : other.name = node.name
  type : other.type = node.type
  depth : other.depth = node.depth
  objectTypes : other.objectTypes = node.objectTypes
  resolved : values node.resolved other.resolved
  arguments : other.arguments = node.arguments
  parent : other.parent = node.parent
  children : other.children = node.children

/-- Whether two forests are the same, but for the values of arguments, which are related, and their
provenance. -/
structure Forest.Resembles (values : Members → Members → Prop) (forest other : Forest) : Prop where
  nodes : List.Forall₂ (Node.Resembles values) forest.nodes other.nodes
  merged : other.merged = forest.merged
  roots : other.roots = forest.roots
  byPlace : other.byPlace = forest.byPlace
  byCoordinate : other.byCoordinate = forest.byCoordinate

section Numbered

variable {n m : NumberedNode} (h : n.Related (Cluster.Resembles values P) m)

include h

theorem NumberedNode.Related.merged_resembles : m.merged = n.merged := by
  obtain ⟨cluster, cluster', hcluster, hn, hm⟩ := h.clusters
  rw [hn.merged, hm.merged, hcluster.merged]

theorem NumberedNode.Related.node_resembles : n.node.Resembles values m.node := by
  obtain ⟨cluster, cluster', hcluster, hn, hm⟩ := h.clusters
  have hmerged := hcluster.merged
  constructor
  · rw [hn.aliasName, hm.aliasName, hmerged]
  · rw [hn.name, hm.name, hmerged]
  · rw [hn.type, hm.type, hcluster.type]
  · exact h.depth
  · rw [hn.objectTypes, hm.objectTypes, hcluster.objectTypes]
  · rw [hn.resolved, hm.resolved]
    exact hcluster.resolved
  · rw [hn.arguments, hm.arguments, hmerged]
  · exact h.parent
  · exact h.children

end Numbered

/-- The forests of trees whose clusters resemble each other do so. -/
theorem Forest.ofTrees_resembles {trees others : List Tree}
    (h : treesRelated (Cluster.Resembles values P) trees others) :
    (Forest.ofTrees trees).Resembles values (Forest.ofTrees others) := by
  have hpreorder := preorder_related h
  have hsorted := sortByNumber_rel NumberedNode.Related.id hpreorder
  constructor
  · exact List.rel_map (fun _ _ hn => hn.node_resembles) hsorted
  · exact map_eq_of_forall₂ (fun _ _ hn => hn.merged_resembles) hsorted
  · exact ranks_related h
  · exact index_eq_of_forall₂ (fun _ _ hn => by rw [hn.merged_resembles, hn.id]) hpreorder
  · refine index_eq_of_forall₂ (fun n m hn => ?_) hpreorder
    have hnode := hn.node_resembles
    unfold Node.coordinates
    rw [hnode.objectTypes, hnode.name, hn.id]

/-- The forests of an operation with values that are read alike resemble each other. -/
theorem Operation.forestWith_resembles {operation : Operation} {schema : Schema} {options : Options}
    {fragments : Fragments} {bindings others : Members} {sources sources' : Option TracedInputs}
    {apart : Prop}
    (hvalues : Request.ResolvesLike ⟨schema, fragments, bindings, sources⟩ others apart values)
    (hread : ReadAlike bindings others (fragments.allDirectives operation.selections)) :
    AgreeUnless apart (Forest.Resembles values)
      (operation.forestWith schema options fragments bindings sources)
      (operation.forestWith schema options fragments others sources') := by
  obtain ⟨hselections, hfragments⟩ := readAlike_append.1 hread
  let request : Request := ⟨schema, fragments, bindings, sources⟩
  have hrelates := request.relates_given sources' hvalues fun fragment hfragment =>
    fun directive hdirective =>
      hfragments directive (List.mem_flatMap.2 ⟨fragment, hfragment, hdirective⟩)
  have hgrow : AgreeUnless apart
      (treesRelated (Cluster.Resembles values (ReadAlikeBelow bindings others)))
      (request.grow options operation) ((request.given others sources').grow options operation) := by
    rw [Request.grow, Request.grow]
    refine .bind_left (request.typesOf operation.rootType) fun types _ => .bind_left _ fun _ _ => ?_
    refine Request.growLevel_related hrelates ?_
    rw [List.flatten_singleton]
    exact ⟨rfl, hselections⟩
  rw [forestWith_eq_grow, forestWith_eq_grow]
  exact hgrow.bind fun _ _ htrees => .ok (Forest.ofTrees_resembles htrees)

end SelectionForest
