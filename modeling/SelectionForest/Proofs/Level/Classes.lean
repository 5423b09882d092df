import SelectionForest.Proofs.Grouping
import SelectionForest.Proofs.Likeness
import SelectionForest.Proofs.Walk.Occurrences

/-!
# Classes of occurrences

Two occurrences select the same if they have the same response key, the same field name and the same
declared type, and like arguments (`Schema.selectsSame`). The type is that of the field on the first
of their object types (`Schema.declaredType?`). An occurrence is put into a class if the founder of
the class selects the same, and classes are listed by response key (`Schema.groups`).

* `groups_perm`: every occurrence is in one class;
* `groups_pairwise`: no member of a class selects the same as one of a later class;
* `membersOf_group`: if all arguments have unique names, the members of a class are the occurrences
  that select the same as any one of them;
* `areClasses_groups`: all of this at once.
-/

namespace SelectionForest

namespace TypeSet

/-- The types of several sets, in the order in which they come first. -/
def unionAll (set : TypeSet) (others : List TypeSet) : TypeSet := others.foldl union set

theorem unionAll_append (set : TypeSet) (others : List TypeSet) (last : TypeSet) :
    set.unionAll (others ++ [last]) = (set.unionAll others).union last := by
  simp [unionAll]

theorem mem_unionAll {set : TypeSet} {others : List TypeSet} {name : Name} :
    name ∈ set.unionAll others ↔ name ∈ set ∨ ∃ other ∈ others, name ∈ other := by
  induction others generalizing set with
  | nil => simp [unionAll]
  | cons other others ih =>
    rw [unionAll, List.foldl_cons, ← unionAll, ih, mem_union, List.exists_mem_cons_iff, or_assoc]

end TypeSet

namespace Occurrence

/-- The key of an occurrence in a response. -/
def responseKey (occ : Occurrence) : Name := occ.field.responseKey

/-- Whether an occurrence has no argument, and none of their literals a key, of the same name
twice. -/
def hasUniqueNames (occ : Occurrence) : Prop := haveUniqueNames occ.field.arguments

end Occurrence

/-- Occurrences that are merged: the one that founded the class and those that followed. -/
abbrev OccurrenceClass := Occurrence × List Occurrence

namespace OccurrenceClass

/-- The fields of a class. -/
def fields (cls : OccurrenceClass) : Bundle := ⟨cls.1.field, cls.2.map (·.field)⟩

/-- The object types of a class. -/
def objectTypes (cls : OccurrenceClass) : TypeSet := cls.1.types.unionAll (cls.2.map (·.types))

theorem mem_fields {cls : OccurrenceClass} {field : Field} :
    field ∈ cls.fields.fields ↔ ∃ occ ∈ membersOf cls, occ.field = field := by
  simp [fields, Bundle.fields, membersOf, eq_comm]

theorem mem_objectTypes {cls : OccurrenceClass} {type : Name} :
    type ∈ cls.objectTypes ↔ ∃ occ ∈ membersOf cls, type ∈ occ.types := by
  simp [objectTypes, TypeSet.mem_unionAll, membersOf]

end OccurrenceClass

/-! ## Grouping -/

namespace Schema

/-- The type of the field of an occurrence, on the first of its object types. -/
def declaredType? (schema : Schema) (occ : Occurrence) : Option TypeRef := do
  let type ← occ.types.first?
  let definition ← schema.field? type occ.field.name
  pure definition.type

/-- Whether two occurrences select the same. -/
def selectsSame (schema : Schema) (occ other : Occurrence) : Bool :=
  occ.responseKey == other.responseKey && occ.field.name == other.field.name
    && schema.declaredType? occ == schema.declaredType? other
    && areLike occ.field.arguments other.field.arguments

/-- The classes of occurrences, by response key. -/
def groups (schema : Schema) (occs : List Occurrence) : List OccurrenceClass :=
  (withoutRepeats (occs.map (·.responseKey))).flatMap fun key =>
    classesBy schema.selectsSame (occs.filter (·.responseKey == key))

variable {schema : Schema}

theorem selectsSame_iff {occ other : Occurrence} :
    schema.selectsSame occ other ↔ occ.responseKey = other.responseKey
      ∧ occ.field.name = other.field.name
      ∧ schema.declaredType? occ = schema.declaredType? other
      ∧ areLike occ.field.arguments other.field.arguments := by
  simp only [selectsSame, Bool.and_eq_true, beq_iff_eq, and_assoc]

theorem selectsSame_trans {x y z : Occurrence} (hxy : schema.selectsSame x y)
    (hyz : schema.selectsSame y z) : schema.selectsSame x z := by
  obtain ⟨hkey, hname, htype, hlike⟩ := selectsSame_iff.1 hxy
  obtain ⟨hkey', hname', htype', hlike'⟩ := selectsSame_iff.1 hyz
  exact selectsSame_iff.2 ⟨hkey.trans hkey', hname.trans hname', htype.trans htype',
    areLike_trans hlike hlike'⟩

/-- To select the same is an equivalence of occurrences whose arguments have unique names. -/
theorem selectsSame_equiv (schema : Schema) :
    EquivOn Occurrence.hasUniqueNames schema.selectsSame where
  refl h := selectsSame_iff.2 ⟨rfl, rfl, rfl, areLike_refl h⟩
  symm hx hy h := by
    obtain ⟨hkey, hname, htype, hlike⟩ := selectsSame_iff.1 h
    exact selectsSame_iff.2 ⟨hkey.symm, hname.symm, htype.symm, areLike_symm hx hy hlike⟩
  trans _ _ _ hxy hyz := selectsSame_trans hxy hyz

variable {occs : List Occurrence} {cls : OccurrenceClass}

theorem mem_groups :
    cls ∈ schema.groups occs ↔ ∃ key ∈ occs.map (·.responseKey),
      cls ∈ classesBy schema.selectsSame (occs.filter (·.responseKey == key)) := by
  simp only [groups, List.mem_flatMap, mem_withoutRepeats]

/-- Every occurrence is in one class. -/
theorem groups_perm (schema : Schema) (occs : List Occurrence) :
    ((schema.groups occs).flatMap membersOf).Perm occs := by
  rw [groups, List.flatMap_assoc]
  exact (List.Perm.flatMap_left _ fun _ _ => classesBy_perm _ _).trans (flatMap_keys_perm occs)

/-- The members of a class are among the occurrences that were grouped. -/
theorem mem_of_group (h : cls ∈ schema.groups occs) {occ : Occurrence}
    (hocc : occ ∈ membersOf cls) : occ ∈ occs :=
  (groups_perm schema occs).mem_iff.1 (List.mem_flatMap.2 ⟨cls, h, hocc⟩)

/-- Each occurrence that was grouped is in a class. -/
theorem exists_group (schema : Schema) {occ : Occurrence} (h : occ ∈ occs) :
    ∃ cls ∈ schema.groups occs, occ ∈ membersOf cls :=
  List.mem_flatMap.1 ((groups_perm schema occs).mem_iff.2 h)

/-- The founder of a class selects the same as those that followed. -/
theorem selectsSame_founder (h : cls ∈ schema.groups occs) {occ : Occurrence}
    (hocc : occ ∈ cls.2) : schema.selectsSame cls.1 occ := by
  obtain ⟨key, -, hcls⟩ := mem_groups.1 h
  exact rel_founder hcls occ hocc

/-- All members of a class have the declared type and the name of its founder. -/
theorem declaredType_of_group (h : cls ∈ schema.groups occs) {occ : Occurrence}
    (hocc : occ ∈ membersOf cls) :
    schema.declaredType? occ = schema.declaredType? cls.1 ∧ occ.field.name = cls.1.field.name := by
  rcases List.mem_cons.1 hocc with rfl | hocc
  · exact ⟨rfl, rfl⟩
  · obtain ⟨-, hname, htype, -⟩ := selectsSame_iff.1 (selectsSame_founder h hocc)
    exact ⟨htype.symm, hname.symm⟩

/-- If all arguments have unique names, the members of a class are the occurrences that select the
same as any one of them. -/
theorem membersOf_group (hnames : ∀ occ ∈ occs, occ.hasUniqueNames) (h : cls ∈ schema.groups occs)
    {occ : Occurrence} (hocc : occ ∈ membersOf cls) :
    membersOf cls = occs.filter (schema.selectsSame occ) := by
  obtain ⟨key, -, hcls⟩ := mem_groups.1 h
  have hall : ∀ x ∈ occs.filter (·.responseKey == key), x.hasUniqueNames := fun x hx =>
    hnames x (List.mem_filter.1 hx).1
  have hkey : occ.responseKey = key := by
    simpa using (List.mem_filter.1 (mem_classesBy hcls occ hocc)).2
  subst hkey
  have hrel : ∀ x y, schema.selectsSame x y → x.responseKey = y.responseKey := fun _ _ hsame =>
    (selectsSame_iff.1 hsame).1
  rw [membersOf_class (selectsSame_equiv schema) hall hcls hocc]
  exact filter_rel_of_key hrel occ occs

theorem mem_group_iff (hnames : ∀ occ ∈ occs, occ.hasUniqueNames) (h : cls ∈ schema.groups occs)
    {occ other : Occurrence} (hocc : occ ∈ membersOf cls) (hother : other ∈ occs) :
    other ∈ membersOf cls ↔ schema.selectsSame occ other := by
  rw [membersOf_group hnames h hocc, List.mem_filter, and_iff_right hother]

/-- No member of a class selects the same as one of a later class. -/
theorem groups_pairwise (schema : Schema) (occs : List Occurrence) :
    (schema.groups occs).Pairwise fun cls other =>
      ∀ a ∈ membersOf cls, ∀ b ∈ membersOf other, schema.selectsSame a b = false := by
  refine List.pairwise_flatMap.2 ⟨fun key _ => ?_, ?_⟩
  · have htrans : ∀ x y z, schema.selectsSame x y → schema.selectsSame y z → schema.selectsSame x z :=
      fun _ _ _ => selectsSame_trans
    exact classesBy_pairwise htrans _
  · refine (nodup_withoutRepeats _).imp fun hne cls hcls other hother a ha b hb => ?_
    have hka := (List.mem_filter.1 (mem_classesBy hcls a ha)).2
    have hkb := (List.mem_filter.1 (mem_classesBy hother b hb)).2
    refine Bool.eq_false_iff.2 fun hsame => hne ?_
    rw [← beq_iff_eq.1 hka, ← beq_iff_eq.1 hkb, (selectsSame_iff.1 hsame).1]

/-- Whether classes are those of occurrences that select the same: every occurrence is in one of
them, with the founder's selection; and if all arguments have unique names, so that selecting the
same is an equivalence, they are its classes. -/
structure AreClasses (schema : Schema) (occs : List Occurrence) (classes : List OccurrenceClass) :
    Prop where
  perm : (classes.flatMap membersOf).Perm occs
  founder : ∀ cls ∈ classes, ∀ occ ∈ cls.2, schema.selectsSame cls.1 occ
  same : (∀ occ ∈ occs, occ.hasUniqueNames) → ∀ cls ∈ classes, ∀ occ ∈ membersOf cls,
    ∀ other ∈ occs, other ∈ membersOf cls ↔ schema.selectsSame occ other
  apart : (∀ occ ∈ occs, occ.hasUniqueNames) → classes.Pairwise fun cls other =>
    ∀ a ∈ membersOf cls, ∀ b ∈ membersOf other, schema.selectsSame a b = false

theorem areClasses_groups (schema : Schema) (occs : List Occurrence) :
    schema.AreClasses occs (schema.groups occs) where
  perm := groups_perm schema occs
  founder _ h _ hocc := selectsSame_founder h hocc
  same hnames _ h _ hocc _ hother := mem_group_iff hnames h hocc hother
  apart _ := groups_pairwise schema occs

end Schema

end SelectionForest
