import SelectionForest.Document.Basic

/-!
# Sets of types in order

A set of type names that keeps the order in which they were put in. The union adds what is missing
at the end, and the intersection keeps the order of its left side. The statements `mem_ofList`,
`mem_inter` and `mem_union` give their members.
-/

namespace SelectionForest

/-- Names without those that came before. -/
def withoutRepeats : List Name → List Name
  | [] => []
  | name :: names => name :: (withoutRepeats names).filter (· ≠ name)

theorem mem_withoutRepeats {name : Name} {names : List Name} :
    name ∈ withoutRepeats names ↔ name ∈ names := by
  induction names with
  | nil => simp [withoutRepeats]
  | cons n ns ih =>
    by_cases h : name = n <;> simp [withoutRepeats, ih, h]

theorem nodup_withoutRepeats (names : List Name) : (withoutRepeats names).Nodup := by
  induction names with
  | nil => simp [withoutRepeats]
  | cons n ns ih => exact List.nodup_cons.2 ⟨by simp, ih.filter _⟩

/-- A set of type names, in order. -/
structure TypeSet where
  names : List Name
  nodup : names.Nodup
  deriving DecidableEq

namespace TypeSet

/-- The set of the names of a list, in the order in which they come first. -/
def ofList (names : List Name) : TypeSet := ⟨withoutRepeats names, nodup_withoutRepeats names⟩

/-- The set of one name. -/
def singleton (name : Name) : TypeSet := ⟨[name], by simp⟩

/-- The set of no name. -/
def empty : TypeSet := ⟨[], by simp⟩

/-- Whether a set has no name. -/
def isEmpty (set : TypeSet) : Bool := set.names.isEmpty

/-- The first name of a set. -/
def first? (set : TypeSet) : Option Name := set.names.head?

/-- The names of a set that are in another one. -/
def inter (set other : TypeSet) : TypeSet :=
  ⟨set.names.filter (· ∈ other.names), set.nodup.filter _⟩

/-- The names of a set, and then those of another one that are missing. -/
def union (set other : TypeSet) : TypeSet :=
  ⟨set.names ++ other.names.filter (· ∉ set.names), by
    refine List.nodup_append.2 ⟨set.nodup, other.nodup.filter _, fun a ha b hb h => ?_⟩
    simp only [List.mem_filter, decide_eq_true_eq] at hb
    exact hb.2 (h ▸ ha)⟩

instance : Membership Name TypeSet := ⟨fun set name => name ∈ set.names⟩

theorem mem_names {set : TypeSet} {name : Name} : name ∈ set.names ↔ name ∈ set := Iff.rfl

theorem mem_ofList {names : List Name} {name : Name} : name ∈ ofList names ↔ name ∈ names :=
  mem_withoutRepeats

theorem mem_singleton {name other : Name} : name ∈ singleton other ↔ name = other :=
  List.mem_singleton

theorem mem_inter {set other : TypeSet} {name : Name} :
    name ∈ set.inter other ↔ name ∈ set ∧ name ∈ other := by
  simp [← mem_names, inter]

theorem mem_union {set other : TypeSet} {name : Name} :
    name ∈ set.union other ↔ name ∈ set ∨ name ∈ other := by
  by_cases h : name ∈ set.names <;> simp [← mem_names, union, h]

end TypeSet

end SelectionForest
