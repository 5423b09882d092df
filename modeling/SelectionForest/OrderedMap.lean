/-!
# Maps in insertion order

A map kept as the list of its entries, in the order in which their keys came first.
`OrderedMap.insert` replaces the value of a key in its place, or appends an entry;
`OrderedMap.push` does the same for a map from keys to lists, adding one value to a list. A map
built with either has each key once.

The main statements say what the two do to a look-up (`get?_insert`, `getAll_push`,
`getAll_pushAll`), and that an insertion changes the keys only for a new key, at the end
(`keys_insert`, `insert_of_new`).
-/

namespace SelectionForest

/-- Entries of keys and values, in insertion order. -/
abbrev OrderedMap (κ ν : Type) := List (κ × ν)

namespace OrderedMap

variable {κ ν : Type} [DecidableEq κ]

/-- The value of the first entry with the key. -/
def get? (map : OrderedMap κ ν) (key : κ) : Option ν :=
  (map.find? (·.1 = key)).map (·.2)

/-- Whether the key has an entry. -/
def has (map : OrderedMap κ ν) (key : κ) : Bool := (map.get? key).isSome

/-- Gives the key a value, in its place if it has an entry and at the end otherwise. -/
def insert : OrderedMap κ ν → κ → ν → OrderedMap κ ν
  | [], key, value => [(key, value)]
  | (k, v) :: rest, key, value =>
    if k = key then (key, value) :: rest else (k, v) :: insert rest key value

/-- Entries given one after the other: a key that comes again keeps its first place and takes its
last value. -/
def ofList (entries : List (κ × ν)) : OrderedMap κ ν :=
  entries.foldl (fun map entry => map.insert entry.1 entry.2) []

/-- The values of a key, in the order in which they were added. -/
def getAll (map : OrderedMap κ (List ν)) (key : κ) : List ν := (map.get? key).getD []

/-- Adds a value to those of the key. -/
def push : OrderedMap κ (List ν) → κ → ν → OrderedMap κ (List ν)
  | [], key, value => [(key, [value])]
  | (k, vs) :: rest, key, value =>
    if k = key then (k, vs ++ [value]) :: rest else (k, vs) :: push rest key value

/-- Adds values one after the other, each to those of its key. -/
def pushEach (map : OrderedMap κ (List ν)) (entries : List (κ × ν)) : OrderedMap κ (List ν) :=
  entries.foldl (fun map entry => map.push entry.1 entry.2) map

/-- Values added one after the other, each to its key. -/
def pushAll (entries : List (κ × ν)) : OrderedMap κ (List ν) := pushEach [] entries

theorem get?_insert (map : OrderedMap κ ν) (key other : κ) (value : ν) :
    (map.insert key value).get? other = if key = other then some value else map.get? other := by
  induction map with
  | nil => by_cases h : key = other <;> simp [insert, get?, h]
  | cons entry rest ih =>
    obtain ⟨k, v⟩ := entry
    by_cases hk : k = key
    · subst hk
      by_cases h : k = other <;> simp [insert, get?, h]
    · by_cases ho : k = other
      · subst ho
        simp [insert, get?, hk, Ne.symm hk]
      · simpa [insert, get?, hk, ho] using ih

theorem keys_insert (map : OrderedMap κ ν) (key : κ) (value : ν) :
    (map.insert key value).map (·.1)
      = if key ∈ map.map (·.1) then map.map (·.1) else map.map (·.1) ++ [key] := by
  induction map with
  | nil => simp [insert]
  | cons entry rest ih =>
    obtain ⟨k, v⟩ := entry
    by_cases hk : k = key
    · simp [insert, hk]
    · simp only [insert, if_neg hk, List.map_cons, ih, List.mem_cons, Ne.symm hk, false_or]
      split <;> simp

/-- A new key goes to the end. -/
theorem insert_of_new {map : OrderedMap κ ν} {key : κ} (h : key ∉ map.map (·.1)) (value : ν) :
    map.insert key value = map ++ [(key, value)] := by
  induction map with
  | nil => rfl
  | cons entry rest ih =>
    obtain ⟨hne, hrest⟩ := not_or.1 (mt List.mem_cons.2 h)
    rw [insert, if_neg (Ne.symm hne), ih hrest, List.cons_append]

theorem getAll_push (map : OrderedMap κ (List ν)) (key other : κ) (value : ν) :
    (map.push key value).getAll other
      = if key = other then map.getAll other ++ [value] else map.getAll other := by
  induction map with
  | nil => by_cases h : key = other <;> simp [push, getAll, get?, h]
  | cons entry rest ih =>
    obtain ⟨k, vs⟩ := entry
    by_cases hk : k = key
    · subst hk
      by_cases h : k = other <;> simp [push, getAll, get?, h]
    · by_cases ho : k = other
      · subst ho
        simp [push, getAll, get?, hk, Ne.symm hk]
      · simpa [push, getAll, get?, hk, ho] using ih

theorem pushEach_append (map : OrderedMap κ (List ν)) (entries others : List (κ × ν)) :
    map.pushEach (entries ++ others) = (map.pushEach entries).pushEach others :=
  List.foldl_append

/-- What is added comes behind the values that a key has. -/
theorem getAll_pushEach (map : OrderedMap κ (List ν)) (entries : List (κ × ν)) (key : κ) :
    (map.pushEach entries).getAll key
      = map.getAll key ++ (entries.filter (·.1 = key)).map (·.2) := by
  induction entries generalizing map with
  | nil => simp [pushEach]
  | cons entry entries ih =>
    have hfirst : map.pushEach (entry :: entries)
        = (map.push entry.1 entry.2).pushEach entries := rfl
    rw [hfirst, ih, getAll_push]
    by_cases h : entry.1 = key <;> simp [h]

/-- The values of a key are those that were added with it, in the same order. -/
theorem getAll_pushAll (entries : List (κ × ν)) (key : κ) :
    (pushAll entries).getAll key = (entries.filter (·.1 = key)).map (·.2) :=
  getAll_pushEach [] entries key

end OrderedMap

end SelectionForest
