import Mathlib.Data.List.Forall2
import Mathlib.Data.List.Nodup
import SelectionForest.OrderedMap
import SelectionForest.Proofs.Outcome

/-!
# Ordered maps that are filled

An ordered map that has each key once is known by its look-ups, and keeps each key once when it is
filled (`OrderedMap.nodup_insert`). Maps are filled here by going through definitions: each of them
puts in an entry of its name, or none (`get?_addEntry`). Definitions of different names leave each
name its own value (`foldlM_addEntry_value`), behind the keys that were there
(`foldlM_addEntry_keys_eq`); if one of them has another value, that takes the place of the first
(`foldlM_addEntry_replace`). Two such runs through the same definitions, one that may fail and one
that does not, go in step if their entries do (`forall₂_ofList_filterMap`).
-/

namespace SelectionForest

/-- The first entry of a key among entries of different keys. -/
theorem find?_of_nodup {α κ : Type} [DecidableEq κ] {key : α → κ} {xs : List α}
    (hnd : (xs.map key).Nodup) {x : α} (h : x ∈ xs) : xs.find? (key · = key x) = some x := by
  induction xs with
  | nil => simp at h
  | cons y ys ih =>
    obtain ⟨hy, hnd'⟩ := List.nodup_cons.1 hnd
    rcases List.mem_cons.1 h with rfl | h
    · simp
    · have hne : key y ≠ key x := fun e => hy (e ▸ List.mem_map_of_mem h)
      simp [hne, ih hnd' h]

namespace OrderedMap

variable {κ ν μ : Type} [DecidableEq κ] {map : OrderedMap κ ν}

theorem get?_cons (entry : κ × ν) (map : OrderedMap κ ν) (key : κ) :
    get? (entry :: map) key = if entry.1 = key then some entry.2 else map.get? key := by
  rw [get?, List.find?_cons]
  by_cases h : entry.1 = key
  · rw [decide_eq_true h, if_pos h]
    rfl
  · rw [decide_eq_false h, if_neg h]
    rfl

theorem mem_of_get? {key : κ} {value : ν} (h : map.get? key = some value) :
    (key, value) ∈ map := by
  obtain ⟨⟨k, v⟩, hfind, rfl⟩ := Option.map_eq_some_iff.1 h
  have hk : k = key := by simpa using List.find?_some hfind
  exact hk ▸ List.mem_of_find?_eq_some hfind

theorem get?_of_mem (hnd : (map.map (·.1)).Nodup) {key : κ} {value : ν}
    (h : (key, value) ∈ map) : map.get? key = some value := by
  have hfind := find?_of_nodup hnd h
  rw [get?, hfind]
  rfl

theorem has_iff_mem {key : κ} : map.has key = true ↔ key ∈ map.map (·.1) := by
  induction map with
  | nil => simp [has, get?]
  | cons entry map ih =>
    rw [has, get?_cons]
    by_cases h : entry.1 = key
    · simp [h]
    · rw [if_neg h, ← has, ih, List.map_cons, List.mem_cons, or_iff_right (Ne.symm h)]

theorem nodup_insert (h : (map.map (·.1)).Nodup) (key : κ) (value : ν) :
    ((map.insert key value).map (·.1)).Nodup := by
  rw [keys_insert]
  split
  · exact h
  · rename_i hnew
    exact h.append (List.nodup_singleton key)
      (List.disjoint_singleton.2 hnew)

/-- An entry that is there already changes nothing. -/
theorem insert_of_get? {key : κ} {value : ν} (h : map.get? key = some value) :
    map.insert key value = map := by
  induction map with
  | nil => cases h
  | cons entry map ih =>
    obtain ⟨k, v⟩ := entry
    rw [get?_cons] at h
    rw [insert]
    by_cases hk : k = key
    · rw [if_pos hk] at h ⊢
      obtain rfl : v = value := Option.some.inj h
      rw [hk]
    · rw [if_neg hk] at h ⊢
      rw [ih h]

/-- A value that is put in twice is put in once. -/
theorem insert_insert (map : OrderedMap κ ν) (key : κ) (value other : ν) :
    (map.insert key value).insert key other = map.insert key other := by
  induction map with
  | nil => simp [insert]
  | cons entry map ih =>
    obtain ⟨k, v⟩ := entry
    by_cases hk : k = key <;> simp [insert, hk, ih]

/-- A value that replaces another may be put in before or after one of another key. -/
theorem insert_comm {key other : κ} (hne : other ≠ key) (h : key ∈ map.map (·.1))
    (value value' : ν) :
    (map.insert other value').insert key value = (map.insert key value).insert other value' := by
  induction map with
  | nil => cases h
  | cons entry map ih =>
    obtain ⟨k, v⟩ := entry
    by_cases hk : k = key
    · subst hk
      simp [insert, Ne.symm hne]
    · have hmem : key ∈ map.map (·.1) := (List.mem_cons.1 h).resolve_left (Ne.symm hk)
      by_cases ho : k = other
      · subst ho
        simp [insert, hk]
      · simp [insert, hk, ho, ih hmem]

theorem mem_insert {key : κ} {value : ν} {entry : κ × ν} (h : entry ∈ map.insert key value) :
    entry = (key, value) ∨ entry ∈ map := by
  induction map with
  | nil => exact .inl (List.mem_singleton.1 h)
  | cons first map ih =>
    obtain ⟨k, v⟩ := first
    rw [insert] at h
    split at h
    · exact (List.mem_cons.1 h).imp_right (List.mem_cons_of_mem _)
    · rcases List.mem_cons.1 h with rfl | h
      · exact .inr List.mem_cons_self
      · exact (ih h).imp_right (List.mem_cons_of_mem _)

/-- Entries of different new keys are put in one behind the other. -/
theorem foldl_insert_of_new {entries : List (κ × ν)} (hnd : (entries.map (·.1)).Nodup)
    (hnew : ∀ key ∈ entries.map (·.1), key ∉ map.map (·.1)) :
    entries.foldl (fun map entry => map.insert entry.1 entry.2) map = map ++ entries := by
  induction entries generalizing map with
  | nil => exact (List.append_nil map).symm
  | cons entry entries ih =>
    obtain ⟨hentry, hnd⟩ := List.nodup_cons.1 hnd
    obtain ⟨hfirst, hnew⟩ := List.forall_mem_cons.1 hnew
    rw [List.foldl_cons, insert_of_new hfirst, ih hnd fun key hkey hmem => ?_, List.append_assoc,
      List.singleton_append]
    rw [List.map_append, List.mem_append] at hmem
    rcases hmem with hmem | hmem
    · exact hnew key hkey hmem
    · exact hentry (List.mem_singleton.1 hmem ▸ hkey)

/-- Entries of different keys make up a map. -/
theorem ofList_of_nodup {entries : List (κ × ν)} (h : (entries.map (·.1)).Nodup) :
    ofList entries = entries :=
  foldl_insert_of_new h fun _ _ => List.not_mem_nil

/-- Maps in step stay so when each gets an entry. -/
theorem forall₂_insert {other : OrderedMap κ μ} {R : κ × ν → κ × μ → Prop}
    (hkey : ∀ entry entry', R entry entry' → entry.1 = entry'.1) (h : List.Forall₂ R map other)
    {key : κ} {value : ν} {value' : μ} (hentry : R (key, value) (key, value')) :
    List.Forall₂ R (map.insert key value) (other.insert key value') := by
  induction h with
  | nil => exact .cons hentry .nil
  | @cons first first' map other hfirst hrest ih =>
    obtain ⟨k, v⟩ := first
    obtain ⟨k', v'⟩ := first'
    obtain rfl : k = k' := hkey _ _ hfirst
    rw [insert, insert]
    by_cases hk : k = key
    · rw [if_pos hk, if_pos hk]
      exact .cons hentry hrest
    · rw [if_neg hk, if_neg hk]
      exact .cons hfirst ih

/-- Maps made of entries in step are in step. -/
theorem forall₂_ofList {R : κ × ν → κ × μ → Prop} {entries : List (κ × ν)} {others : List (κ × μ)}
    (hkey : ∀ entry entry', R entry entry' → entry.1 = entry'.1)
    (h : List.Forall₂ R entries others) : List.Forall₂ R (ofList entries) (ofList others) := by
  have hfoldl : ∀ {map : OrderedMap κ ν} {map' : OrderedMap κ μ}, List.Forall₂ R map map' →
      List.Forall₂ R (entries.foldl (fun map entry => OrderedMap.insert map entry.1 entry.2) map)
        (others.foldl (fun map entry => OrderedMap.insert map entry.1 entry.2) map') := by
    induction h with
    | nil => exact fun hmap => hmap
    | @cons entry entry' _ _ hentry _ ih =>
      obtain ⟨key, value⟩ := entry
      obtain ⟨key', value'⟩ := entry'
      obtain rfl : key = key' := hkey _ _ hentry
      exact fun hmap => ih (forall₂_insert hkey hmap hentry)
  exact hfoldl .nil

end OrderedMap

/-! ## Going through definitions -/

variable {δ ν μ σ : Type}

/-- A run whose steps can be taken in another way ends where that one ends. -/
theorem foldlM_mono {f g : σ → δ → Outcome σ} {definitions : List δ}
    (hstep : ∀ definition ∈ definitions, ∀ state next,
      f state definition = .ok next → g state definition = .ok next) {state out : σ}
    (h : definitions.foldlM f state = .ok out) : definitions.foldlM g state = .ok out := by
  induction definitions generalizing state with
  | nil => exact h
  | cons definition definitions ih =>
    obtain ⟨hfirst, hrest⟩ := List.forall_mem_cons.1 hstep
    rw [List.foldlM_cons] at h ⊢
    obtain ⟨next, hnext, h⟩ := bind_eq_ok.1 h
    exact bind_eq_ok.2 ⟨next, hfirst state next hnext, ih hrest h⟩

/-- Runs that take the same steps end alike. -/
theorem foldlM_congr {f g : σ → δ → Outcome σ} {definitions : List δ}
    (hstep : ∀ definition ∈ definitions, ∀ state, f state definition = g state definition)
    (state : σ) : definitions.foldlM f state = definitions.foldlM g state := by
  induction definitions generalizing state with
  | nil => rfl
  | cons definition definitions ih =>
    obtain ⟨hfirst, hrest⟩ := List.forall_mem_cons.1 hstep
    rw [List.foldlM_cons, List.foldlM_cons, hfirst]
    exact bind_congr fun next => ih hrest next

/-- A map with the entry of one more name, if that has a value. -/
def addEntry (name : δ → Name) (value? : δ → Outcome (Option ν)) (map : OrderedMap Name ν)
    (definition : δ) : Outcome (OrderedMap Name ν) := do
  match ← value? definition with
  | some value => pure (map.insert (name definition) value)
  | none => pure map

section Filled

variable {name : δ → Name} {value? : δ → Outcome (Option ν)} {definitions : List δ}

theorem addEntry_eq_ok {map next : OrderedMap Name ν} {definition : δ} :
    addEntry name value? map definition = .ok next
      ↔ ∃ value, value? definition = .ok value
        ∧ (match value with
          | some value => map.insert (name definition) value
          | none => map) = next := by
  rw [addEntry, bind_eq_ok]
  refine exists_congr fun value => and_congr_right fun _ => ?_
  cases value <;> exact pure_eq_ok

/-- What one step does to a look-up. -/
theorem get?_addEntry {map next : OrderedMap Name ν} {definition : δ} {value : Option ν}
    (hvalue : value? definition = .ok value) (h : addEntry name value? map definition = .ok next)
    (key : Name) :
    next.get? key
      = if name definition = key then value.or (map.get? key) else map.get? key := by
  obtain ⟨other, hother, rfl⟩ := addEntry_eq_ok.1 h
  obtain rfl := Except.ok.inj (hvalue.symm.trans hother)
  cases value with
  | none => exact (ite_self _).symm
  | some value => exact OrderedMap.get?_insert ..

/-- What one step does to the keys. -/
theorem keys_addEntry {map next : OrderedMap Name ν} {definition : δ} {value : Option ν}
    (hvalue : value? definition = .ok value)
    (h : addEntry name value? map definition = .ok next) :
    next.map (·.1) = map.map (·.1)
      ++ if value.isSome && !map.has (name definition) then [name definition] else [] := by
  obtain ⟨other, hother, rfl⟩ := addEntry_eq_ok.1 h
  obtain rfl := Except.ok.inj (hvalue.symm.trans hother)
  cases value with
  | none => exact (List.append_nil _).symm
  | some value =>
    dsimp only
    rw [OrderedMap.keys_insert]
    by_cases hmem : name definition ∈ map.map (·.1)
    · rw [if_pos hmem, OrderedMap.has_iff_mem.2 hmem]
      exact (List.append_nil _).symm
    · rw [if_neg hmem, Bool.eq_false_iff.2 (mt OrderedMap.has_iff_mem.1 hmem)]
      rfl

/-- A value that is found puts in an entry. -/
theorem addEntry_of_map {map : OrderedMap Name ν} {definition : δ} {x : Outcome ν}
    (h : value? definition = x.map some) :
    addEntry name value? map definition = x.map (map.insert (name definition)) := by
  rw [addEntry, h]
  cases x <;> rfl

/-- Two runs through definitions go in step if their entries do. -/
theorem forall₂_foldl_filterMap {member? : δ → Option (Name × μ)}
    {R : Name × μ → Name × ν → Prop} (hkey : ∀ entry entry', R entry entry' → entry.1 = entry'.1)
    (hentry : ∀ definition ∈ definitions, ∀ value, value? definition = .ok value →
      Option.Rel (fun entry value => R entry (name definition, value)) (member? definition) value)
    {map : OrderedMap Name μ} {start out : OrderedMap Name ν} (hstart : List.Forall₂ R map start)
    (h : definitions.foldlM (addEntry name value?) start = .ok out) :
    List.Forall₂ R ((definitions.filterMap member?).foldl
      (fun map entry => OrderedMap.insert map entry.1 entry.2) map) out := by
  induction definitions generalizing map start with
  | nil =>
    obtain rfl := pure_eq_ok.1 h
    exact hstart
  | cons definition definitions ih =>
    obtain ⟨hfirst, hrest⟩ := List.forall_mem_cons.1 hentry
    rw [List.foldlM_cons] at h
    obtain ⟨next, hnext, h⟩ := bind_eq_ok.1 h
    obtain ⟨value, hvalue, rfl⟩ := addEntry_eq_ok.1 hnext
    have hrel := hfirst value hvalue
    rw [List.filterMap_cons]
    cases hentry : member? definition with
    | none =>
      rw [hentry] at hrel
      cases hrel
      exact ih hrest hstart h
    | some entry =>
      rw [hentry] at hrel
      cases hrel with
      | some hR =>
        obtain ⟨key, traced⟩ := entry
        obtain rfl : key = name definition := hkey _ _ hR
        exact ih hrest (OrderedMap.forall₂_insert hkey hstart hR) h

/-- The map of the entries of definitions is in step with the one that is filled by going through
them. -/
theorem forall₂_ofList_filterMap {member? : δ → Option (Name × μ)}
    {R : Name × μ → Name × ν → Prop} (hkey : ∀ entry entry', R entry entry' → entry.1 = entry'.1)
    (hentry : ∀ definition ∈ definitions, ∀ value, value? definition = .ok value →
      Option.Rel (fun entry value => R entry (name definition, value)) (member? definition) value)
    {out : OrderedMap Name ν} (h : definitions.foldlM (addEntry name value?) [] = .ok out) :
    List.Forall₂ R (OrderedMap.ofList (definitions.filterMap member?)) out :=
  forall₂_foldl_filterMap hkey hentry .nil h

/-- Names come in the order of the definitions. -/
theorem foldlM_addEntry_keys {start out : OrderedMap Name ν}
    (h : definitions.foldlM (addEntry name value?) start = .ok out) :
    (out.map (·.1)).Sublist (start.map (·.1) ++ definitions.map name) := by
  induction definitions generalizing start with
  | nil =>
    obtain rfl := pure_eq_ok.1 h
    rw [List.map_nil, List.append_nil]
  | cons definition definitions ih =>
    rw [List.foldlM_cons] at h
    obtain ⟨next, hnext, h⟩ := bind_eq_ok.1 h
    obtain ⟨value, hvalue, -⟩ := addEntry_eq_ok.1 hnext
    refine (ih h).trans ?_
    rw [keys_addEntry hvalue hnext, List.map_cons, List.append_assoc]
    refine List.Sublist.append_left ?_ _
    split
    · exact .refl _
    · exact List.sublist_cons_self _ _

/-- A run through definitions is only refused for one of them. -/
theorem foldlM_addEntry_error {start : OrderedMap Name ν} {error : Error}
    (h : definitions.foldlM (addEntry name value?) start = .error error) :
    ∃ definition ∈ definitions, value? definition = .error error := by
  induction definitions generalizing start with
  | nil => cases h
  | cons definition definitions ih =>
    rw [List.foldlM_cons] at h
    cases hvalue : value? definition with
    | error fault =>
      rw [addEntry, hvalue] at h
      obtain rfl : fault = error := Except.error.inj h
      exact ⟨definition, List.mem_cons_self, hvalue⟩
    | ok value =>
      rw [addEntry_eq_ok.2 ⟨value, hvalue, rfl⟩] at h
      obtain ⟨later, hlater, herror⟩ := ih h
      exact ⟨later, List.mem_cons_of_mem _ hlater, herror⟩

/-- A run through definitions that succeeds has a value, or none, for each of them. -/
theorem foldlM_addEntry_each {start out : OrderedMap Name ν}
    (h : definitions.foldlM (addEntry name value?) start = .ok out) :
    ∀ definition ∈ definitions, ∃ value, value? definition = .ok value := by
  induction definitions generalizing start with
  | nil => exact List.forall_mem_nil _
  | cons definition definitions ih =>
    rw [List.foldlM_cons] at h
    obtain ⟨next, hnext, h⟩ := bind_eq_ok.1 h
    obtain ⟨value, hvalue, -⟩ := addEntry_eq_ok.1 hnext
    exact List.forall_mem_cons.2 ⟨⟨value, hvalue⟩, ih h⟩

/-- What all definitions of a name have is found under that name. -/
theorem foldlM_addEntry_get? {start out : OrderedMap Name ν} {key : Name} {value : ν}
    (hvalue : ∀ definition ∈ definitions, name definition = key →
      value? definition = .ok (some value))
    (hkey : start.get? key = some value ∨ key ∈ definitions.map name)
    (h : definitions.foldlM (addEntry name value?) start = .ok out) :
    out.get? key = some value := by
  induction definitions generalizing start with
  | nil =>
    obtain rfl := pure_eq_ok.1 h
    exact hkey.resolve_right List.not_mem_nil
  | cons definition definitions ih =>
    obtain ⟨hfirst, hrest⟩ := List.forall_mem_cons.1 hvalue
    rw [List.foldlM_cons] at h
    obtain ⟨next, hnext, h⟩ := bind_eq_ok.1 h
    obtain ⟨entry, hentry, -⟩ := addEntry_eq_ok.1 hnext
    refine ih hrest ?_ h
    rw [get?_addEntry hentry hnext]
    by_cases hname : name definition = key
    · obtain rfl := Except.ok.inj (hentry.symm.trans (hfirst hname))
      exact .inl (if_pos hname)
    · rw [if_neg hname]
      exact hkey.imp_right fun hkey => (List.mem_cons.1 hkey).resolve_left (Ne.symm hname)

/-- A run through definitions leaves what other names have. -/
theorem foldlM_addEntry_other {start out : OrderedMap Name ν} {key : Name}
    (hkey : key ∉ definitions.map name)
    (h : definitions.foldlM (addEntry name value?) start = .ok out) :
    out.get? key = start.get? key := by
  induction definitions generalizing start with
  | nil =>
    obtain rfl := pure_eq_ok.1 h
    rfl
  | cons definition definitions ih =>
    obtain ⟨hne, hkey⟩ := not_or.1 (mt List.mem_cons.2 hkey)
    rw [List.foldlM_cons] at h
    obtain ⟨next, hnext, h⟩ := bind_eq_ok.1 h
    obtain ⟨value, hvalue, -⟩ := addEntry_eq_ok.1 hnext
    rw [ih hkey h, get?_addEntry hvalue hnext, if_neg (Ne.symm hne)]

/-- Among definitions of different names, each has its own value, or keeps what its name has. -/
theorem foldlM_addEntry_value (hnd : (definitions.map name).Nodup) {start out : OrderedMap Name ν}
    (h : definitions.foldlM (addEntry name value?) start = .ok out) {definition : δ}
    (hmem : definition ∈ definitions) {value : Option ν} (hvalue : value? definition = .ok value) :
    out.get? (name definition) = value.or (start.get? (name definition)) := by
  induction definitions generalizing start with
  | nil => cases hmem
  | cons first definitions ih =>
    obtain ⟨hfirst, hnd⟩ := List.nodup_cons.1 hnd
    rw [List.foldlM_cons] at h
    obtain ⟨next, hnext, hrest⟩ := bind_eq_ok.1 h
    rcases List.mem_cons.1 hmem with rfl | hmem
    · rw [foldlM_addEntry_other hfirst hrest, get?_addEntry hvalue hnext, if_pos rfl]
    · obtain ⟨other, hother, -⟩ := addEntry_eq_ok.1 hnext
      have hne : name first ≠ name definition := fun heq =>
        hfirst (heq ▸ List.mem_map_of_mem hmem)
      rw [ih hnd hrest hmem, get?_addEntry hother hnext, if_neg hne]

/-- Among definitions of different names, those with a value and a new name add their names, in
order. -/
theorem foldlM_addEntry_keys_eq (hnd : (definitions.map name).Nodup)
    {start out : OrderedMap Name ν} {filled : δ → Bool}
    (hfilled : ∀ definition ∈ definitions, start.has (name definition) = false →
      ∀ value, value? definition = .ok value → value.isSome = filled definition)
    (h : definitions.foldlM (addEntry name value?) start = .ok out) :
    out.map (·.1) = start.map (·.1)
      ++ (definitions.filter fun definition =>
          filled definition && !start.has (name definition)).map name := by
  induction definitions generalizing start with
  | nil =>
    obtain rfl := pure_eq_ok.1 h
    exact (List.append_nil _).symm
  | cons definition definitions ih =>
    obtain ⟨hfirst, hnd⟩ := List.nodup_cons.1 hnd
    obtain ⟨hvalues, hfilled⟩ := List.forall_mem_cons.1 hfilled
    rw [List.foldlM_cons] at h
    obtain ⟨next, hnext, h⟩ := bind_eq_ok.1 h
    obtain ⟨value, hvalue, -⟩ := addEntry_eq_ok.1 hnext
    have hhas : ∀ later ∈ definitions, next.has (name later) = start.has (name later) := by
      intro later hlater
      have hne : name definition ≠ name later := fun heq =>
        hfirst (heq ▸ List.mem_map_of_mem hlater)
      rw [OrderedMap.has, get?_addEntry hvalue hnext, if_neg hne, OrderedMap.has]
    rw [ih hnd (fun later hlater hnew => hfilled later hlater (hhas later hlater ▸ hnew)) h,
      List.filter_congr fun later hlater => by rw [hhas later hlater], keys_addEntry hvalue hnext,
      List.append_assoc, List.filter_cons]
    refine congrArg (start.map (·.1) ++ ·) ?_
    cases hstart : start.has (name definition) with
    | true => simp
    | false =>
      rw [hvalues hstart value hvalue]
      cases filled definition <;> simp

/-- A run through definitions that each have a value, or none, succeeds. -/
theorem exists_foldlM_addEntry (h : ∀ definition ∈ definitions, ∃ value,
      value? definition = .ok value) (start : OrderedMap Name ν) :
    ∃ out, definitions.foldlM (addEntry name value?) start = .ok out := by
  induction definitions generalizing start with
  | nil => exact ⟨start, rfl⟩
  | cons definition definitions ih =>
    obtain ⟨⟨value, hvalue⟩, hrest⟩ := List.forall_mem_cons.1 h
    obtain ⟨out, hout⟩ := ih hrest _
    exact ⟨out, bind_eq_ok.2 ⟨_, addEntry_eq_ok.2 ⟨value, hvalue, rfl⟩, hout⟩⟩

/-- A run through definitions stops at the first one that fails. -/
theorem foldlM_addEntry_stops {before after : List δ} {definition : δ} {error : Error}
    (hbefore : ∀ earlier ∈ before, ∃ value, value? earlier = .ok value)
    (h : value? definition = .error error) (start : OrderedMap Name ν) :
    (before ++ definition :: after).foldlM (addEntry name value?) start = .error error := by
  obtain ⟨out, hout⟩ := exists_foldlM_addEntry hbefore start
  rw [List.foldlM_append, hout, ok_bind, List.foldlM_cons, addEntry, h]
  rfl

/-- A run through definitions whose values are there already changes nothing. -/
theorem foldlM_addEntry_self {map : OrderedMap Name ν}
    (h : ∀ definition ∈ definitions, value? definition = .ok (map.get? (name definition))) :
    definitions.foldlM (addEntry name value?) map = .ok map := by
  induction definitions with
  | nil => rfl
  | cons definition definitions ih =>
    obtain ⟨hfirst, hrest⟩ := List.forall_mem_cons.1 h
    refine bind_eq_ok.2 ⟨map, addEntry_eq_ok.2 ⟨_, hfirst, ?_⟩, ih hrest⟩
    cases hvalue : map.get? (name definition) with
    | none => rfl
    | some value => exact OrderedMap.insert_of_get? hvalue

/-- What holds of each value that is put in holds of all entries. -/
theorem foldlM_addEntry_forall {P : Name × ν → Prop}
    (hvalue : ∀ definition ∈ definitions, ∀ value, value? definition = .ok (some value) →
      P (name definition, value)) {start out : OrderedMap Name ν}
    (hstart : ∀ entry ∈ start, P entry)
    (h : definitions.foldlM (addEntry name value?) start = .ok out) : ∀ entry ∈ out, P entry := by
  induction definitions generalizing start with
  | nil =>
    obtain rfl := pure_eq_ok.1 h
    exact hstart
  | cons definition definitions ih =>
    obtain ⟨hfirst, hrest⟩ := List.forall_mem_cons.1 hvalue
    rw [List.foldlM_cons] at h
    obtain ⟨next, hnext, h⟩ := bind_eq_ok.1 h
    obtain ⟨value, hvalue, rfl⟩ := addEntry_eq_ok.1 hnext
    refine ih hrest (fun entry hentry => ?_) h
    cases value with
    | none => exact hstart entry hentry
    | some value =>
      rcases OrderedMap.mem_insert hentry with rfl | hentry
      · exact hfirst value hvalue
      · exact hstart entry hentry

/-- A run through definitions keeps the keys that are there, and adds that of each value. -/
theorem foldlM_addEntry_has {start out : OrderedMap Name ν} {key : Name}
    (hkey : start.has key = true ∨ ∃ definition ∈ definitions, name definition = key
      ∧ ∀ value, value? definition = .ok value → value.isSome = true)
    (h : definitions.foldlM (addEntry name value?) start = .ok out) : out.has key = true := by
  induction definitions generalizing start with
  | nil =>
    obtain rfl := pure_eq_ok.1 h
    exact hkey.resolve_right fun ⟨_, hmem, _⟩ => List.not_mem_nil hmem
  | cons definition definitions ih =>
    rw [List.foldlM_cons] at h
    obtain ⟨next, hnext, h⟩ := bind_eq_ok.1 h
    obtain ⟨value, hvalue, -⟩ := addEntry_eq_ok.1 hnext
    refine ih ?_ h
    rw [OrderedMap.has, get?_addEntry hvalue hnext]
    rcases hkey with hhas | ⟨found, hmem, hname, hsome⟩
    · rw [OrderedMap.has] at hhas
      left
      split
      · rw [Option.isSome_or, hhas, Bool.or_true]
      · exact hhas
    · rcases List.mem_cons.1 hmem with rfl | hmem
      · rw [if_pos hname, Option.isSome_or, hsome value hvalue, Bool.true_or]
        exact .inl rfl
      · exact .inr ⟨found, hmem, hname, hsome⟩

theorem foldlM_addEntry_nodup {start out : OrderedMap Name ν} (hstart : (start.map (·.1)).Nodup)
    (h : definitions.foldlM (addEntry name value?) start = .ok out) : (out.map (·.1)).Nodup := by
  induction definitions generalizing start with
  | nil =>
    obtain rfl := pure_eq_ok.1 h
    exact hstart
  | cons definition definitions ih =>
    rw [List.foldlM_cons] at h
    obtain ⟨next, hnext, h⟩ := bind_eq_ok.1 h
    obtain ⟨value, -, rfl⟩ := addEntry_eq_ok.1 hnext
    refine ih ?_ h
    cases value with
    | none => exact hstart
    | some value => exact OrderedMap.nodup_insert hstart _ _

section Replaced

variable {other? : δ → Outcome (Option ν)}

/-- A run through definitions of other names goes on alike from a map with another value. -/
theorem foldlM_addEntry_insert {key : Name} (hkey : key ∉ definitions.map name)
    (hsame : ∀ definition ∈ definitions, other? definition = value? definition)
    {start out : OrderedMap Name ν} (hstart : key ∈ start.map (·.1)) (other : ν)
    (h : definitions.foldlM (addEntry name value?) start = .ok out) :
    definitions.foldlM (addEntry name other?) (start.insert key other)
      = .ok (out.insert key other) := by
  induction definitions generalizing start with
  | nil =>
    obtain rfl := pure_eq_ok.1 h
    rfl
  | cons definition definitions ih =>
    obtain ⟨hne, hkey⟩ := not_or.1 (mt List.mem_cons.2 hkey)
    obtain ⟨hfirst, hsame⟩ := List.forall_mem_cons.1 hsame
    rw [List.foldlM_cons] at h ⊢
    obtain ⟨next, hnext, h⟩ := bind_eq_ok.1 h
    obtain ⟨value, hvalue, rfl⟩ := addEntry_eq_ok.1 hnext
    refine bind_eq_ok.2 ⟨_, addEntry_eq_ok.2 ⟨value, hfirst.trans hvalue, ?_⟩, ih hkey hsame ?_ h⟩
    · cases value with
      | none => rfl
      | some value => exact (OrderedMap.insert_comm (Ne.symm hne) hstart other value).symm
    · cases value with
      | none => exact hstart
      | some value =>
        rw [OrderedMap.keys_insert]
        split
        · exact hstart
        · exact List.mem_append_left _ hstart

/-- A run in which one definition has another value ends with that value in the place of the
first. -/
theorem foldlM_addEntry_replace (hnd : (definitions.map name).Nodup) {definition : δ}
    (hmem : definition ∈ definitions)
    (hsame : ∀ later ∈ definitions, name later ≠ name definition → other? later = value? later)
    {value other : ν} (hvalue : value? definition = .ok (some value))
    (hother : other? definition = .ok (some other)) {start out : OrderedMap Name ν}
    (h : definitions.foldlM (addEntry name value?) start = .ok out) :
    definitions.foldlM (addEntry name other?) start
      = .ok (out.insert (name definition) other) := by
  induction definitions generalizing start with
  | nil => cases hmem
  | cons first definitions ih =>
    obtain ⟨hfirst, hnd⟩ := List.nodup_cons.1 hnd
    obtain ⟨hsameFirst, hsameRest⟩ := List.forall_mem_cons.1 hsame
    rw [List.foldlM_cons] at h ⊢
    obtain ⟨next, hnext, h⟩ := bind_eq_ok.1 h
    rcases List.mem_cons.1 hmem with rfl | hmem
    · obtain ⟨found, hfound, rfl⟩ := addEntry_eq_ok.1 hnext
      obtain rfl := Except.ok.inj (hvalue.symm.trans hfound)
      have hlater : ∀ later ∈ definitions, other? later = value? later := fun later hlater =>
        hsameRest later hlater fun heq => hfirst (heq ▸ List.mem_map_of_mem hlater)
      have hstart : name definition ∈ (start.insert (name definition) value).map (·.1) := by
        rw [← OrderedMap.has_iff_mem, OrderedMap.has, OrderedMap.get?_insert, if_pos rfl]
        rfl
      have hrest := foldlM_addEntry_insert hfirst hlater hstart other h
      rw [OrderedMap.insert_insert] at hrest
      exact bind_eq_ok.2 ⟨_, addEntry_eq_ok.2 ⟨some other, hother, rfl⟩, hrest⟩
    · have hne : name first ≠ name definition := fun heq =>
        hfirst (heq ▸ List.mem_map_of_mem hmem)
      have hnext' : addEntry name other? start first = .ok next := by
        rw [addEntry, hsameFirst hne]
        exact hnext
      exact bind_eq_ok.2 ⟨next, hnext', ih hnd hmem hsameRest h⟩

end Replaced

/-- Two runs through definitions agree if what they have for each definition does. -/
theorem foldlM_addEntry_agree {other? : δ → Outcome (Option μ)} {R : Name × ν → Name × μ → Prop}
    (hkey : ∀ entry entry', R entry entry' → entry.1 = entry'.1)
    (hentry : ∀ definition ∈ definitions,
      Agree (Option.Rel fun value value' => R (name definition, value) (name definition, value'))
        (value? definition) (other? definition))
    {map : OrderedMap Name ν} {map' : OrderedMap Name μ} (hstart : List.Forall₂ R map map') :
    Agree (List.Forall₂ R) (definitions.foldlM (addEntry name value?) map)
      (definitions.foldlM (addEntry name other?) map') := by
  induction definitions generalizing map map' with
  | nil => exact .ok hstart
  | cons definition definitions ih =>
    obtain ⟨hfirst, hrest⟩ := List.forall_mem_cons.1 hentry
    rw [List.foldlM_cons, List.foldlM_cons]
    have hnext : Agree (List.Forall₂ R) (addEntry name value? map definition)
        (addEntry name other? map' definition) := by
      refine hfirst.bind fun value value' hvalue => ?_
      cases hvalue with
      | none => exact .ok hstart
      | some hR => exact .ok (OrderedMap.forall₂_insert hkey hstart hR)
    exact hnext.bind fun next next' => ih hrest

end Filled

end SelectionForest
