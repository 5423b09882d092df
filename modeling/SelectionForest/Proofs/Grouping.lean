import Mathlib.Data.List.Perm.Basic
import SelectionForest.TypeSet

/-!
# Stable grouping

`classesBy` splits a list by a relation: the first entry founds a class and is followed in it by all
entries that it is related to, and what is left is split in the same way. Classes stand in the order
of their founders, and the entries of a class in the order of the list.

* `classesBy_append_singleton`: one entry more goes into the first class whose founder is related to
  it, or founds the last class;
* `classesBy_filter`: if related entries have one key, the entries of a key make the classes that
  are founded with it;
* `classesBy_perm`: every entry is in one class;
* `classesBy_pairwise`: under a transitive relation, no entry of a class is related to one of a later
  class;
* `membersOf_class`: under an equivalence, the members of a class are the entries related to any one
  of them;
* `flatMap_keys_perm`: listing by key, the keys in the order in which they come first, loses
  nothing;
* `flatMap_filter_together`, `flatMap_filter_pairwise`: it brings the entries of a key together
  (`AreTogether`), and keeps their order.
-/

namespace SelectionForest

variable {α : Type}

/-- The entries that a founder is not related to. -/
def apartFrom (rel : α → α → Bool) (x : α) (xs : List α) : List α := xs.filter fun y => !rel x y

theorem mem_apartFrom {rel : α → α → Bool} {x y : α} {xs : List α} :
    y ∈ apartFrom rel x xs ↔ y ∈ xs ∧ rel x y = false := by
  simp [apartFrom]

/-- The classes of a list, each with its founder and the entries that follow it. -/
def classesBy (rel : α → α → Bool) : List α → List (α × List α)
  | [] => []
  | x :: xs => (x, xs.filter (rel x)) :: classesBy rel (apartFrom rel x xs)
termination_by xs => xs.length
decreasing_by exact Nat.lt_succ_of_le (List.length_filter_le _ _)

/-- The entries of a class. -/
def membersOf (cls : α × List α) : List α := cls.1 :: cls.2

/-- Puts an entry into the first class whose founder is related to it, or founds a class. -/
def joinClass (rel : α → α → Bool) (y : α) : List (α × List α) → List (α × List α)
  | [] => [(y, [])]
  | (x, xs) :: classes =>
    if rel x y then (x, xs ++ [y]) :: classes else (x, xs) :: joinClass rel y classes

theorem classesBy_append_singleton (rel : α → α → Bool) (xs : List α) (y : α) :
    classesBy rel (xs ++ [y]) = joinClass rel y (classesBy rel xs) := by
  fun_induction classesBy rel xs with
  | case1 => simp [classesBy, joinClass, apartFrom]
  | case2 x xs ih =>
    rw [List.cons_append, classesBy, joinClass]
    by_cases h : rel x y
    · simp [apartFrom, h]
    · have hleft : apartFrom rel x (xs ++ [y]) = apartFrom rel x xs ++ [y] := by
        simp [apartFrom, h]
      simp [h, hleft, ih]

/-! ## Keys -/

section Keys

variable {rel : α → α → Bool} {key : α → Name}

theorem filter_rel_of_key (hrel : ∀ x y, rel x y → key x = key y) (x : α) (xs : List α) :
    (xs.filter (key · == key x)).filter (rel x) = xs.filter (rel x) := by
  rw [List.filter_filter]
  refine List.filter_congr fun y _ => ?_
  by_cases h : rel x y
  · simp [h, hrel x y h]
  · simp [h]

theorem apartFrom_filter (p : α → Bool) (x : α) (xs : List α) :
    apartFrom rel x (xs.filter p) = (apartFrom rel x xs).filter p := by
  simp only [apartFrom, List.filter_filter, Bool.and_comm]

theorem filter_apartFrom_of_key_ne (hrel : ∀ x y, rel x y → key x = key y) {x : α} {k : Name}
    (hk : key x ≠ k) (xs : List α) :
    (apartFrom rel x xs).filter (key · == k) = xs.filter (key · == k) := by
  rw [apartFrom, List.filter_filter]
  refine List.filter_congr fun y _ => ?_
  by_cases h : rel x y
  · simp [h, ← hrel x y h, hk]
  · simp [h]

theorem classesBy_filter (hrel : ∀ x y, rel x y → key x = key y) (k : Name) (xs : List α) :
    classesBy rel (xs.filter (key · == k))
      = (classesBy rel xs).filter fun cls => key cls.1 == k := by
  fun_induction classesBy rel xs with
  | case1 => simp [classesBy]
  | case2 x xs ih =>
    by_cases hk : key x = k
    · subst hk
      simp only [List.filter_cons, beq_self_eq_true, if_true]
      rw [classesBy, filter_rel_of_key hrel, apartFrom_filter, ih]
    · simp only [List.filter_cons, beq_eq_false_iff_ne.2 hk, Bool.false_eq_true, if_false]
      rw [← ih, filter_apartFrom_of_key_ne hrel hk]

theorem filter_withoutRepeats (p : Name → Bool) (names : List Name) :
    (withoutRepeats names).filter p = withoutRepeats (names.filter p) := by
  induction names with
  | nil => rfl
  | cons n ns ih =>
    rw [withoutRepeats, List.filter_cons, List.filter_cons, List.filter_filter]
    by_cases h : p n
    · rw [if_pos h, if_pos h, withoutRepeats, ← ih, List.filter_filter]
      simp only [Bool.and_comm]
    · rw [if_neg h, if_neg h, ← ih]
      refine List.filter_congr fun m _ => ?_
      by_cases hm : m = n
      · subst hm; simp [h]
      · simp [hm]

theorem withoutRepeats_append (names others : List Name) :
    withoutRepeats (names ++ others)
      = withoutRepeats names ++ (withoutRepeats others).filter (· ∉ names) := by
  induction names with
  | nil => simp [withoutRepeats]
  | cons n ns ih =>
    rw [List.cons_append, withoutRepeats, ih, withoutRepeats, List.filter_append,
      List.filter_filter, List.cons_append]
    simp only [List.mem_cons, not_or, Bool.decide_and]

/-- The keys of the founders come first in the order in which all keys do. -/
theorem withoutRepeats_founders (hrel : ∀ x y, rel x y → key x = key y) (xs : List α) :
    withoutRepeats ((classesBy rel xs).map fun cls => key cls.1)
      = withoutRepeats (xs.map key) := by
  fun_induction classesBy rel xs with
  | case1 => rfl
  | case2 x xs ih =>
    simp only [List.map_cons, withoutRepeats, ih]
    rw [filter_withoutRepeats, filter_withoutRepeats, List.filter_map, List.filter_map, apartFrom,
      List.filter_filter]
    congr 3
    refine List.filter_congr fun y _ => ?_
    by_cases h : rel x y
    · simp [hrel x y h]
    · simp [h]

/-- Listing by distinct keys that cover a list loses nothing. -/
theorem flatMap_filter_perm {keys : List Name} (hnd : keys.Nodup) :
    ∀ {xs : List α}, (∀ x ∈ xs, key x ∈ keys) →
      (keys.flatMap fun k => xs.filter (key · == k)).Perm xs := by
  induction keys with
  | nil =>
    intro xs h
    have : xs = [] := List.eq_nil_iff_forall_not_mem.2 fun x hx => by simpa using h x hx
    simp [this]
  | cons k keys ih =>
    intro xs h
    obtain ⟨hk, hnd'⟩ := List.nodup_cons.1 hnd
    have hrest : (keys.flatMap fun k' => xs.filter (key · == k'))
        = keys.flatMap fun k' => (xs.filter fun x => !(key x == k)).filter (key · == k') := by
      refine List.flatMap_congr fun k' hk' => ?_
      have hne : k' ≠ k := fun e => hk (e ▸ hk')
      rw [List.filter_filter]
      refine List.filter_congr fun x _ => ?_
      by_cases hx : key x = k'
      · simp [hx, hne]
      · simp [hx]
    have hcover : ∀ x ∈ xs.filter (fun x => !(key x == k)), key x ∈ keys := fun x hx => by
      simp only [List.mem_filter, Bool.not_eq_true', beq_eq_false_iff_ne] at hx
      exact (List.mem_cons.1 (h x hx.1)).resolve_left hx.2
    rw [List.flatMap_cons, hrest]
    exact ((ih hnd' hcover).append_left _).trans (List.filter_append_perm _ xs)

theorem flatMap_keys_perm (xs : List α) :
    ((withoutRepeats (xs.map key)).flatMap fun k => xs.filter (key · == k)).Perm xs :=
  flatMap_filter_perm (nodup_withoutRepeats _) fun _ hx =>
    mem_withoutRepeats.2 (List.mem_map_of_mem hx)

/-- Whether equal entries stand together: no other entry stands between two of them. -/
def AreTogether {κ : Type} (entries : List κ) : Prop :=
  ∀ ⦃a b : κ⦄, [a, b, a].Sublist entries → a = b

theorem AreTogether.map {κ κ' : Type} {f : κ → κ'} (hf : Function.Injective f) {entries : List κ}
    (h : AreTogether entries) : AreTogether (entries.map f) := by
  intro a b hab
  obtain ⟨few, hfew, heq⟩ := List.sublist_map_iff.1 hab
  obtain ⟨x, _, rfl, rfl, hrest⟩ := List.map_eq_cons_iff.1 heq.symm
  obtain ⟨y, _, rfl, rfl, hlast⟩ := List.map_eq_cons_iff.1 hrest
  obtain ⟨z, _, rfl, hz, hnil⟩ := List.map_eq_cons_iff.1 hlast
  obtain rfl := hf hz
  obtain rfl := List.map_eq_nil_iff.1 hnil
  exact congrArg f (h hfew)

/-- Listing by distinct keys brings the entries of each together. -/
theorem flatMap_filter_together {keys : List Name} (hnd : keys.Nodup) (xs : List α) :
    AreTogether ((keys.flatMap fun k => xs.filter (key · == k)).map key) := by
  have hkeys : keys.Pairwise fun k k' => keys.idxOf k ≤ keys.idxOf k' :=
    List.pairwise_iff_getElem.2 fun i j hi hj hij => by
      rw [hnd.idxOf_getElem, hnd.idxOf_getElem]
      exact Nat.le_of_lt hij
  -- Entries ascend by the place of their key, and one place is that of one key.
  have hplaces : ((keys.flatMap fun k => xs.filter (key · == k)).map key).Pairwise
      fun k k' => keys.idxOf k ≤ keys.idxOf k' := by
    refine List.pairwise_map.2 (List.pairwise_flatMap.2
      ⟨fun k _ => ?_, hkeys.imp fun {k k'} hle a ha b hb => ?_⟩)
    · refine List.pairwise_of_forall_mem_list fun a ha b hb => Nat.le_of_eq ?_
      rw [beq_iff_eq.1 (List.mem_filter.1 ha).2, beq_iff_eq.1 (List.mem_filter.1 hb).2]
    · rwa [beq_iff_eq.1 (List.mem_filter.1 ha).2, beq_iff_eq.1 (List.mem_filter.1 hb).2]
  intro a b hab
  have hfirst := hplaces.forall_sublist ((List.sublist_append_left [a, b] [a]).trans hab)
  have hlast := hplaces.forall_sublist ((List.sublist_cons_self a [b, a]).trans hab)
  obtain ⟨x, hx, rfl⟩ := List.mem_map.1 (hab.subset List.mem_cons_self)
  obtain ⟨k, hk, hx⟩ := List.mem_flatMap.1 hx
  have hmem : key x ∈ keys := beq_iff_eq.1 (List.mem_filter.1 hx).2 ▸ hk
  exact (List.idxOf_inj hmem).1 (Nat.le_antisymm hfirst hlast)

/-- Listing by distinct keys keeps the order of the entries of each. -/
theorem flatMap_filter_pairwise {R : α → α → Prop} {keys : List Name} (hnd : keys.Nodup)
    {xs : List α} (h : xs.Pairwise R) :
    (keys.flatMap fun k => xs.filter (key · == k)).Pairwise fun a b => key a = key b → R a b := by
  refine List.pairwise_flatMap.2 ⟨fun k _ => ?_, hnd.imp fun {k k'} hne a ha b hb heq => ?_⟩
  · exact (h.filter _).imp fun {a b} hR (_ : key a = key b) => hR
  · rw [beq_iff_eq.1 (List.mem_filter.1 ha).2, beq_iff_eq.1 (List.mem_filter.1 hb).2] at heq
    exact absurd heq hne

end Keys

/-! ## Members -/

/-- Every entry is in one class, as often as it is in the list. -/
theorem classesBy_perm (rel : α → α → Bool) (xs : List α) :
    ((classesBy rel xs).flatMap membersOf).Perm xs := by
  fun_induction classesBy rel xs with
  | case1 => exact .nil
  | case2 x xs ih =>
    rw [List.flatMap_cons]
    exact ((ih.append_left _).trans (List.filter_append_perm _ xs)).cons x

theorem mem_classesBy {rel : α → α → Bool} {xs : List α} {cls : α × List α}
    (h : cls ∈ classesBy rel xs) : ∀ y ∈ membersOf cls, y ∈ xs := fun _ hy =>
  (classesBy_perm rel xs).mem_iff.1 (List.mem_flatMap.2 ⟨cls, h, hy⟩)

/-- The founder of a class is related to those that follow it. -/
theorem rel_founder {rel : α → α → Bool} {xs : List α} {cls : α × List α}
    (h : cls ∈ classesBy rel xs) : ∀ y ∈ cls.2, rel cls.1 y := by
  fun_induction classesBy rel xs with
  | case1 => simp at h
  | case2 x xs ih =>
    rcases List.mem_cons.1 h with rfl | h
    · exact fun y hy => (List.mem_filter.1 hy).2
    · exact ih h

/-- A relation that is an equivalence on the entries that have a property. -/
structure EquivOn (P : α → Prop) (rel : α → α → Bool) : Prop where
  refl : ∀ {x}, P x → rel x x
  symm : ∀ {x y}, P x → P y → rel x y → rel y x
  trans : ∀ {x y z}, P x → P y → P z → rel x y → rel y z → rel x z

/-- If the relation is transitive, no entry of a class is related to one of a later class. -/
theorem classesBy_pairwise {rel : α → α → Bool}
    (htrans : ∀ x y z, rel x y → rel y z → rel x z) (xs : List α) :
    (classesBy rel xs).Pairwise fun cls other =>
      ∀ a ∈ membersOf cls, ∀ b ∈ membersOf other, rel a b = false := by
  fun_induction classesBy rel xs with
  | case1 => exact .nil
  | case2 x xs ih =>
    refine List.pairwise_cons.2 ⟨fun other hother a ha b hb => ?_, ih⟩
    have hxb : rel x b = false := (mem_apartFrom.1 (mem_classesBy hother b hb)).2
    rcases List.mem_cons.1 ha with rfl | ha
    · exact hxb
    · have hxa : rel x a := (List.mem_filter.1 ha).2
      exact Bool.eq_false_iff.2 fun hab => absurd (htrans x a b hxa hab) (by simp [hxb])

/-- Under an equivalence, the members of a class are the entries that its founder is related to. -/
theorem membersOf_founder {P : α → Prop} {rel : α → α → Bool} (hrel : EquivOn P rel) {xs : List α}
    (hP : ∀ x ∈ xs, P x) {cls : α × List α} (h : cls ∈ classesBy rel xs) :
    membersOf cls = xs.filter (rel cls.1) := by
  fun_induction classesBy rel xs with
  | case1 => simp at h
  | case2 x xs ih =>
    obtain ⟨hx, hxs⟩ := List.forall_mem_cons.1 hP
    rcases List.mem_cons.1 h with rfl | h
    · rw [List.filter_cons_of_pos (hrel.refl hx)]
      rfl
    · obtain ⟨hmem, hapart⟩ := mem_apartFrom.1 (mem_classesBy h cls.1 List.mem_cons_self)
      have hfounder : P cls.1 := hxs _ hmem
      -- What the founder is related to is apart from the first entry, as the founder is.
      have hleft {y : α} (hy : P y) (hcy : rel cls.1 y) : rel x y = false :=
        Bool.eq_false_iff.2 fun hxy => by
          have hyc := hrel.symm hfounder hy hcy
          exact Bool.false_ne_true (hapart.symm.trans (hrel.trans hx hy hfounder hxy hyc))
      have hnot : ¬ rel cls.1 x := fun hcx =>
        Bool.false_ne_true ((hleft hx hcx).symm.trans (hrel.refl hx))
      rw [List.filter_cons_of_neg hnot, ih (fun y hy => hxs y (mem_apartFrom.1 hy).1) h, apartFrom,
        List.filter_filter]
      refine List.filter_congr fun y hy => ?_
      by_cases hcy : rel cls.1 y
      · simp [hcy, hleft (hxs y hy) hcy]
      · simp [hcy]

/-- Under an equivalence, the members of a class are the entries related to any one of them. -/
theorem membersOf_class {P : α → Prop} {rel : α → α → Bool} (hrel : EquivOn P rel) {xs : List α}
    (hP : ∀ x ∈ xs, P x) {cls : α × List α} (h : cls ∈ classesBy rel xs) {a : α}
    (ha : a ∈ membersOf cls) : membersOf cls = xs.filter (rel a) := by
  have hfounder : P cls.1 := hP _ (mem_classesBy h _ List.mem_cons_self)
  have hPa : P a := hP a (mem_classesBy h a ha)
  rw [membersOf_founder hrel hP h] at ha ⊢
  have hca : rel cls.1 a := (List.mem_filter.1 ha).2
  refine List.filter_congr fun y hy => Bool.eq_iff_iff.2 ⟨fun hcy => ?_, fun hay => ?_⟩
  · exact hrel.trans hPa hfounder (hP y hy) (hrel.symm hfounder hPa hca) hcy
  · exact hrel.trans hfounder hPa (hP y hy) hca hay

end SelectionForest
