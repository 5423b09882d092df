import Mathlib.Data.List.Forall2
import Mathlib.Data.List.Nodup
import Mathlib.Data.List.Perm.Subperm
import SelectionForest.Document.Likeness
import SelectionForest.Proofs.Maps

/-!
# Likeness is an equivalence

Likeness of literals and of argument lists is transitive (`Value.isLike_trans`, `areLike_trans`).
It is reflexive and symmetric where names are unambiguous: object literals have no key twice at any
depth (`Value.hasUniqueKeys`), and argument lists have no name twice (`haveUniqueNames`). A literal
with a key twice need not be like itself, since only the first field of a name is looked at.

* `Partnered.flip`: if each entry has a partner of its name, and there are as many on the other side,
  no partner is left over, so that the entries of the other side have partners as well;
* `areLike_refl`, `areLike_symm`: the two other laws of an equivalence, for unambiguous lists.
-/

namespace SelectionForest

/-! ## Partners -/

/-- Whether each entry has a related partner of its name among others, of which there are as
many. -/
structure Partnered {α : Type} (name : α → Name) (R : α → α → Prop) (xs ys : List α) : Prop where
  length_eq : xs.length = ys.length
  partner : ∀ x ∈ xs, ∃ y ∈ ys, name y = name x ∧ R x y

namespace Partnered

variable {α : Type} {name : α → Name} {R : α → α → Prop} {xs ys : List α}

/-- Who has a name is found under it, where names differ. -/
theorem find? (h : Partnered name R xs ys) (hy : (ys.map name).Nodup) :
    ∀ x ∈ xs, ∃ y, ys.find? (name · = name x) = some y ∧ R x y := by
  intro x hx
  obtain ⟨y, hy', hname, hR⟩ := h.partner x hx
  exact ⟨y, hname ▸ find?_of_nodup hy hy', hR⟩

theorem of_find? (hlength : xs.length = ys.length)
    (h : ∀ x ∈ xs, ∃ y, ys.find? (name · = name x) = some y ∧ R x y) : Partnered name R xs ys := by
  refine ⟨hlength, fun x hx => ?_⟩
  obtain ⟨y, hfind, hR⟩ := h x hx
  exact ⟨y, List.mem_of_find?_eq_some hfind, by simpa using List.find?_some hfind, hR⟩

theorem reverse (h : Partnered name R xs ys) : Partnered name R xs ys.reverse where
  length_eq := by rw [List.length_reverse, h.length_eq]
  partner x hx := by
    obtain ⟨y, hy, hxy⟩ := h.partner x hx
    exact ⟨y, List.mem_reverse.2 hy, hxy⟩

/-- Entries of different names have all names of the other side. -/
theorem names_perm (h : Partnered name R xs ys) (hx : (xs.map name).Nodup) :
    (xs.map name).Perm (ys.map name) := by
  have hsub : xs.map name ⊆ ys.map name := fun n hn => by
    obtain ⟨x, hx, rfl⟩ := List.mem_map.1 hn
    obtain ⟨y, hy, hname, -⟩ := h.partner x hx
    exact hname ▸ List.mem_map_of_mem hy
  exact (hx.subperm hsub).perm_of_length_le (by simp [h.length_eq])

theorem nodup (h : Partnered name R xs ys) (hx : (xs.map name).Nodup) : (ys.map name).Nodup :=
  (h.names_perm hx).nodup_iff.1 hx

/-- The entries of the other side have partners as well. -/
theorem flip (h : Partnered name R xs ys) (hx : (xs.map name).Nodup) :
    Partnered name (flip R) ys xs := by
  refine ⟨h.length_eq.symm, fun y hy => ?_⟩
  obtain ⟨x, hxs, hname⟩ := List.mem_map.1 ((h.names_perm hx).mem_iff.2 (List.mem_map_of_mem hy))
  obtain ⟨other, hother, hsame, hR⟩ := h.partner x hxs
  -- The partner that `x` has is `y`, since the names on its side differ.
  obtain rfl := List.inj_on_of_nodup_map (h.nodup hx) hother hy (hsame.trans hname)
  exact ⟨x, hxs, hname, hR⟩

/-- What holds of partners may take into account that one is among the entries. -/
theorem imp_of_mem {S : α → α → Prop} (h : Partnered name R xs ys)
    (hS : ∀ x ∈ xs, ∀ y, R x y → S x y) : Partnered name S xs ys := by
  refine ⟨h.length_eq, fun x hx => ?_⟩
  obtain ⟨y, hy, hname, hR⟩ := h.partner x hx
  exact ⟨y, hy, hname, hS x hx y hR⟩

/-- Under each name, partners are found on both sides, or nothing on either. -/
theorem rel_find? (h : Partnered name R xs ys) (hx : (xs.map name).Nodup) (key : Name) :
    Option.Rel R (xs.find? (name · = key)) (ys.find? (name · = key)) := by
  cases hfind : xs.find? (name · = key) with
  | some x =>
    obtain ⟨y, hy, hR⟩ := h.find? (h.nodup hx) x (List.mem_of_find?_eq_some hfind)
    have hname : name x = key := by simpa using List.find?_some hfind
    rw [hname] at hy
    rw [hy]
    exact .some hR
  | none =>
    have hnone : ys.find? (name · = key) = none := by
      rw [List.find?_eq_none] at hfind ⊢
      intro y hy
      obtain ⟨x, hx, hname, -⟩ := (h.flip hx).partner y hy
      exact hname ▸ hfind x hx
    rw [hnone]
    exact .none

end Partnered

/-! ## Literals -/

/-- Whether a literal has no literals inside it. -/
def Value.isAtom : Value → Bool
  | .list _ => false
  | .object _ => false
  | _ => true

/-- Induction on literals: what holds of atoms, and of a list or object if it holds of all literals
in it, holds of every literal. -/
@[elab_as_elim]
theorem Value.induction {motive : Value → Prop} (atom : ∀ v, v.isAtom = true → motive v)
    (list : ∀ items, (∀ v ∈ items, motive v) → motive (.list items))
    (object : ∀ fields, (∀ field ∈ fields, motive field.2) → motive (.object fields))
    (v : Value) : motive v := by
  have cons {α : Type} {P : α → Prop} (x : α) (xs : List α) (hx : P x) (hxs : ∀ y ∈ xs, P y) :
      ∀ y ∈ x :: xs, P y := List.forall_mem_cons.2 ⟨hx, hxs⟩
  exact Value.rec (motive_1 := motive) (motive_2 := fun items => ∀ v ∈ items, motive v)
    (motive_3 := fun fields => ∀ field ∈ fields, motive field.2)
    (motive_4 := fun field => motive field.2)
    (atom _ rfl) (fun _ => atom _ rfl) (fun _ => atom _ rfl) (fun _ => atom _ rfl)
    (fun _ => atom _ rfl) (fun _ => atom _ rfl) (fun _ => atom _ rfl) list object
    (List.forall_mem_nil _) cons (List.forall_mem_nil _) cons (fun _ _ h => h) v

mutual

/-- Whether no object literal in a literal has a key twice. -/
def Value.hasUniqueKeys : Value → Bool
  | .list items => itemsHaveUniqueKeys items
  | .object fields => decide (fields.map (·.1)).Nodup && fieldsHaveUniqueKeys fields
  | _ => true

/-- Whether no object literal in the items of a list has a key twice. -/
def itemsHaveUniqueKeys : List Value → Bool
  | [] => true
  | item :: items => item.hasUniqueKeys && itemsHaveUniqueKeys items

/-- Whether no object literal in the fields of an object has a key twice. -/
def fieldsHaveUniqueKeys : List (Name × Value) → Bool
  | [] => true
  | (_, value) :: fields => value.hasUniqueKeys && fieldsHaveUniqueKeys fields

end

theorem itemsHaveUniqueKeys_iff {items : List Value} :
    itemsHaveUniqueKeys items ↔ ∀ v ∈ items, v.hasUniqueKeys := by
  induction items with
  | nil => simp [itemsHaveUniqueKeys]
  | cons item items ih => simp [itemsHaveUniqueKeys, ih]

theorem fieldsHaveUniqueKeys_iff {fields : List (Name × Value)} :
    fieldsHaveUniqueKeys fields ↔ ∀ field ∈ fields, field.2.hasUniqueKeys := by
  induction fields with
  | nil => simp [fieldsHaveUniqueKeys]
  | cons field fields ih =>
    obtain ⟨name, value⟩ := field
    simp only [fieldsHaveUniqueKeys, Bool.and_eq_true, ih, List.forall_mem_cons]

theorem hasUniqueKeys_list {items : List Value} :
    (Value.list items).hasUniqueKeys ↔ ∀ v ∈ items, v.hasUniqueKeys := by
  rw [Value.hasUniqueKeys, itemsHaveUniqueKeys_iff]

theorem hasUniqueKeys_object {fields : List (Name × Value)} :
    (Value.object fields).hasUniqueKeys
      ↔ (fields.map (·.1)).Nodup ∧ ∀ field ∈ fields, field.2.hasUniqueKeys := by
  rw [Value.hasUniqueKeys, Bool.and_eq_true, decide_eq_true_eq, fieldsHaveUniqueKeys_iff]

theorem itemsLike_iff {items others : List Value} :
    itemsLike items others ↔ List.Forall₂ (fun a b => a.isLike b) items others := by
  induction items generalizing others with
  | nil => cases others <;> simp [itemsLike]
  | cons item items ih => cases others <;> simp [itemsLike, ih]

theorem fieldsLike_iff {fields others : List (Name × Value)} :
    fieldsLike fields others
      ↔ ∀ a ∈ fields, ∃ b, others.find? (·.1 = a.1) = some b ∧ a.2.isLike b.2 := by
  induction fields with
  | nil => simp [fieldsLike]
  | cons field fields ih =>
    obtain ⟨name, value⟩ := field
    simp only [fieldsLike, Bool.and_eq_true, ih, List.forall_mem_cons]
    refine and_congr_left fun _ => ?_
    cases others.find? (·.1 = name) <;> simp

theorem isLike_list {items : List Value} {w : Value} :
    (Value.list items).isLike w
      ↔ ∃ others, w = .list others ∧ List.Forall₂ (fun a b => a.isLike b) items others := by
  cases w <;> simp [Value.isLike, itemsLike_iff]

theorem isLike_object {fields : List (Name × Value)} {w : Value} :
    (Value.object fields).isLike w ↔ ∃ others, w = .object others
      ∧ fields.length = others.length
      ∧ ∀ a ∈ fields, ∃ b, others.find? (·.1 = a.1) = some b ∧ a.2.isLike b.2 := by
  cases w <;> simp [Value.isLike, fieldsLike_iff]

/-- An atom is like itself only. -/
theorem isLike_atom {v w : Value} (h : v.isAtom = true) : v.isLike w ↔ v = w := by
  cases v <;> cases w <;> simp_all [Value.isAtom, Value.isLike]

/-- Objects without a key twice are alike if their fields have like partners. -/
theorem isLike_object_iff {fields : List (Name × Value)} (hnd : (fields.map (·.1)).Nodup)
    {w : Value} : (Value.object fields).isLike w ↔ ∃ others, w = .object others
      ∧ Partnered (·.1) (fun a b => a.2.isLike b.2) fields others := by
  rw [isLike_object]
  constructor
  · rintro ⟨others, rfl, hlength, hfields⟩
    exact ⟨others, rfl, .of_find? hlength hfields⟩
  · rintro ⟨others, rfl, hfields⟩
    exact ⟨others, rfl, hfields.length_eq, hfields.find? (hfields.nodup hnd)⟩

theorem Value.isLike_refl {v : Value} (h : v.hasUniqueKeys) : v.isLike v := by
  induction v using Value.induction with
  | atom v hv => exact (isLike_atom hv).2 rfl
  | list items ih =>
    rw [hasUniqueKeys_list] at h
    exact isLike_list.2 ⟨items, rfl, List.forall₂_same.2 fun v hv => ih v hv (h v hv)⟩
  | object fields ih =>
    obtain ⟨hnd, hkeys⟩ := hasUniqueKeys_object.1 h
    exact (isLike_object_iff hnd).2 ⟨fields, rfl, rfl, fun a ha =>
      ⟨a, ha, rfl, ih a ha (hkeys a ha)⟩⟩

theorem Value.isLike_trans {a b c : Value} (hab : a.isLike b) (hbc : b.isLike c) :
    a.isLike c := by
  induction a using Value.induction generalizing b c with
  | atom a ha => rwa [(isLike_atom ha).1 hab]
  | list items ih =>
    obtain ⟨others, rfl, hio⟩ := isLike_list.1 hab
    obtain ⟨thirds, rfl, hot⟩ := isLike_list.1 hbc
    refine isLike_list.2 ⟨thirds, rfl, forall₂_trans_of_mem (fun v hv _ _ => ?_) hio hot⟩
    exact ih v hv
  | object fields ih =>
    obtain ⟨others, rfl, hlen, hfo⟩ := isLike_object.1 hab
    obtain ⟨thirds, rfl, hlen', hot⟩ := isLike_object.1 hbc
    refine isLike_object.2 ⟨thirds, rfl, hlen.trans hlen', fun a ha => ?_⟩
    obtain ⟨b, hb, hab⟩ := hfo a ha
    obtain ⟨c, hc, hbc⟩ := hot b (List.mem_of_find?_eq_some hb)
    have hname : b.1 = a.1 := by simpa using List.find?_some hb
    exact ⟨c, hname ▸ hc, ih a ha hab hbc⟩

theorem Value.isLike_symm {a b : Value} (ha : a.hasUniqueKeys) (hb : b.hasUniqueKeys)
    (h : a.isLike b) : b.isLike a := by
  induction a using Value.induction generalizing b with
  | atom a hatom => exact (isLike_atom hatom).1 h ▸ isLike_refl ha
  | list items ih =>
    obtain ⟨others, rfl, hio⟩ := isLike_list.1 h
    rw [hasUniqueKeys_list] at ha hb
    refine isLike_list.2 ⟨items, rfl, ?_⟩
    clear h
    induction hio with
    | nil => exact .nil
    | cons h _ step =>
      simp only [List.forall_mem_cons] at ha hb ih
      exact .cons (ih.1 ha.1 hb.1 h) (step ih.2 ha.2 hb.2)
  | object fields ih =>
    obtain ⟨hnd, hkeys⟩ := hasUniqueKeys_object.1 ha
    obtain ⟨others, rfl, hfields⟩ := (isLike_object_iff hnd).1 h
    obtain ⟨hndOthers, hkeysOthers⟩ := hasUniqueKeys_object.1 hb
    have hothers := hfields.flip hnd
    refine (isLike_object_iff hndOthers).2 ⟨fields, rfl, hothers.length_eq, fun b hb => ?_⟩
    obtain ⟨a, ha, hname, hab⟩ := hothers.partner b hb
    exact ⟨a, ha, hname, ih a ha (hkeys a ha) (hkeysOthers b hb) hab⟩

/-- A literal without a key twice is like such literals only. -/
theorem Value.hasUniqueKeys_of_isLike {a b : Value} (ha : a.hasUniqueKeys) (h : a.isLike b) :
    b.hasUniqueKeys := by
  induction a using Value.induction generalizing b with
  | atom a hatom => exact (isLike_atom hatom).1 h ▸ ha
  | list items ih =>
    obtain ⟨others, rfl, hitems⟩ := isLike_list.1 h
    rw [hasUniqueKeys_list] at ha ⊢
    intro w hw
    obtain ⟨v, hv, hlike⟩ := exists_left hitems hw
    exact ih v hv (ha v hv) hlike
  | object fields ih =>
    obtain ⟨hnd, hkeys⟩ := hasUniqueKeys_object.1 ha
    obtain ⟨others, rfl, hfields⟩ := (isLike_object_iff hnd).1 h
    refine hasUniqueKeys_object.2 ⟨hfields.nodup hnd, fun b hb => ?_⟩
    obtain ⟨a, ha, -, hlike⟩ := (hfields.flip hnd).partner b hb
    exact ih a ha (hkeys a ha) hlike

/-! ## Argument lists -/

/-- Whether a list of arguments has no name twice, and their literals no key twice at any depth. -/
def haveUniqueNames (arguments : List Argument) : Bool :=
  decide (arguments.map (·.name)).Nodup && arguments.all (·.value.hasUniqueKeys)

theorem haveUniqueNames_iff {arguments : List Argument} :
    haveUniqueNames arguments
      ↔ (arguments.map (·.name)).Nodup ∧ ∀ a ∈ arguments, a.value.hasUniqueKeys := by
  simp [haveUniqueNames]

theorem areLike_iff {arguments others : List Argument} :
    areLike arguments others ↔ arguments.length = others.length
      ∧ ∀ a ∈ arguments, ∃ b, others.reverse.find? (·.name = a.name) = some b
        ∧ a.value.isLike b.value := by
  simp only [areLike, findArgument?, Bool.and_eq_true, beq_iff_eq, List.all_eq_true]
  refine and_congr_right fun _ => forall₂_congr fun a _ => ?_
  cases others.reverse.find? (·.name = a.name) <;> simp

/-- Lists without a name twice are alike if their arguments have like partners. -/
theorem areLike_iff_partnered {arguments others : List Argument}
    (hnd : (arguments.map (·.name)).Nodup) : areLike arguments others
      ↔ Partnered (·.name) (fun a b => a.value.isLike b.value) arguments others := by
  rw [areLike_iff]
  constructor
  · rintro ⟨hlength, h⟩
    have hreverse := Partnered.of_find? (hlength.trans List.length_reverse.symm) h
    exact List.reverse_reverse others ▸ hreverse.reverse
  · intro h
    exact ⟨h.length_eq, h.reverse.find? (h.reverse.nodup hnd)⟩

theorem areLike_refl {arguments : List Argument} (h : haveUniqueNames arguments) :
    areLike arguments arguments := by
  obtain ⟨hnd, hkeys⟩ := haveUniqueNames_iff.1 h
  exact (areLike_iff_partnered hnd).2 ⟨rfl, fun a ha =>
    ⟨a, ha, rfl, Value.isLike_refl (hkeys a ha)⟩⟩

theorem areLike_trans {xs ys zs : List Argument} (hxy : areLike xs ys) (hyz : areLike ys zs) :
    areLike xs zs := by
  obtain ⟨hlen, hxy⟩ := areLike_iff.1 hxy
  obtain ⟨hlen', hyz⟩ := areLike_iff.1 hyz
  refine areLike_iff.2 ⟨hlen.trans hlen', fun a ha => ?_⟩
  obtain ⟨b, hb, hab⟩ := hxy a ha
  obtain ⟨c, hc, hbc⟩ := hyz b (List.mem_reverse.1 (List.mem_of_find?_eq_some hb))
  have hname : b.name = a.name := by simpa using List.find?_some hb
  exact ⟨c, hname ▸ hc, Value.isLike_trans hab hbc⟩

theorem areLike_symm {xs ys : List Argument} (hx : haveUniqueNames xs) (hy : haveUniqueNames ys)
    (h : areLike xs ys) : areLike ys xs := by
  obtain ⟨hnd, hkeys⟩ := haveUniqueNames_iff.1 hx
  obtain ⟨hndOthers, hkeysOthers⟩ := haveUniqueNames_iff.1 hy
  have hothers := ((areLike_iff_partnered hnd).1 h).flip hnd
  refine (areLike_iff_partnered hndOthers).2 ⟨hothers.length_eq, fun b hb => ?_⟩
  obtain ⟨a, ha, hname, hab⟩ := hothers.partner b hb
  exact ⟨a, ha, hname, Value.isLike_symm (hkeys a ha) (hkeysOthers b hb) hab⟩

/-- A list without a name twice is like such lists only. -/
theorem haveUniqueNames_of_areLike {xs ys : List Argument} (hx : haveUniqueNames xs)
    (h : areLike xs ys) : haveUniqueNames ys := by
  obtain ⟨hnd, hkeys⟩ := haveUniqueNames_iff.1 hx
  have hpartners := (areLike_iff_partnered hnd).1 h
  refine haveUniqueNames_iff.2 ⟨hpartners.nodup hnd, fun b hb => ?_⟩
  obtain ⟨a, ha, -, hlike⟩ := (hpartners.flip hnd).partner b hb
  exact Value.hasUniqueKeys_of_isLike (hkeys a ha) hlike

end SelectionForest
