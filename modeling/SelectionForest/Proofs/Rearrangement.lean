import Mathlib.Data.List.Perm.Subperm
import SelectionForest.Proofs.Likeness

/-!
# Likeness is equality up to order

A list of arguments is a rearrangement of another one if it has the arguments of the other in some
order, and the fields of the object literals in them in some order at any depth; list items keep
their places (`Value.IsRearranged`, `AreRearranged`).

* `partnered_iff`: entries of different names have partners if and only if they are, in some order,
  the partners of the other side one by one;
* `areLike_equivalence`: on lists without a name twice, likeness is an equivalence, and such a list
  is like its rearrangements and nothing else.
-/

namespace SelectionForest

/-- Entries that each have a partner can be lined up with their partners. -/
theorem exists_forall₂ {α β : Type} {R : α → β → Prop} {ys : List β} (h : ∀ y ∈ ys, ∃ x, R x y) :
    ∃ xs, List.Forall₂ R xs ys := by
  induction ys with
  | nil => exact ⟨[], .nil⟩
  | cons y ys ih =>
    obtain ⟨⟨x, hx⟩, hys⟩ := List.forall_mem_cons.1 h
    obtain ⟨xs, hxs⟩ := ih hys
    exact ⟨x :: xs, .cons hx hxs⟩

/-- Entries of different names have partners if and only if, in some order, they are paired with the
entries of the other side. -/
theorem partnered_iff {α : Type} {name : α → Name} {R : α → α → Prop} {xs ys : List α}
    (hx : (xs.map name).Nodup) : Partnered name R xs ys ↔ ∃ moved, xs.Perm moved
      ∧ List.Forall₂ (fun x y => name x = name y ∧ R x y) moved ys := by
  constructor
  · intro h
    -- Take the partners of the other side in its order: no entry is left over.
    have hpartners : ∀ y ∈ ys, ∃ x, x ∈ xs ∧ name x = name y ∧ R x y := (h.flip hx).partner
    obtain ⟨moved, hmoved⟩ := exists_forall₂ hpartners
    have hnames : ys.map name = moved.map name :=
      map_eq_of_forall₂ (fun x y hxy => hxy.2.1.symm) hmoved
    have hnodup : moved.Nodup := (hnames ▸ h.nodup hx).of_map name
    have hsub : moved ⊆ xs := fun x hx => by
      obtain ⟨y, -, hxs, -⟩ := exists_right hmoved hx
      exact hxs
    have hperm : moved.Perm xs :=
      (hnodup.subperm hsub).perm_of_length_le (Nat.le_of_eq (h.length_eq.trans hmoved.length_eq.symm))
    exact ⟨moved, hperm.symm, hmoved.imp fun x y hxy => hxy.2⟩
  · rintro ⟨moved, hperm, hmoved⟩
    refine ⟨hperm.length_eq.trans hmoved.length_eq, fun x hx => ?_⟩
    obtain ⟨y, hy, hname, hR⟩ := exists_right hmoved (hperm.mem_iff.1 hx)
    exact ⟨y, hy, hname.symm, hR⟩

/-! ## Literals -/

/-- Whether a literal is another one with the fields of objects in some other order, at any depth. -/
inductive Value.IsRearranged : Value → Value → Prop
  | refl (v : Value) : IsRearranged v v
  | list {items others : List Value} (h : List.Forall₂ IsRearranged items others) :
      IsRearranged (.list items) (.list others)
  | object {fields moved others : List (Name × Value)} (order : fields.Perm moved)
      (names : moved.map (·.1) = others.map (·.1))
      (values : List.Forall₂ IsRearranged (moved.map (·.2)) (others.map (·.2))) :
      IsRearranged (.object fields) (.object others)

/-- Fields are paired if their names are the same and their values are paired. -/
theorem forall₂_fields_iff {R : Value → Value → Prop} {fields others : List (Name × Value)} :
    List.Forall₂ (fun a b => a.1 = b.1 ∧ R a.2 b.2) fields others
      ↔ fields.map (·.1) = others.map (·.1)
        ∧ List.Forall₂ R (fields.map (·.2)) (others.map (·.2)) := by
  induction fields generalizing others with
  | nil => cases others <;> simp
  | cons field fields ih =>
    cases others with
    | nil => simp
    | cons other others =>
      simp only [List.forall₂_cons, List.map_cons, List.cons.injEq, ih]
      exact and_and_and_comm

/-- A literal without a key twice is like its rearrangements and nothing else. -/
theorem Value.isLike_iff_isRearranged {a b : Value} (ha : a.hasUniqueKeys) :
    a.isLike b ↔ a.IsRearranged b := by
  induction a using Value.induction generalizing b with
  | atom a hatom =>
    rw [isLike_atom hatom]
    constructor
    · rintro rfl
      exact .refl a
    · intro h
      cases h with
      | refl => rfl
      | list | object => cases hatom
  | list items ih =>
    rw [hasUniqueKeys_list] at ha
    have hitems : ∀ others, List.Forall₂ (fun a b => a.isLike b) items others
        ↔ List.Forall₂ IsRearranged items others := fun others =>
      forall₂_congr_of_mem fun v hv w => ih v hv (ha v hv)
    constructor
    · intro h
      obtain ⟨others, rfl, hlike⟩ := isLike_list.1 h
      exact .list ((hitems others).1 hlike)
    · intro h
      cases h with
      | refl => exact isLike_refl (hasUniqueKeys_list.2 ha)
      | list h => exact isLike_list.2 ⟨_, rfl, (hitems _).2 h⟩
  | object fields ih =>
    obtain ⟨hnd, hkeys⟩ := hasUniqueKeys_object.1 ha
    have hfields : ∀ others, Partnered (·.1) (fun a b => a.2.isLike b.2) fields others
        ↔ ∃ moved, fields.Perm moved ∧ moved.map (·.1) = others.map (·.1)
          ∧ List.Forall₂ IsRearranged (moved.map (·.2)) (others.map (·.2)) := by
      intro others
      rw [partnered_iff hnd]
      refine exists_congr fun moved => and_congr_right fun hperm => ?_
      rw [← forall₂_fields_iff]
      refine forall₂_congr_of_mem fun a ha b => and_congr_right fun _ => ?_
      exact ih a (hperm.mem_iff.2 ha) (hkeys a (hperm.mem_iff.2 ha))
    constructor
    · intro h
      obtain ⟨others, rfl, hlike⟩ := (isLike_object_iff hnd).1 h
      obtain ⟨moved, horder, hnames, hvalues⟩ := (hfields others).1 hlike
      exact .object horder hnames hvalues
    · intro h
      cases h with
      | refl => exact isLike_refl ha
      | object horder hnames hvalues =>
        exact (isLike_object_iff hnd).2 ⟨_, rfl, (hfields _).2 ⟨_, horder, hnames, hvalues⟩⟩

/-! ## Argument lists -/

/-- Whether a list of arguments is another one with the arguments in some other order, and the fields
of objects in them as well. -/
def AreRearranged (arguments others : List Argument) : Prop :=
  ∃ moved, arguments.Perm moved
    ∧ List.Forall₂ (fun a b => a.name = b.name ∧ Value.IsRearranged a.value b.value) moved others

/-- On lists of arguments without a name twice, likeness is an equivalence, and such a list is like
its rearrangements and nothing else. -/
theorem areLike_equivalence {xs : List Argument} (hx : haveUniqueNames xs) :
    areLike xs xs
      ∧ (∀ ys, areLike xs ys → areLike ys xs)
      ∧ (∀ ys zs, areLike xs ys → areLike ys zs → areLike xs zs)
      ∧ ∀ ys, areLike xs ys ↔ AreRearranged xs ys := by
  refine ⟨areLike_refl hx, fun ys h => areLike_symm hx (haveUniqueNames_of_areLike hx h) h,
    fun ys zs hxy hyz => areLike_trans hxy hyz, fun ys => ?_⟩
  obtain ⟨hnd, hkeys⟩ := haveUniqueNames_iff.1 hx
  rw [areLike_iff_partnered hnd, partnered_iff hnd]
  refine exists_congr fun moved => and_congr_right fun hperm => forall₂_congr_of_mem ?_
  intro a ha b
  exact and_congr_right fun _ => Value.isLike_iff_isRearranged (hkeys a (hperm.mem_iff.2 ha))

namespace Sample

/-- `f(filter: {name: "x", sizes: [1, 2]}, first: $n)` -/
def written : List Argument :=
  [⟨"filter", .object [("name", .string "x"), ("sizes", .list [.int "1", .int "2"])]⟩,
    ⟨"first", .variable "n"⟩]

/-- `f(first: $n, filter: {sizes: [1, 2], name: "x"})` -/
def rewritten : List Argument :=
  [⟨"first", .variable "n"⟩,
    ⟨"filter", .object [("sizes", .list [.int "1", .int "2"]), ("name", .string "x")]⟩]

/-- `f(first: $n, filter: {sizes: [2, 1], name: "x"})` -/
def swapped : List Argument :=
  [⟨"first", .variable "n"⟩,
    ⟨"filter", .object [("sizes", .list [.int "2", .int "1"]), ("name", .string "x")]⟩]

/-- Arguments and fields may change their places, items of a list may not. -/
theorem written_rearranged :
    haveUniqueNames written ∧ AreRearranged written rewritten ∧ ¬ AreRearranged written swapped := by
  have hunique : haveUniqueNames written := by decide
  obtain ⟨-, -, -, hlike⟩ := areLike_equivalence hunique
  exact ⟨hunique, (hlike rewritten).1 (by decide), mt (hlike swapped).2 (by decide)⟩

end Sample

end SelectionForest
