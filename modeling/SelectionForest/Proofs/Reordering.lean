import Mathlib.Data.Multiset.Filter

/-!
# Entries in another order

`Reordered R xs ys` pairs the entries of two lists, each with one that it is related to, in whatever
order they stand. Entries can be put in anywhere (`insert`), and taken out from anywhere
(`exists_of_cons`); and what a test lets through is paired, if the test is passed together
(`filter`).
-/

namespace SelectionForest

variable {α β γ δ : Type}

/-- Whether the entries of two lists are related, one to one and in whatever order. -/
def Reordered (R : α → β → Prop) (xs : List α) (ys : List β) : Prop :=
  Multiset.Rel R (xs : Multiset α) (ys : Multiset β)

namespace Reordered

variable {R : α → β → Prop} {xs more : List α} {ys more' before after : List β} {x : α} {y : β}

theorem nil : Reordered R [] [] := Multiset.Rel.zero

theorem eq_nil (h : Reordered R [] ys) : ys = [] :=
  Multiset.coe_eq_zero _ |>.1 (Multiset.rel_zero_left.1 h)

theorem singleton (h : R x y) : Reordered R [x] [y] := Multiset.Rel.cons h Multiset.Rel.zero

theorem flip (h : Reordered R xs ys) : Reordered (flip R) ys xs := Multiset.rel_flip.2 h

theorem imp {S : α → β → Prop} (h : Reordered R xs ys) (hS : ∀ x y, R x y → S x y) :
    Reordered S xs ys :=
  Multiset.Rel.mono h fun x _ y _ hxy => hS x y hxy

theorem exists_right (h : Reordered R xs ys) (hx : x ∈ xs) : ∃ y ∈ ys, R x y :=
  Multiset.exists_mem_of_rel_of_mem h (Multiset.mem_coe.2 hx)

theorem exists_left (h : Reordered R xs ys) (hy : y ∈ ys) : ∃ x ∈ xs, R x y :=
  h.flip.exists_right hy

theorem map_iff {S : γ → δ → Prop} {f : α → γ} {g : β → δ} :
    Reordered S (xs.map f) (ys.map g) ↔ Reordered (fun x y => S (f x) (g y)) xs ys := by
  rw [Reordered, ← Multiset.map_coe, ← Multiset.map_coe, Multiset.rel_map]
  rfl

/-- Entries that are paired can be put in anywhere. -/
theorem insert (h : Reordered R xs (before ++ after)) (hmore : Reordered R more more') :
    Reordered R (more ++ xs) (before ++ (more' ++ after)) := by
  have hperm : (before ++ (more' ++ after)).Perm (more' ++ (before ++ after)) :=
    List.perm_append_comm_assoc ..
  rw [Reordered, Multiset.coe_eq_coe.2 hperm, ← Multiset.coe_add, ← Multiset.coe_add]
  exact Multiset.Rel.add hmore h

/-- The partner of an entry can be taken out. -/
theorem exists_of_cons (h : Reordered R (x :: xs) ys) :
    ∃ y before after, ys = before ++ y :: after ∧ R x y ∧ Reordered R xs (before ++ after) := by
  have hcons : Multiset.Rel R (x ::ₘ (xs : Multiset α)) (ys : Multiset β) := h
  obtain ⟨y, rest, hxy, hrest, heq⟩ := Multiset.rel_cons_left.1 hcons
  have hmem : y ∈ ys := by
    rw [← Multiset.mem_coe, heq]
    exact Multiset.mem_cons_self y rest
  obtain ⟨before, after, rfl⟩ := List.append_of_mem hmem
  refine ⟨y, before, after, rfl, hxy, ?_⟩
  have hmiddle : ((before ++ y :: after : List β) : Multiset β) = y ::ₘ ↑(before ++ after) :=
    Multiset.coe_eq_coe.2 List.perm_middle
  rw [hmiddle, Multiset.cons_inj_right] at heq
  rw [Reordered, heq]
  exact hrest

/-- What a test lets through is paired, if the test lets related entries through together. -/
theorem filter {p : α → Bool} {q : β → Bool} (h : Reordered R xs ys)
    (hpq : ∀ x y, R x y → p x = q y) : Reordered R (xs.filter p) (ys.filter q) := by
  induction xs generalizing ys with
  | nil =>
    rw [h.eq_nil]
    exact .nil
  | cons x xs ih =>
    obtain ⟨y, before, after, rfl, hxy, hrest⟩ := h.exists_of_cons
    have hboth := ih hrest
    rw [List.filter_append] at hboth
    rw [List.filter_append, List.filter_cons, List.filter_cons, hpq x y hxy]
    by_cases hq : q y
    · rw [if_pos hq, if_pos hq]
      exact hboth.insert (.singleton hxy)
    · rw [if_neg hq, if_neg hq]
      exact hboth

end Reordered

end SelectionForest
