import Mathlib.Data.List.Forall2

/-!
# Lists with copies put in

A list is padded if it is matched with another one, entry by entry, but for further entries that
copy one before them (`Padded`). What is matched and what is a copy is given by two relations.
Padding is built at the end of the lists, since a copy may stand far behind what it copies.

* `Padded.append`, `Padded.copies`, `Padded.flatMap`: putting padded lists together;
* `Padded.forall₂`: without copies the lists are matched;
* `Padded.sublist_map`: what matched entries have in common is kept, in its order.
-/

namespace SelectionForest

variable {α β : Type}

/-- Whether the right list is matched with the left one, but for copies of what stands before. -/
inductive Padded (R : α → β → Prop) (C : β → β → Prop) : List α → List β → Prop
  | nil : Padded R C [] []
  | keep {xs : List α} {ys : List β} {x : α} {y : β} (h : Padded R C xs ys) (hxy : R x y) :
      Padded R C (xs ++ [x]) (ys ++ [y])
  | copy {xs : List α} {ys : List β} {y copied : β} (h : Padded R C xs ys) (hy : y ∈ ys)
      (hcopy : C y copied) : Padded R C xs (ys ++ [copied])

namespace Padded

variable {R : α → β → Prop} {C : β → β → Prop} {xs xs' : List α} {ys ys' : List β}

theorem append (h : Padded R C xs ys) (h' : Padded R C xs' ys') :
    Padded R C (xs ++ xs') (ys ++ ys') := by
  induction h' with
  | nil => simpa using h
  | keep _ hxy ih =>
    rw [← List.append_assoc, ← List.append_assoc]
    exact .keep ih hxy
  | copy _ hy hcopy ih =>
    rw [← List.append_assoc]
    exact .copy ih (List.mem_append_right _ hy) hcopy

theorem singleton {x : α} {y : β} (h : R x y) : Padded R C [x] [y] := .keep .nil h

/-- Lists that are matched are padded with no copies. -/
theorem of_forall₂ (h : List.Forall₂ R xs ys) : Padded R C xs ys := by
  induction h with
  | nil => exact .nil
  | cons hxy _ ih => exact (singleton hxy).append ih

/-- Entries that stand there already may be copied one after the other. -/
theorem copies (h : Padded R C xs ys) {zs copied : List β} (hcopies : List.Forall₂ C zs copied)
    (hzs : ∀ z ∈ zs, z ∈ ys) : Padded R C xs (ys ++ copied) := by
  induction hcopies generalizing ys with
  | nil => simpa using h
  | @cons z c zs copied hzc _ ih =>
    obtain ⟨hz, hrest⟩ := List.forall_mem_cons.1 hzs
    rw [List.append_cons]
    exact ih (.copy h hz hzc) fun z' hz' => List.mem_append_left _ (hrest z' hz')

theorem flatMap {γ δ : Type} {R' : γ → δ → Prop} {C' : δ → δ → Prop} {f : α → List γ}
    {g : β → List δ} (hR : ∀ x y, R x y → Padded R' C' (f x) (g y))
    (hC : ∀ y copied, C y copied → List.Forall₂ C' (g y) (g copied)) (h : Padded R C xs ys) :
    Padded R' C' (xs.flatMap f) (ys.flatMap g) := by
  induction h with
  | nil => exact .nil
  | keep _ hxy ih =>
    simpa using ih.append (hR _ _ hxy)
  | copy _ hy hcopy ih =>
    simpa using ih.copies (hC _ _ hcopy) fun z hz => List.mem_flatMap_of_mem hy hz

theorem imp {R' : α → β → Prop} {C' : β → β → Prop} (hR : ∀ x y, R x y → R' x y)
    (hC : ∀ y copied, C y copied → C' y copied) (h : Padded R C xs ys) : Padded R' C' xs ys := by
  induction h with
  | nil => exact .nil
  | keep _ hxy ih => exact .keep ih (hR _ _ hxy)
  | copy _ hy hcopy ih => exact .copy ih hy (hC _ _ hcopy)

/-- Without copies, padded lists are matched. -/
theorem forall₂ (hC : ∀ y copied, ¬ C y copied) (h : Padded R C xs ys) : List.Forall₂ R xs ys := by
  induction h with
  | nil => exact .nil
  | keep _ hxy ih => exact List.rel_append ih (.cons hxy .nil)
  | copy _ _ hcopy => exact absurd hcopy (hC _ _)

/-- Padding keeps what matched entries have in common, in its order. -/
theorem sublist_map {γ : Type} {f : α → γ} {g : β → γ} (hR : ∀ x y, R x y → f x = g y)
    (h : Padded R C xs ys) : (xs.map f).Sublist (ys.map g) := by
  induction h with
  | nil => exact .slnil
  | @keep xs ys x y _ hxy ih =>
    rw [List.map_append, List.map_append, List.map_singleton, List.map_singleton, hR x y hxy]
    exact ih.append_right _
  | copy _ _ _ ih =>
    rw [List.map_append]
    exact ih.trans (List.sublist_append_left _ _)

end Padded

end SelectionForest
