import Mathlib.Data.List.Forall2
import Mathlib.Data.List.Pairwise
import SelectionForest.Error

/-!
# Outcomes that succeed, and outcomes that agree

A sequence of steps succeeds if each step does (`bind_eq_ok`), a step that is tested first may also
be left out (`tested_eq_ok`), and a traversal of a list succeeds if all its steps do (`mapM_eq_ok`):
what it gives is matched, entry by entry, with what it went through. Entries of matched lists have
partners on the other side (`exists_right`, `exists_left`), and what holds between the partners of
different entries is known of the entries (`exists_apart`).

Two outcomes agree if they are the same error, or results in a relation (`Agree`). Sequences agree if
their steps do (`Agree.bind`). Where two runs may differ in what they refuse, they agree unless one of
them fails (`AgreeUnless`), and the same holds of sequences and traversals (`AgreeUnless.bind`,
`AgreeUnless.mapM`). Where only success counts, the success of one run carries over to the other
(`Carries`).
-/

namespace SelectionForest

variable {α β : Type}

section Matched

variable {R : α → β → Prop} {xs : List α} {ys : List β}

/-- In matched lists, an entry on the left has a partner on the right. -/
theorem exists_right (h : List.Forall₂ R xs ys) {x : α} (hx : x ∈ xs) : ∃ y ∈ ys, R x y := by
  induction h with
  | nil => exact absurd hx List.not_mem_nil
  | cons hxy _ ih =>
    rcases List.mem_cons.1 hx with rfl | hx
    · exact ⟨_, List.mem_cons_self, hxy⟩
    · obtain ⟨y, hy, hR⟩ := ih hx
      exact ⟨y, List.mem_cons_of_mem _ hy, hR⟩

/-- In matched lists, an entry on the right has a partner on the left. -/
theorem exists_left (h : List.Forall₂ R xs ys) {y : β} (hy : y ∈ ys) : ∃ x ∈ xs, R x y :=
  exists_right (R := flip R) h.flip hy

/-- What the partners of matched lists have in common. -/
theorem map_eq_of_forall₂ {γ : Type} {f : α → γ} {g : β → γ} (hR : ∀ x y, R x y → g y = f x)
    (h : List.Forall₂ R xs ys) : ys.map g = xs.map f := by
  induction h with
  | nil => rfl
  | cons hxy _ ih => rw [List.map_cons, List.map_cons, hR _ _ hxy, ih]

theorem forall₂_imp_of_mem {S : α → β → Prop} (hS : ∀ x ∈ xs, ∀ y, R x y → S x y)
    (h : List.Forall₂ R xs ys) : List.Forall₂ S xs ys :=
  ((List.forall₂_and_left xs ys).2 ⟨fun _ hx => hx, h⟩).imp fun x y hxy => hS x hxy.1 y hxy.2

theorem forall₂_congr_of_mem {S : α → β → Prop} (h : ∀ x ∈ xs, ∀ y, R x y ↔ S x y) :
    List.Forall₂ R xs ys ↔ List.Forall₂ S xs ys :=
  ⟨forall₂_imp_of_mem fun x hx y => (h x hx y).1, forall₂_imp_of_mem fun x hx y => (h x hx y).2⟩

theorem forall₂_trans_of_mem {γ : Type} {S : β → γ → Prop} {T : α → γ → Prop} {zs : List γ}
    (h : ∀ x ∈ xs, ∀ y z, R x y → S y z → T x z) (hxy : List.Forall₂ R xs ys)
    (hyz : List.Forall₂ S ys zs) : List.Forall₂ T xs zs := by
  induction hxy generalizing zs with
  | nil =>
    cases hyz
    exact .nil
  | cons hfirst _ ih =>
    obtain ⟨hstep, hrest⟩ := List.forall_mem_cons.1 h
    cases hyz with
    | cons hfirst' hyz => exact .cons (hstep _ _ hfirst hfirst') (ih hrest hyz)

theorem forall₂_zipIdx (h : List.Forall₂ R xs ys) (start : Nat) :
    List.Forall₂ (fun x y => R x.1 y.1 ∧ y.2 = x.2) (xs.zipIdx start) (ys.zipIdx start) := by
  induction h generalizing start with
  | nil => exact .nil
  | cons hxy _ ih => exact .cons ⟨hxy, rfl⟩ (ih (start + 1))

theorem pairwise_left {S : β → β → Prop} (h : List.Forall₂ R xs ys) (hys : ys.Pairwise S) :
    xs.Pairwise fun x later => ∃ y y', R x y ∧ R later y' ∧ S y y' := by
  induction h with
  | nil => exact .nil
  | cons hxy hrest ih =>
    obtain ⟨hfirst, hys⟩ := List.pairwise_cons.1 hys
    refine List.pairwise_cons.2 ⟨fun later hlater => ?_, ih hys⟩
    obtain ⟨y', hy', hR⟩ := exists_right hrest hlater
    exact ⟨_, y', hxy, hR, hfirst y' hy'⟩

/-- In matched lists, different entries on the left have partners that are apart, if those on the
right are. -/
theorem exists_apart {S : β → β → Prop} (hS : ∀ {y y'}, S y y' → S y' y)
    (h : List.Forall₂ R xs ys) (hys : ys.Pairwise S) {x x' : α} (hx : x ∈ xs) (hx' : x' ∈ xs)
    (hne : x ≠ x') : ∃ y ∈ ys, ∃ y' ∈ ys, R x y ∧ R x' y' ∧ S y y' := by
  have hmem : ys.Pairwise fun y y' => y ∈ ys ∧ y' ∈ ys ∧ S y y' :=
    hys.imp_of_mem fun hy hy' hapart => ⟨hy, hy', hapart⟩
  have hsymm : Std.Symm fun x x' => ∃ y y', R x y ∧ R x' y' ∧ y ∈ ys ∧ y' ∈ ys ∧ S y y' :=
    ⟨fun _ _ ⟨y, y', hxy, hxy', hy, hy', hapart⟩ => ⟨y', y, hxy', hxy, hy', hy, hS hapart⟩⟩
  obtain ⟨y, y', hxy, hxy', hy, hy', hapart⟩ := (pairwise_left h hmem).forall hx hx' hne
  exact ⟨y, hy, y', hy', hxy, hxy', hapart⟩

end Matched

theorem bind_eq_ok {x : Outcome α} {f : α → Outcome β} {b : β} :
    (x >>= f) = .ok b ↔ ∃ a, x = .ok a ∧ f a = .ok b := by
  cases x <;> simp [bind, Except.bind]

theorem ok_bind (a : α) (f : α → Outcome β) : (Except.ok a >>= f) = f a := rfl

theorem pure_eq_ok {a b : α} : (pure a : Outcome α) = .ok b ↔ a = b := by
  simp [pure, Except.pure]

theorem map_eq_ok {α β : Type} {x : Outcome α} {f : α → β} {b : β} :
    x.map f = .ok b ↔ ∃ a, x = .ok a ∧ f a = b := by
  cases x <;> simp [Except.map]

/-- An outcome is not two things. -/
theorem false_of_ok {x : Outcome Bool} (hfalse : x = .ok false) (htrue : x = .ok true) : False := by
  rw [hfalse] at htrue
  cases htrue

/-- A step that is taken only if a test lets it leaves the state, or is taken. -/
theorem tested_eq_ok {test : Outcome Bool} {step : Outcome α} {state out : α}
    (h : (do if ← test then step else pure state) = .ok out) :
    (test = .ok false ∧ state = out) ∨ (test = .ok true ∧ step = .ok out) := by
  obtain ⟨result, htest, h⟩ := bind_eq_ok.1 h
  cases result with
  | false => exact .inl ⟨htest, pure_eq_ok.1 h⟩
  | true => exact .inr ⟨htest, h⟩

/-- A traversal gives one result for each entry, in the same order. -/
theorem mapM_eq_ok {f : α → Outcome β} {xs : List α} {ys : List β} :
    xs.mapM f = .ok ys ↔ List.Forall₂ (fun x y => f x = .ok y) xs ys := by
  induction xs generalizing ys with
  | nil =>
    rw [List.mapM_nil, pure_eq_ok, List.forall₂_nil_left_iff]
    exact eq_comm
  | cons x xs ih =>
    simp only [List.mapM_cons, bind_eq_ok, pure_eq_ok, ih, List.forall₂_cons_left_iff]
    constructor
    · rintro ⟨y, hy, rest, hrest, rfl⟩
      exact ⟨y, rest, hy, hrest, rfl⟩
    · rintro ⟨y, rest, hy, hrest, rfl⟩
      exact ⟨y, hy, rest, hrest, rfl⟩

/-- A traversal whose steps succeed succeeds. -/
theorem exists_mapM {f : α → Outcome β} {xs : List α} (h : ∀ x ∈ xs, ∃ y, f x = .ok y) :
    ∃ ys, xs.mapM f = .ok ys := by
  induction xs with
  | nil => exact ⟨[], rfl⟩
  | cons x xs ih =>
    obtain ⟨⟨y, hy⟩, hxs⟩ := List.forall_mem_cons.1 h
    obtain ⟨ys, hys⟩ := ih hxs
    exact ⟨y :: ys, mapM_eq_ok.2 (.cons hy (mapM_eq_ok.1 hys))⟩

theorem mapM_congr {f g : α → Outcome β} {xs : List α} (h : ∀ x ∈ xs, f x = g x) :
    xs.mapM f = xs.mapM g := by
  induction xs with
  | nil => rfl
  | cons x xs ih =>
    obtain ⟨hx, hxs⟩ := List.forall_mem_cons.1 h
    rw [List.mapM_cons, List.mapM_cons, hx, ih hxs]

/-! ## Agreement -/

/-- Whether two outcomes are the same error, or results in a relation. -/
inductive Agree (R : α → β → Prop) : Outcome α → Outcome β → Prop
  | ok {a : α} {b : β} (h : R a b) : Agree R (.ok a) (.ok b)
  | error (error : Error) : Agree R (.error error) (.error error)

namespace Agree

variable {γ δ : Type} {R : α → β → Prop} {S : γ → δ → Prop} {x : Outcome α} {y : Outcome β}

theorem imp {R' : α → β → Prop} (hR : ∀ a b, R a b → R' a b) (h : Agree R x y) :
    Agree R' x y := by
  cases h with
  | ok h => exact .ok (hR _ _ h)
  | error e => exact .error e

/-- If one outcome succeeds, so does one that agrees with it. -/
theorem exists_right {a : α} (h : Agree R x y) (hx : x = .ok a) : ∃ b, y = .ok b ∧ R a b := by
  subst hx
  cases h with
  | ok h => exact ⟨_, rfl, h⟩

/-- If one outcome is an error, it is that of an outcome that agrees with it. -/
theorem error_right {error : Error} (h : Agree R x y) (hx : x = .error error) :
    y = .error error := by
  subst hx
  cases h
  rfl

/-- What is known of one of the results. -/
theorem and_right {P : β → Prop} (h : Agree R x y) (hP : ∀ b, y = .ok b → P b) :
    Agree (fun a b => R a b ∧ P b) x y := by
  cases h with
  | ok h => exact .ok ⟨h, hP _ rfl⟩
  | error e => exact .error e

/-- An outcome agrees with itself. -/
theorem refl {R : α → α → Prop} (hR : ∀ a, R a a) : ∀ x : Outcome α, Agree R x x
  | .ok a => .ok (hR a)
  | .error e => .error e

theorem bind {f : α → Outcome γ} {g : β → Outcome δ} (h : Agree R x y)
    (hfg : ∀ a b, R a b → Agree S (f a) (g b)) : Agree S (x >>= f) (y >>= g) := by
  cases h with
  | ok h => exact hfg _ _ h
  | error e => exact .error e

/-- What is made of one of the results. -/
theorem map_left {R' : γ → β → Prop} {f : α → γ} (h : Agree R x y)
    (hf : ∀ a b, R a b → R' (f a) b) : Agree R' (x >>= fun a => pure (f a)) y := by
  cases h with
  | ok h => exact .ok (hf _ _ h)
  | error e => exact .error e

/-- Two sequences with one first step agree if what they go on with does. -/
theorem bind_left {f : α → Outcome γ} {g : α → Outcome δ} (x : Outcome α)
    (hfg : ∀ a, Agree S (f a) (g a)) : Agree S (x >>= f) (x >>= g) :=
  (refl (R := Eq) (fun _ => rfl) x).bind fun a _ h => h ▸ hfg a

end Agree

/-! ## Agreement but for failures -/

/-- Whether two outcomes agree, or one of them fails where they may fail apart. -/
inductive AgreeUnless (apart : Prop) (R : α → β → Prop) : Outcome α → Outcome β → Prop
  | ok {a : α} {b : β} (h : R a b) : AgreeUnless apart R (.ok a) (.ok b)
  | error (error : Error) : AgreeUnless apart R (.error error) (.error error)
  | left (h : apart) (error : Error) (y : Outcome β) : AgreeUnless apart R (.error error) y
  | right (h : apart) (x : Outcome α) (error : Error) : AgreeUnless apart R x (.error error)

theorem Agree.unless {R : α → β → Prop} {x : Outcome α} {y : Outcome β} (h : Agree R x y)
    (apart : Prop) : AgreeUnless apart R x y := by
  cases h with
  | ok h => exact .ok h
  | error e => exact .error e

namespace AgreeUnless

variable {γ δ : Type} {apart : Prop} {R : α → β → Prop} {S : γ → δ → Prop} {x : Outcome α}
  {y : Outcome β}

/-- Outcomes that never fail apart agree. -/
theorem agree (hnever : ¬ apart) (h : AgreeUnless apart R x y) : Agree R x y := by
  cases h with
  | ok h => exact .ok h
  | error e => exact .error e
  | left h => exact absurd h hnever
  | right h => exact absurd h hnever

/-- What two runs give is related, if both give something. -/
theorem of_ok {a : α} {b : β} (h : AgreeUnless apart R x y) (hx : x = .ok a) (hy : y = .ok b) :
    R a b := by
  subst hx hy
  cases h with
  | ok h => exact h

/-- Outcomes that may fail apart agree if nothing is asked of their results. -/
theorem of_apart (h : apart) : ∀ (x : Outcome α) (y : Outcome β),
    AgreeUnless apart (fun _ _ => True) x y
  | .ok _, .ok _ => .ok trivial
  | .error e, y => .left h e y
  | .ok a, .error e => .right h (.ok a) e

theorem imp {R' : α → β → Prop} (hR : ∀ a b, R a b → R' a b) (h : AgreeUnless apart R x y) :
    AgreeUnless apart R' x y := by
  cases h with
  | ok h => exact .ok (hR _ _ h)
  | error e => exact .error e
  | left h e y => exact .left h e y
  | right h x e => exact .right h x e

theorem bind {f : α → Outcome γ} {g : β → Outcome δ} (h : AgreeUnless apart R x y)
    (hfg : ∀ a b, R a b → AgreeUnless apart S (f a) (g b)) :
    AgreeUnless apart S (x >>= f) (y >>= g) := by
  cases h with
  | ok h => exact hfg _ _ h
  | error e => exact .error e
  | left h e y => exact .left h e _
  | right h x e => exact .right h _ e

/-- Two sequences with one first step agree if what they go on with does, after each of its
results. -/
theorem bind_left {f : α → Outcome γ} {g : α → Outcome δ} (x : Outcome α)
    (hfg : ∀ a, x = .ok a → AgreeUnless apart S (f a) (g a)) :
    AgreeUnless apart S (x >>= f) (x >>= g) := by
  cases x with
  | ok a => exact hfg a rfl
  | error e => exact .error e

theorem mapM {f : α → Outcome γ} {g : β → Outcome δ}
    (hfg : ∀ a b, R a b → AgreeUnless apart S (f a) (g b)) {xs : List α} {ys : List β}
    (h : List.Forall₂ R xs ys) :
    AgreeUnless apart (List.Forall₂ S) (xs.mapM f) (ys.mapM g) := by
  induction h with
  | nil => exact .ok .nil
  | cons hxy _ ih =>
    rw [List.mapM_cons, List.mapM_cons]
    exact (hfg _ _ hxy).bind fun _ _ hfirst => ih.bind fun _ _ hrest => .ok (.cons hfirst hrest)

end AgreeUnless

/-! ## Success that carries over -/

/-- Whether a result of one outcome comes with a related result of another one. Nothing is asked if
the first one is an error. -/
inductive Carries (R : α → β → Prop) : Outcome α → Outcome β → Prop
  | ok {a : α} {b : β} (h : R a b) : Carries R (.ok a) (.ok b)
  | error (error : Error) (y : Outcome β) : Carries R (.error error) y

namespace Carries

variable {γ δ : Type} {R : α → β → Prop} {S : γ → δ → Prop} {x : Outcome α} {y : Outcome β}

theorem exists_right {a : α} (h : Carries R x y) (hx : x = .ok a) : ∃ b, y = .ok b ∧ R a b := by
  subst hx
  cases h with
  | ok h => exact ⟨_, rfl, h⟩

/-- What an outcome gives is carried over to itself. -/
theorem refl {R : α → α → Prop} (hR : ∀ a, R a a) : ∀ x : Outcome α, Carries R x x
  | .ok a => .ok (hR a)
  | .error e => .error e _

theorem map {f : α → γ} {g : β → δ} (h : Carries R x y) (hfg : ∀ a b, R a b → S (f a) (g b)) :
    Carries S (x.map f) (y.map g) := by
  cases h with
  | ok h => exact .ok (hfg _ _ h)
  | error e y => exact .error e _

theorem bind {f : α → Outcome γ} {g : β → Outcome δ} (h : Carries R x y)
    (hfg : ∀ a b, R a b → Carries S (f a) (g b)) : Carries S (x >>= f) (y >>= g) := by
  cases h with
  | ok h => exact hfg _ _ h
  | error e y => exact .error e _

theorem mapM {f : α → Outcome γ} {g : β → Outcome δ} {xs : List α} {ys : List β}
    (h : List.Forall₂ (fun a b => Carries S (f a) (g b)) xs ys) :
    Carries (List.Forall₂ S) (xs.mapM f) (ys.mapM g) := by
  induction h with
  | nil => exact .ok .nil
  | cons hxy _ ih =>
    rw [List.mapM_cons, List.mapM_cons]
    exact hxy.bind fun _ _ hfirst => ih.bind fun _ _ hrest => .ok (.cons hfirst hrest)

theorem foldlM {f : α → γ → Outcome α} {g : β → γ → Outcome β} {steps : List γ}
    (hfg : ∀ step ∈ steps, ∀ a b, R a b → Carries R (f a step) (g b step)) {a : α} {b : β}
    (h : R a b) : Carries R (steps.foldlM f a) (steps.foldlM g b) := by
  induction steps generalizing a b with
  | nil => exact .ok h
  | cons step steps ih =>
    obtain ⟨hfirst, hrest⟩ := List.forall_mem_cons.1 hfg
    rw [List.foldlM_cons, List.foldlM_cons]
    exact (hfirst a b h).bind fun _ _ => ih hrest

end Carries

/-! ## Ends -/

/-- Whether an outcome is a result with a property, or an error of some kinds. -/
inductive Ends (errors : Error → Prop) (P : α → Prop) : Outcome α → Prop
  | ok {a : α} (h : P a) : Ends errors P (.ok a)
  | error {error : Error} (h : errors error) : Ends errors P (.error error)

namespace Ends

variable {errors others : Error → Prop} {P : α → Prop} {Q : β → Prop} {x : Outcome α}

theorem imp {P' : α → Prop} (herrors : ∀ error, errors error → others error)
    (hP : ∀ a, P a → P' a) (h : Ends errors P x) : Ends others P' x := by
  cases h with
  | ok h => exact .ok (hP _ h)
  | error h => exact .error (herrors _ h)

/-- What is known of the result. -/
theorem of_ok {a : α} (h : Ends errors P x) (hx : x = .ok a) : P a := by
  subst hx
  cases h with
  | ok h => exact h

/-- What is known of the error. -/
theorem of_error {error : Error} (h : Ends errors P x) (hx : x = .error error) : errors error := by
  subst hx
  cases h with
  | error h => exact h

theorem bind {f : α → Outcome β} (h : Ends errors P x)
    (hf : ∀ a, x = .ok a → P a → Ends errors Q (f a)) : Ends errors Q (x >>= f) := by
  cases h with
  | ok h => exact hf _ rfl h
  | error h => exact .error h

theorem map {f : α → β} (h : Ends errors P x) (hf : ∀ a, P a → Q (f a)) :
    Ends errors Q (x.map f) := by
  cases h with
  | ok h => exact .ok (hf _ h)
  | error h => exact .error h

theorem foldlM {f : α → β → Outcome α} {xs : List β}
    (hf : ∀ b ∈ xs, ∀ a, P a → Ends errors P (f a b)) {a : α} (ha : P a) :
    Ends errors P (xs.foldlM f a) := by
  induction xs generalizing a with
  | nil => exact .ok ha
  | cons b xs ih =>
    obtain ⟨hfirst, hrest⟩ := List.forall_mem_cons.1 hf
    rw [List.foldlM_cons]
    exact (hfirst a ha).bind fun _ _ hnext => ih hrest hnext

theorem mapM {f : α → Outcome β} {xs : List α} (hf : ∀ a ∈ xs, Ends errors Q (f a)) :
    Ends errors (fun ys => ∀ y ∈ ys, Q y) (xs.mapM f) := by
  induction xs with
  | nil => exact .ok (List.forall_mem_nil _)
  | cons a xs ih =>
    obtain ⟨hfirst, hrest⟩ := List.forall_mem_cons.1 hf
    rw [List.mapM_cons]
    exact hfirst.bind fun y _ hy => (ih hrest).bind fun ys _ hys =>
      .ok (List.forall_mem_cons.2 ⟨hy, hys⟩)

end Ends

/-- Whether an outcome, if it is an error, is one of some kinds. -/
abbrev FailsWith (errors : Error → Prop) (x : Outcome α) : Prop := Ends errors (fun _ => True) x

namespace FailsWith

variable {errors : Error → Prop} {x : Outcome α}

theorem map (h : FailsWith errors x) (f : α → β) : FailsWith errors (x.map f) :=
  Ends.map h fun _ _ => trivial

theorem bind {f : α → Outcome β} (h : FailsWith errors x) (hf : ∀ a, FailsWith errors (f a)) :
    FailsWith errors (x >>= f) :=
  Ends.bind h fun a _ _ => hf a

theorem mapM {f : α → Outcome β} {xs : List α} (hf : ∀ a ∈ xs, FailsWith errors (f a)) :
    FailsWith errors (xs.mapM f) :=
  (Ends.mapM hf).imp (fun _ h => h) fun _ _ => trivial

end FailsWith

end SelectionForest
