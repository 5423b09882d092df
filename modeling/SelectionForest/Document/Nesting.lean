import SelectionForest.Document.Basic

/-!
# Nesting of selection sets

The selections of a spread stand where the spread stands, so how deep the selection sets of a
document nest depends on its fragments (`fitAll`). In a document that nests within the limits
(`Document.isWithinLimits`) no fragment spreads itself, at any depth: spreads that never end are
more than the limit allows.
-/

namespace SelectionForest

/-- How many selection sets of fields may stand one inside the other, that of the operation
included. -/
def selectionSetLimit : Nat := 128

/-- How many fragments may be entered one inside the other. -/
def fragmentLimit : Nat := 100

mutual

/-- Whether a selection has at most `levels` levels of selection sets of fields. What a spread of a
fragment has is for `spread` to say. -/
def Selection.fits (spread : Nat → Name → Bool) (levels : Nat) : Selection → Bool
  | .field field => field.fits spread levels
  | .inline _ _ selections => fitAll spread levels selections
  | .spread fragment _ => spread levels fragment

/-- Whether a field has at most `levels` levels of selection sets, its own included. -/
def Field.fits (spread : Nat → Name → Bool) (levels : Nat) : Field → Bool
  | ⟨_, _, _, _, _, selections⟩ =>
    selections.isEmpty || (0 < levels && fitAll spread (levels - 1) selections)

/-- Whether each selection of a set has at most `levels` levels of selection sets of fields. -/
def fitAll (spread : Nat → Name → Bool) (levels : Nat) : List Selection → Bool
  | [] => true
  | selection :: selections => selection.fits spread levels && fitAll spread levels selections

end

/-- Whether a fragment has at most `levels` levels of selection sets, and enters at most `entries`
fragments one inside the other, itself included. A fragment that is not defined has none. -/
def Fragments.fits (fragments : Fragments) : Nat → Nat → Name → Bool
  | 0, _, _ => false
  | entries + 1, levels, name =>
    (fragments.get? name).all fun fragment =>
      fitAll (Fragments.fits fragments entries) levels fragment.selections

/-- Whether the operations of a document and its fragments keep to the limits of nesting. -/
def Document.isWithinLimits (document : Document) : Bool :=
  let spread := document.fragments.fits fragmentLimit
  document.operations.all (fun operation =>
      fitAll spread (selectionSetLimit - 1) operation.selections)
    && document.fragments.all fun fragment => spread (selectionSetLimit - 1) fragment.name

end SelectionForest
