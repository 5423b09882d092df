import SelectionForest.Error

/-!
# Options

How forests are built: how deep they may be, and whether they record where the values of arguments
come from. Options are read from a JSON object with only the two keys `recursion_limit` and
`normalized_arguments`, or from an array of their values in this order; what is not given takes its
default (`Options.ofJson?`).
-/

namespace SelectionForest

/-- How forests are built. -/
structure Options where
  /-- The greatest depth of a forest, if it is limited. -/
  depthLimit : Option Nat := none
  /-- Whether to record where the values of arguments come from, where that is known. -/
  tracesArguments : Bool := true
  deriving DecidableEq, Repr

namespace Options

/-- The key of the greatest depth. -/
def limitKey : String := "recursion_limit"

/-- The key of whether arguments are traced. -/
def tracesKey : String := "normalized_arguments"

/-- The limit that a value writes: none, or a number of 64 bits. -/
def limit? : Json → Option (Option Nat)
  | .null => some none
  | .number (.int n) => if 0 ≤ n then some (some n.toNat) else none
  | _ => none

/-- The options that two values write, where they are given. -/
def ofValues? (limit traces : Option Json) : Option Options := do
  let limit ← match limit with
    | some value => limit? value
    | none => some none
  let traces ← match traces with
    | some value => value.asBool?
    | none => some true
  some ⟨limit, traces⟩

/-- The options that a value writes. -/
def ofJson? : Json → Option Options
  | .object members =>
    if members.all fun (key, _) => key == limitKey || key == tracesKey then
      ofValues? (OrderedMap.get? members limitKey) (OrderedMap.get? members tracesKey)
    else none
  | .array [] => some {}
  | .array [limit] => ofValues? (some limit) none
  | .array [limit, traces] => ofValues? (some limit) (some traces)
  | _ => none

/-- Refuses a depth beyond the limit. -/
def allowDepth (options : Options) (depth : Nat) : Outcome Unit :=
  match options.depthLimit with
  | some limit => if limit < depth then .error (.depthLimit limit) else .ok ()
  | none => .ok ()

end Options

end SelectionForest
