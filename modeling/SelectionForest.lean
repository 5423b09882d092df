import SelectionForest.Document.Resolution
import SelectionForest.Forest.OfOperation
import SelectionForest.Forest.Printer
import SelectionForest.Json.Reader
import SelectionForest.Proofs.Grouping
import SelectionForest.Proofs.Likeness
import SelectionForest.Proofs.Arguments
import SelectionForest.Proofs.Narrowing
import SelectionForest.Proofs.TypeConditions
import SelectionForest.Proofs.Conditions
import SelectionForest.Proofs.Walk.Occurrences
import SelectionForest.Proofs.Walk.Reach
import SelectionForest.Proofs.Walk.Fields
import SelectionForest.Proofs.Level.Classes
import SelectionForest.Proofs.Level.Merging
import SelectionForest.Proofs.Forest.Growth
import SelectionForest.Proofs.Forest.Building
import SelectionForest.Proofs.Forest.Definitions
import SelectionForest.Proofs.Forest.Traversal
import SelectionForest.Proofs.Forest.WellFormed
import SelectionForest.Proofs.Forest.Indexes
import SelectionForest.Proofs.Forest.Siblings
import SelectionForest.Proofs.Forest.Levels
import SelectionForest.Proofs.Forest.Runs
import SelectionForest.Proofs.Typing
import SelectionForest.Proofs.Refinement
import SelectionForest.Proofs.Forest.Coverage
import SelectionForest.Proofs.Forest.ReturnTypes
import SelectionForest.Proofs.Forest.Covariance
import SelectionForest.Proofs.Forest.ArgumentValues
import SelectionForest.Proofs.Forest.ResponseKeys
import SelectionForest.Proofs.Padding
import SelectionForest.Proofs.Walk.Steps
import SelectionForest.Proofs.Level.Relating
import SelectionForest.Proofs.Level.Mirroring
import SelectionForest.Proofs.Walk.Nesting
import SelectionForest.Proofs.Forest.Bounds
import SelectionForest.Proofs.Forest.Relating
import SelectionForest.Proofs.Forest.Mirroring
import SelectionForest.Proofs.Rewriting.Inlining
import SelectionForest.Proofs.Rewriting.Settling
import SelectionForest.Proofs.Rewriting.Copies
import SelectionForest.Proofs.Level.Dividing
import SelectionForest.Proofs.Rewriting.Splitting
import SelectionForest.Proofs.Reordering
import SelectionForest.Proofs.Forest.Correspondence
import SelectionForest.Proofs.Rewriting.Shuffling
import SelectionForest.Proofs.Walk.Readings
import SelectionForest.Proofs.Forest.Values
import SelectionForest.Proofs.Forest.Tracing
import SelectionForest.Proofs.Forest.Influence
import SelectionForest.Proofs.Forest.Limits
import SelectionForest.Proofs.Input.Erasure
import SelectionForest.Proofs.Input.Literals
import SelectionForest.Proofs.Input.Placement
import SelectionForest.Proofs.Consistency
import SelectionForest.Proofs.Walk.Soundness
import SelectionForest.Proofs.Forest.Soundness
import SelectionForest.Proofs.Input.Faults
import SelectionForest.Proofs.Walk.Termination
import SelectionForest.Proofs.Forest.Depth
import SelectionForest.Proofs.Forest.Termination
import SelectionForest.Proofs.Forest.Counting
import SelectionForest.Proofs.Forest.Ownership
import SelectionForest.Proofs.Input.Coercible
import SelectionForest.Proofs.Input.Coercion
import SelectionForest.Proofs.Input.Idempotence
import SelectionForest.Proofs.Input.Objects
import SelectionForest.Proofs.Input.SpelledOut
import SelectionForest.Proofs.Input.Defaults
import SelectionForest.Proofs.Input.Shape
import SelectionForest.Proofs.Input.Substitution
import SelectionForest.Proofs.Input.LikeArguments
import SelectionForest.Proofs.Rearrangement
import SelectionForest.Proofs.Forest.Printing
import SelectionForest.Proofs.Forest.Pruning
