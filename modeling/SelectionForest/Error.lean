import SelectionForest.Document.Printer
import SelectionForest.Json.Printer

/-!
# Errors

Why a selection forest cannot be built. An error says what kind of input is at fault: the document,
the choice of its operation, the variables of the request, the arguments of the document, or an
inconsistency between the inputs that a valid document on a valid schema does not have. The wording
of all of them is in `Error.message`.
-/

namespace SelectionForest

/-- The place of an input value: a variable, an argument, or a field of an input object. -/
inductive Position where
  | variable (name : Name)
  | argument (name : Name)
  | inputField (type field : Name)
  deriving DecidableEq, Repr

/-- The words for a position. -/
def Position.describe : Position → String
  | .variable name => "variable " ++ name
  | .argument name => "argument " ++ name
  | .inputField type field => "input field " ++ type ++ "." ++ field

/-- Why an input value is refused. -/
inductive InputFault where
  | nullValue (position : Position)
  | nullArgument (argument : Name)
  | nullVariable (position : Position)
  | unsetVariable (position : Position)
  | missingVariable (name : Name)
  | missingArgument (argument : Name)
  | missingField (type field : Name)
  | unknownKey (key : String) (type : Name)
  | wrongValue (position : Position) (value : Json) (type : Name)
  | wrongLiteral (position : Position) (value : Value) (type : Name)
  | intOverflow (position : Position)
  | floatOverflow (position : Position)

namespace InputFault

/-- That a value is not one of its type. -/
def describeMismatch (position : Position) (value : String) (type : Name) : String :=
  "Could not coerce " ++ position.describe ++ ": " ++ value ++ " to type " ++ type

/-- The words for a fault. -/
def describe : InputFault → String
  | .nullValue position => "null value for non-null " ++ position.describe
  | .nullArgument argument => "null value for non-nullable argument " ++ argument
  | .nullVariable position => "null variable value for non-null " ++ position.describe
  | .unsetVariable position => "missing variable for non-null " ++ position.describe
  | .missingVariable name => "missing value for non-null variable '" ++ name ++ "'"
  | .missingArgument argument => "missing value for required argument " ++ argument
  | .missingField type field =>
    "Missing value for non-null input object field " ++ type ++ "." ++ field
  | .unknownKey key type => "Input object has key " ++ key ++ " not in type " ++ type
  | .wrongValue position value type => describeMismatch position value.render type
  | .wrongLiteral position value type => describeMismatch position value.renderIndented type
  | .intOverflow position => "Int value overflow in " ++ position.describe
  | .floatOverflow position => "Float value overflow in " ++ position.describe

end InputFault

/-- What does not fit together in a schema, a document and its variables. -/
inductive Inconsistency where
  | undefinedInputType (type : Name) (position : Position)
  | outputTypeAsInput (type : Name) (position : Position)
  | variableInConstant (position : Position)
  | conditionMissing (directive : Name)
  | conditionMalformed (value : Value)
  | undefinedType (type : Name)
  | notComposite (type : Name)
  | undefinedUnion (type : Name)
  | undefinedField (field type : Name)
  | undefinedFragment (fragment : Name)
  | fieldWithoutType (field : Name)

/-- The words for an inconsistency. -/
def Inconsistency.describe : Inconsistency → String
  | .undefinedInputType type position => "Undefined type " ++ type ++ " for " ++ position.describe
  | .outputTypeAsInput type position => "Non-input type " ++ type ++ " for " ++ position.describe
  | .variableInConstant position => "Variable in default value of " ++ position.describe
  | .conditionMissing directive => "missing if argument on @" ++ directive
  | .conditionMalformed value =>
    "expected boolean or variable \x60if\x60 argument, got " ++ value.renderIndented
  | .undefinedType type => "Schema has no type \"" ++ type ++ "\""
  | .notComposite type => "Type \"" ++ type ++ "\" is not a composite type"
  | .undefinedUnion type => "Schema has no union type \"" ++ type ++ "\""
  | .undefinedField field type => "Cannot find field \"" ++ field ++ "\" on type \"" ++ type ++ "\""
  | .undefinedFragment fragment => "Missing fragment named " ++ fragment
  | .fieldWithoutType field => "Normalized field \"" ++ field ++ "\" has no object type"

/-- Why a selection forest cannot be built. -/
inductive Error where
  /-- The inputs do not fit together in a way that validation would have refused. -/
  | internal (cause : Inconsistency)
  /-- The document has no such operation. -/
  | unknownOperation (name : Option String)
  /-- The variables of the request are refused. -/
  | variable (fault : InputFault)
  /-- The arguments of the document are refused. -/
  | argument (fault : InputFault)
  /-- The forest would be deeper than the limit. -/
  | depthLimit (limit : Nat)
  /-- A text is no document, or no valid one. -/
  | invalidDocument
  /-- Fragments spread each other without an end. -/
  | endless

namespace Error

/-- Whether an error is due to inputs that do not fit together. -/
def isInternal : Error → Bool
  | .internal _ => true
  | _ => false

/-- The message of an error. -/
def message : Error → String
  | .internal cause =>
    "An internal error has occurred, please report this bug to Apollo.\n\nDetails: "
      ++ cause.describe
  | .unknownOperation none => "Unknown operation named None"
  | .unknownOperation (some name) =>
    "Unknown operation named Some(" ++ Text.quotedName name ++ ")"
  | .variable fault => "Invalid variables: " ++ fault.describe
  | .argument fault => "Invalid argument value: " ++ fault.describe
  | .depthLimit limit =>
    "Selection processing recursion limit (" ++ toString limit ++ ") exceeded"
  | .invalidDocument => "Invalid GraphQL"
  | .endless => "Fragments spread each other without an end"

end Error

/-- A result, or the error that comes first. -/
abbrev Outcome (α : Type) := Except Error α

end SelectionForest
