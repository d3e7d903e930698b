import ApiDecl.Description.Document
import ApiDecl.Number.Shortest
import ApiDecl.Text.Shown

/-!
# Errors

Why an API description cannot be compiled.  Every error ends the compilation; `Error.message` words it.

* `Misfit`: how a well-formed JSON value fails to be a description;
* `Flaw`: what is wrong with a schema or with a definition that a reference leads to;
* `Error`: all causes.
-/

namespace ApiDecl

/-- How a value fails to be what is wanted. -/
inductive Misfit where
  /-- The value has another type. -/
  | type (found : Json) (wanted : String)
  /-- A member is missing. -/
  | missing (name : String)
  /-- A list has another length than wanted. -/
  | length (found : Nat) (wanted : String)
  /-- The value is neither a reference nor a definition. -/
  | neither

namespace Misfit

/-- A value as an error shows it. -/
def shown : Json → String
  | .null => "null"
  | .bool value => "boolean `" ++ (if value then "true" else "false") ++ "`"
  | .number (.int value) => "integer `" ++ toString value ++ "`"
  | .number (.real value) => "floating point `" ++ value.text ++ "`"
  | .string value => "string " ++ quoteShown value
  | .array _ => "sequence"
  | .object _ => "map"

/-- The sentence for a misfit. -/
def text : Misfit → String
  | .type found wanted => "invalid type: " ++ shown found ++ ", expected " ++ wanted
  | .missing name => "missing field `" ++ name ++ "`"
  | .length found wanted => "invalid length " ++ toString found ++ ", expected " ++ wanted
  | .neither => "data did not match any variant of untagged enum RefOr"

end Misfit

/-- What is wrong at a place of a description. -/
inductive Flaw where
  /-- An object is no schema. -/
  | malformed
  /-- A value of this type stands where a schema is expected. -/
  | notSchema (typeName : String)
  | noTypes
  | unknownType (name : String)
  /-- A composition keyword has no members. -/
  | noMembers (keyword : String)
  | noValues
  /-- A reference to a definition of this kind leads to another reference. -/
  | chained (definition : String)
  /-- A referenced type has no declaration. -/
  | neverCompiled (name : String)
  | keyWithoutName
  /-- An API key has a location that is none. -/
  | keyLocation (location : Option String)
  deriving DecidableEq

/-- The sentence for a flaw. -/
def Flaw.text : Flaw → String
  | .malformed => "malformed schema object"
  | .notSchema typeName => "expected a schema object, found " ++ typeName
  | .noTypes => "empty type list"
  | .unknownType name => "unknown type `" ++ name ++ "`"
  | .noMembers keyword => keyword ++ " has no members"
  | .noValues => "enum has no values"
  | .chained definition => definition ++ " reference points at another reference"
  | .neverCompiled name => "reference to `" ++ name ++ "` was never compiled"
  | .keyWithoutName => "apiKey scheme has no `name`"
  | .keyLocation location =>
    "apiKey scheme has unsupported location " ++
      match location with
      | none => "None"
      | some name => "Some(" ++ quoteShown name ++ ")"

/-- Why a description cannot be compiled. -/
inductive Error where
  /-- A pointer that leads to no definition of the kind wanted. -/
  | unresolved (pointer : String)
  | invalid (pointer : String) (flaw : Flaw)
  /-- The version of the format is absent or not supported. -/
  | version (found : Option String)
  | duplicateOperation (name : String)
  | duplicateParameter (location : Location) (name : String)
  /-- The text is not JSON or not YAML. -/
  | text
  /-- The text is well formed but does not describe an API. -/
  | misfit (cause : Misfit)
  /-- The options cannot be read. -/
  | options

namespace Error

/-- The sentence for an error. -/
def message : Error → String
  | .unresolved pointer => "unresolved reference '" ++ pointer ++ "'"
  | .invalid pointer flaw => "invalid schema at '" ++ pointer ++ "': " ++ flaw.text
  | .version found => "unsupported spec version: " ++ found.getD "<missing>"
  | .duplicateOperation name => "duplicate operation id '" ++ name ++ "'"
  | .duplicateParameter location name =>
    "duplicate " ++ location.name ++ " parameter '" ++ name ++ "'"
  | .text => "failed to parse API description: malformed text"
  | .misfit cause => "failed to parse API description: " ++ cause.text
  | .options => "invalid configuration"

end Error

end ApiDecl
