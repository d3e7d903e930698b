import ApiDecl.Description.Schema

/-!
# Types

The types of payloads, free of any target language.  A named type is referred to by its name and never
unfolded, so that cyclic schemas have finite types.

* `Literal`, `FieldOf`, `Ty`: literals, fields of objects, and types;
* `Ty.nullable`: a type or null;
* `Literal.isOf`: a literal is a value of a scalar type.
-/

namespace ApiDecl

/-- The scalar types, with the type of all values among them. -/
inductive Scalar where
  | string
  | number
  | integer
  | boolean
  | null
  /-- No restriction at all. -/
  | any
  deriving DecidableEq

namespace Scalar

/-- The name of a scalar type. -/
def name : Scalar → String
  | .string => "string"
  | .number => "number"
  | .integer => "integer"
  | .boolean => "boolean"
  | .null => "null"
  | .any => "any"

/-- The scalar type that the keyword `type` names. -/
def ofTypeName? (name : String) : Option Scalar :=
  [string, number, integer, boolean, null].find? fun scalar => scalar.name == name

end Scalar

/-- A scalar JSON value. -/
inductive Literal where
  | string (value : String)
  | number (value : Number)
  | bool (value : Bool)
  | null
  deriving DecidableEq

namespace Literal

/-- The literal of a scalar value. -/
def ofJson? : Json → Option Literal
  | .string value => some (.string value)
  | .number value => some (.number value)
  | .bool value => some (.bool value)
  | .null => some .null
  | .array _ | .object _ => none

/-- The value of a literal. -/
def toJson : Literal → Json
  | .string value => .string value
  | .number value => .number value
  | .bool value => .bool value
  | .null => .null

/-- Two literals with one value. -/
def same : Literal → Literal → Bool
  | .number a, .number b => a.sameNumber b
  | a, b => decide (a = b)

/-- The literal is a value of a declared scalar type; an integer is also a number. -/
def isOf : Literal → Scalar → Bool
  | .string _, .string => true
  | .number (.int _), .integer => true
  | .number _, .number => true
  | .bool _, .boolean => true
  | _, _ => false

end Literal

/-- A field of an object. -/
structure FieldOf (τ : Type) where
  /-- The identifier of the field. -/
  name : String
  /-- The member name in payloads. -/
  wireName : String
  ty : τ
  required : Bool
  description : Option String
  deprecated : Bool

/-- A type. -/
inductive Ty where
  | scalar (scalar : Scalar) (format : Option String)
  | array (element : Ty)
  /-- An object with fields, and the type of any further members. -/
  | object (fields : List (FieldOf Ty)) (additional : Option Ty)
  | union (members : List Ty) (discriminator : Option Discriminator)
  /-- One of several literals of one scalar type. -/
  | enumeration (values : List Literal)
  | literal (value : Literal)
  | intersection (members : List Ty)
  /-- The type of a name. -/
  | reference (name : String)

namespace Ty

/-- The type of all values. -/
def any : Ty := .scalar .any none

/-- The type of null. -/
def null : Ty := .scalar .null none

/-- A union without a discriminator. -/
def unionOf (members : List Ty) : Ty := .union members none

/-- The type is that of null. -/
def isNull : Ty → Bool
  | .scalar .null _ => true
  | _ => false

/-- The fields and the type of further members of an object. -/
def asObject? : Ty → Option (List (FieldOf Ty) × Option Ty)
  | .object fields additional => some (fields, additional)
  | _ => none

/-- The type, or null: a union takes null as one more member unless it has it. -/
def nullable : Ty → Ty
  | .scalar .null format => .scalar .null format
  | .union members discriminator =>
    .union (if members.any isNull then members else members ++ [null]) discriminator
  | ty => unionOf [ty, null]

end Ty

end ApiDecl
