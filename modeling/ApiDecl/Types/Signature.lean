import ApiDecl.Json.Printer
import ApiDecl.Text.Identifier
import ApiDecl.Types.Basic

/-!
# Signatures and JSON of types

Two views of a type: its signature, a compact notation on one line, and its JSON, which lists its parts.
In a signature a union, an intersection or an enumeration stands in parentheses where its bars or
ampersands would be taken for those around it.
-/

namespace ApiDecl

/-- The notation of a literal. -/
def Literal.signature : Literal → String
  | .string value => quoted value
  | .number value => value.text
  | .bool value => if value then "true" else "false"
  | .null => "null"

/-- A name, with a question mark unless it is required. -/
def slotName (name : String) (required : Bool) : String :=
  quotedUnlessIdentifier name ++ if required then "" else "?"

namespace Ty

/-- The type needs parentheses as the element of an array. -/
def looseInArray : Ty → Bool
  | .union _ _ | .intersection _ | .enumeration _ => true
  | _ => false

/-- The type needs parentheses as a member of an intersection. -/
def looseInIntersection : Ty → Bool
  | .union _ _ | .enumeration _ => true
  | _ => false

/-- A text in parentheses if need be. -/
def parenthesized (loose : Bool) (text : String) : String := if loose then "(" ++ text ++ ")" else text

mutual

/-- The signature of a type. -/
def signature : Ty → String
  | .scalar kind none => kind.name
  | .scalar kind (some format) => kind.name ++ "<" ++ format ++ ">"
  | .array element => parenthesized element.looseInArray (signature element) ++ "[]"
  | .object fields additional =>
    let rest :=
      match additional with
      | none => []
      | some ty => ["[key: string]: " ++ signature ty]
    match fieldSignatures fields ++ rest with
    | [] => "\x7b\x7d"
    | parts => "\x7b " ++ String.intercalate ", " parts ++ " \x7d"
  | .union members _ => String.intercalate " | " (memberSignatures (fun _ => false) members)
  | .enumeration values => String.intercalate " | " (values.map Literal.signature)
  | .literal value => value.signature
  | .intersection members => String.intercalate " & " (memberSignatures looseInIntersection members)
  | .reference name => name

/-- The signatures of fields. -/
def fieldSignatures : List (FieldOf Ty) → List String
  | [] => []
  | ⟨name, _, ty, required, _, _⟩ :: rest =>
    (slotName name required ++ ": " ++ signature ty) :: fieldSignatures rest

/-- The signatures of types, some in parentheses. -/
def memberSignatures (loose : Ty → Bool) : List Ty → List String
  | [] => []
  | ty :: rest => parenthesized (loose ty) (signature ty) :: memberSignatures loose rest

end

end Ty

/-- The signature of a field. -/
def FieldOf.signature (field : FieldOf Ty) : String :=
  slotName field.name field.required ++ ": " ++ field.ty.signature

/-! ### JSON -/

/-- A member that is left out without a value. -/
def memberOf {α : Type} (name : String) (write : α → Json) : Option α → List (String × Json)
  | none => []
  | some value => [(name, write value)]

/-- A member that is left out unless it is true. -/
def flagMember (name : String) (value : Bool) : List (String × Json) :=
  if value then [(name, .bool true)] else []

/-- A field as JSON, its type given so. -/
def FieldOf.toJson (field : FieldOf Json) : Json :=
  .object ([("name", .string field.name), ("wireName", .string field.wireName), ("ty", field.ty),
      ("required", .bool field.required)]
    ++ memberOf "description" .string field.description ++ flagMember "deprecated" field.deprecated)

/-- A discriminator as JSON. -/
def Discriminator.toJson (d : Discriminator) : Json :=
  .object (("propertyName", .string d.member) ::
    if d.mapping.isEmpty then []
    else [("mapping", .object (d.mapping.map fun (value, name) => (value, .string name)))])

namespace Ty

mutual

/-- A type as JSON. -/
def toJson : Ty → Json
  | .scalar kind format =>
    .object ([("kind", .string "primitive"), ("name", .string kind.name)]
      ++ memberOf "format" .string format)
  | .array element => .object [("kind", .string "array"), ("element", toJson element)]
  | .object fields additional =>
    let rest :=
      match additional with
      | none => []
      | some ty => [("additional", toJson ty)]
    .object ([("kind", .string "object"), ("fields", .array (fieldItems fields))] ++ rest)
  | .union members discriminator =>
    .object ([("kind", .string "union"), ("members", .array (memberItems members))]
      ++ memberOf "discriminator" Discriminator.toJson discriminator)
  | .enumeration values =>
    .object [("kind", .string "enumLiteral"), ("values", .array (values.map Literal.toJson))]
  | .literal value => .object [("kind", .string "literal"), ("value", value.toJson)]
  | .intersection members =>
    .object [("kind", .string "intersection"), ("members", .array (memberItems members))]
  | .reference name => .object [("kind", .string "reference"), ("name", .string name)]

/-- Fields as JSON items. -/
def fieldItems : List (FieldOf Ty) → List Json
  | [] => []
  | ⟨name, wireName, ty, required, description, deprecated⟩ :: rest =>
    FieldOf.toJson ⟨name, wireName, toJson ty, required, description, deprecated⟩ :: fieldItems rest

/-- Types as JSON items. -/
def memberItems : List Ty → List Json
  | [] => []
  | ty :: rest => toJson ty :: memberItems rest

end

end Ty

end ApiDecl
