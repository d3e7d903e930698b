import ApiDecl.Json.Basic

/-!
# Schemas

A schema describes JSON values by keywords.  Where a schema is expected, any other JSON value is kept as
it stands, so that its place can be named when it turns out to be needed.

* `Node`: a schema or another JSON value; `Schema`: the keywords of a schema, of which `Facets` hold no
  schemas and `Parts` do;
* `Facets.declaredTypes`, `Facets.isNullable`: the types asked for, and whether null is among them;
* `SchemaOf.isRequiredOnly`: nothing but names of required members.
-/

namespace ApiDecl

/-- The value of the keyword `type`. -/
inductive TypeNames where
  | one (name : String)
  | list (names : List String)
  deriving DecidableEq

/-- The member that tells the variants of a union apart. -/
structure Discriminator where
  /-- The name of the member. -/
  member : String
  /-- Which definition each value stands for. -/
  mapping : List (String × String)

/-- The keywords that hold no schemas. -/
structure Facets where
  types : Option TypeNames
  reference : Option String
  format : Option String
  required : List String
  values : Option (List Json)
  constant : Option Json
  discriminator : Option Discriminator
  nullable : Option Bool
  title : Option String
  description : Option String
  deprecated : Bool

/-- The keywords that hold schemas. -/
structure Parts (ν : Type) where
  properties : List (String × ν)
  items : Option ν
  additional : Option ν
  oneOf : Option (List ν)
  anyOf : Option (List ν)
  allOf : Option (List ν)

/-- The keywords of a schema whose parts are of some type. -/
structure SchemaOf (ν : Type) where
  facets : Facets
  parts : Parts ν

/-- What stands where a schema is expected. -/
inductive Node where
  | schema (schema : SchemaOf Node)
  /-- A value that is no schema. -/
  | other (value : Json)

/-- A schema. -/
abbrev Schema := SchemaOf Node

/-- Facets without keywords. -/
def Facets.empty : Facets :=
  ⟨none, none, none, [], none, none, none, none, none, none, false⟩

/-- The schema without keywords. -/
def Schema.empty : Schema := ⟨.empty, ⟨[], none, none, none, none, none⟩⟩

namespace Facets

/-- The types asked for other than null, in their order. -/
def declaredTypes (f : Facets) : List String :=
  match f.types with
  | none => []
  | some (.one name) => if name = "null" then [] else [name]
  | some (.list names) => names.filter (· ≠ "null")

/-- Null is allowed: by the keyword `nullable` or as one of several types. -/
def isNullable (f : Facets) : Bool :=
  f.nullable == some true ||
    match f.types with
    | some (.list names) => names.contains "null"
    | _ => false

end Facets

/-- The schema lists required members and has no other keyword that restricts values. -/
def SchemaOf.isRequiredOnly {ν : Type} (s : SchemaOf ν) : Bool :=
  !s.facets.required.isEmpty && s.facets.types.isNone && s.facets.reference.isNone
    && s.parts.properties.isEmpty && s.parts.items.isNone && s.parts.additional.isNone
    && s.facets.values.isNone && s.facets.constant.isNone && s.parts.oneOf.isNone
    && s.parts.anyOf.isNone && s.parts.allOf.isNone

namespace Node

/-- The schema that stands here. -/
def asSchema? : Node → Option Schema
  | .schema s => some s
  | .other _ => none

/-- The description of a schema, and whether it is deprecated. -/
def docs : Node → Option String × Bool
  | .schema s => (s.facets.description, s.facets.deprecated)
  | .other _ => (none, false)

end Node

end ApiDecl
