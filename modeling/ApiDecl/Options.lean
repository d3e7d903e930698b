import ApiDecl.Json.Basic
import ApiDecl.Text.Camel
import ApiDecl.Text.Identifier

/-!
# Options

What a compilation may be asked for.

* `Casing.apply`: the identifier of a wire name;
* `CasedOptions`: options with the camel case that they are carried out with, which may be any function on
  texts; `Options.cased` takes `lowerCamel`;
* `Options.toJson`, `Options.ofJson?`: options as JSON, where members that are absent have their defaults;
  a list gives the options in order.
-/

namespace ApiDecl

/-- How identifiers are made of wire names. -/
inductive Casing where
  /-- Words joined in camel case. -/
  | camel
  /-- The wire name itself, as far as it is an identifier. -/
  | preserve
  deriving DecidableEq

namespace Casing

/-- The identifier of a wire name. -/
def apply (camelCase : String → String) : Casing → String → String
  | .camel, name => camelIdentifier camelCase name
  | .preserve, name => sanitize name

/-- The name of a casing. -/
def name : Casing → String
  | .camel => "camel"
  | .preserve => "preserve"

/-- The casing of a name. -/
def ofName? (text : String) : Option Casing :=
  [camel, preserve].find? fun casing => casing.name == text

end Casing

/-- The options of a compilation. -/
structure Options where
  /-- Operations and security are left out. -/
  onlyTypes : Bool
  /-- Enumerations are declared as such. -/
  generateEnums : Bool
  /-- How fields and parameters are named. -/
  casing : Casing
  /-- Descriptions and deprecations of types and fields are kept. -/
  includeDocs : Bool
  deriving DecidableEq

namespace Options

/-- The options that hold unless others are asked for. -/
def default : Options := ⟨false, false, .camel, false⟩

/-- Options as JSON. -/
def toJson (o : Options) : Json :=
  .object [("only-types", .bool o.onlyTypes), ("generate-enums", .bool o.generateEnums),
    ("field-casing", .string o.casing.name), ("include-docs", .bool o.includeDocs)]

/-- Reads a casing: its name, or an object with this name for its only member and nothing in it. -/
def casingOf? (isNothing : Json → Bool) : Json → Option Casing
  | .string name => Casing.ofName? name
  | .object [(name, value)] => if isNothing value then Casing.ofName? name else none
  | _ => none

/-- Reads a truth value. -/
def boolOf? : Json → Option Bool
  | .bool value => some value
  | _ => none

/-- Sets an option; an unknown one does not count. -/
def set? (isNothing : Json → Bool) (o : Options) (name : String) (value : Json) : Option Options :=
  match name with
  | "only-types" => (boolOf? value).map fun onlyTypes => { o with onlyTypes }
  | "generate-enums" => (boolOf? value).map fun generateEnums => { o with generateEnums }
  | "field-casing" => (casingOf? isNothing value).map fun casing => { o with casing }
  | "include-docs" => (boolOf? value).map fun includeDocs => { o with includeDocs }
  | _ => some o

/-- The names of the options in their order. -/
def names : List String := ["only-types", "generate-enums", "field-casing", "include-docs"]

/-- Reads options by name. -/
def ofMembers? (isNothing : Json → Bool) (members : List (String × Json)) : Option Options :=
  members.foldlM (fun o (name, value) => o.set? isNothing name value) default

/-- Reads options. -/
def ofJson? : Json → Option Options
  | .object members => ofMembers? Json.isNull members
  | .array values =>
    if names.length < values.length then none else ofMembers? Json.isNull (names.zip values)
  | _ => none

end Options

/-! ### Carrying options out -/

/-- Options with a camel case. -/
structure CasedOptions extends Options where
  /-- A text in camel case. -/
  camelCase : String → String

/-- The identifier of a wire name. -/
def CasedOptions.identifier (o : CasedOptions) : String → String := o.casing.apply o.camelCase

/-- Options carried out with `lowerCamel`. -/
def Options.cased (o : Options) : CasedOptions := ⟨o, lowerCamel⟩

/-- The options that hold unless others are asked for, carried out with `lowerCamel`. -/
def CasedOptions.default : CasedOptions := Options.default.cased

end ApiDecl
