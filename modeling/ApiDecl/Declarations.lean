import ApiDecl.Auth.Configuration
import ApiDecl.Description.Reading
import ApiDecl.Operation.OfDocument
import ApiDecl.Types.Closure

/-!
# Declarations

What a client needs of an API description: its types, its operations, its security schemes and the
programs that convert payloads.

* `Document.compile`: the declarations of a document, or the first error;
* `Declarations.toJson`, `Declarations.text`: declarations as JSON and as its indented text.
-/

namespace ApiDecl

/-- The declaration of a type. -/
structure TypeDeclaration where
  named : NamedType
  /-- The type is declared as an enumeration, and not as an alias. -/
  asEnum : Bool

/-- What a client needs to address the API. -/
structure Context where
  /-- The first address, if any. -/
  serverUrl : Option String
  /-- The names of the schemes that may be configured. -/
  authMethods : List String

/-- The declarations of an API. -/
structure Declarations where
  title : String
  version : String
  types : List TypeDeclaration
  operations : List OperationDeclaration
  auth : AuthConfiguration
  context : Context
  table : Table

/-- The type is an enumeration. -/
def Ty.isEnumeration : Ty → Bool
  | .enumeration _ => true
  | _ => false

/-- The operations and the security schemes, unless only types are wanted. -/
def compileOperations (scope : Scope) (d : Document) (p : Progress) :
    Progress × Except Error (List OperationDeclaration × AuthConfiguration) :=
  if scope.options.onlyTypes then (p, .ok ([], []))
  else
    match p.draft scope (draftOperations scope d) with
    | (p, .error error) => (p, .error error)
    | (p, .ok operations) => (p, (AuthConfiguration.ofDocument d).map fun auth => (operations, auth))

/-- The declarations of a document: schemas first, then operations and security schemes. -/
def Document.compile (d : Document) (options : CasedOptions) : Except Error Declarations := do
  checkVersion d.format
  let scope := Scope.ofDocument d options
  let (p, result) := Progress.start.components scope
  result
  let (p, result) := compileOperations scope d p
  let (operations, auth) ← result
  let compiled ← p.finish scope
  .ok {
    title := d.info.title
    version := d.info.version
    types := compiled.types.map fun named =>
      ⟨named, options.generateEnums && named.ty.isEnumeration⟩
    operations := operations.map fun o => o.prune compiled.live
    auth := auth
    context := ⟨d.servers.head?.map Server.url, auth.names⟩
    table := compiled.table }

namespace Declarations

/-- The declaration of a type. -/
def type? (l : Declarations) (name : String) : Option TypeDeclaration :=
  l.types.find? fun t => t.named.name == name

/-- The declaration of an operation. -/
def operation? (l : Declarations) (name : String) : Option OperationDeclaration :=
  l.operations.find? fun o => o.name == name

end Declarations

/-! ### JSON -/

/-- The declaration of a type as JSON. -/
def TypeDeclaration.toJson (t : TypeDeclaration) : Json :=
  .object ([("name", .string t.named.name), ("wireName", .string t.named.wireName),
      ("kind", .string (if t.asEnum then "enum" else "alias")), ("ty", t.named.ty.toJson)]
    ++ memberOf "description" .string t.named.description ++ flagMember "deprecated" t.named.deprecated)

/-- Declarations as JSON. -/
def Declarations.toJson (l : Declarations) : Json :=
  .object [("title", .string l.title), ("version", .string l.version),
    ("types", .array (l.types.map TypeDeclaration.toJson)),
    ("operations", .array (l.operations.map OperationDeclaration.toJson)),
    ("auth", .array (l.auth.map SchemeDeclaration.toJson)),
    ("context", .object [("serverUrl", Json.ofOption .string l.context.serverUrl),
      ("authMethods", .array (l.context.authMethods.map .string))]),
    ("transforms", l.table.toJson)]

/-- The text of declarations. -/
def Declarations.text (l : Declarations) : String := l.toJson.pretty ++ "\n"

end ApiDecl
