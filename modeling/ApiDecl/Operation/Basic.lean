import ApiDecl.Description.Document
import ApiDecl.Operation.Media
import ApiDecl.Operation.Path
import ApiDecl.Text.Runs
import ApiDecl.Transform.Liveness
import ApiDecl.Types.Signature

/-!
# Declared operations

An operation as a client calls it: its parameters, its body and its responses with their types, and the
programs that convert the payloads.

* `Binding`, `BodyBinding`, `ResponseBinding`, `OperationDeclaration`: the parts of an operation;
* `OperationDeclaration.success?`: the response that is taken for the result;
* `OperationDeclaration.signature`, `OperationDeclaration.toJson`: two views of it.
-/

namespace ApiDecl

/-- A parameter with its type. -/
structure Binding where
  /-- The identifier of the parameter. -/
  name : String
  wireName : String
  location : Location
  required : Bool
  ty : Ty

/-- A request body with its type. -/
structure BodyBinding where
  mediaType : String
  format : BodyFormat
  required : Bool
  ty : Ty
  links : Links

/-- What a response holds. -/
structure ResponseContent where
  mediaType : String
  format : ResponseFormat
  ty : Ty
  links : Links

/-- The response for a status. -/
structure ResponseBinding where
  /-- A status code, a range such as `2XX`, or `default`. -/
  status : String
  /-- What the response holds, unless it has no body. -/
  content : Option ResponseContent

/-- The programs of a response. -/
def ResponseBinding.links (r : ResponseBinding) : Links := (r.content.map ResponseContent.links).getD .empty

/-- An operation. -/
structure OperationDeclaration where
  name : String
  method : Method
  path : String
  parameters : List Binding
  body : Option BodyBinding
  responses : List ResponseBinding
  /-- Each requirement is an alternative. -/
  security : List Requirement
  summary : Option String
  description : Option String
  deprecated : Bool

namespace OperationDeclaration

/-- The statuses of a result, the preferred one first. -/
def successStatuses : List String := ["200", "201", "202", "203", "206", "207", "2XX", "default"]

/-- The response for a status, whose letters may be of either case. -/
def response? (o : OperationDeclaration) (status : String) : Option ResponseBinding :=
  o.responses.find? fun response => sameIgnoringCase response.status status

/-- The response that is taken for the result. -/
def success? (o : OperationDeclaration) : Option ResponseBinding := successStatuses.findSome? o.response?

/-- The parameter of a location and wire name. -/
def parameter? (o : OperationDeclaration) (location : Location) (wireName : String) : Option Binding :=
  o.parameters.find? fun p => p.location = location && p.wireName == wireName

/-- The names of the schemes that each requirement asks for. -/
def schemeNames (o : OperationDeclaration) : List (List String) :=
  o.security.map fun requirement => requirement.map Prod.fst

/-- The operation with its programs pruned. -/
def prune (o : OperationDeclaration) (live : LiveNames) : OperationDeclaration :=
  { o with
    body := o.body.map fun b => { b with links := b.links.prune live }
    responses := o.responses.map fun r =>
      { r with content := r.content.map fun c => { c with links := c.links.prune live } } }

end OperationDeclaration

/-! ### Signatures -/

/-- The signature of a parameter. -/
def Binding.signature (b : Binding) : String :=
  slotName b.name b.required ++ ": " ++ b.ty.signature ++ " in " ++ b.location.name

/-- The signature of an operation. -/
def OperationDeclaration.signature (o : OperationDeclaration) : String :=
  let body :=
    match o.body with
    | none => []
    | some b => [slotName "body" b.required ++ ": " ++ b.ty.signature]
  let result := (o.success?.bind fun r => r.content.map fun c => c.ty.signature).getD "void"
  o.name ++ "(" ++ String.intercalate ", " (o.parameters.map Binding.signature ++ body) ++ ") "
    ++ o.method.text ++ " " ++ String.join ((pathParts o.path).map PathPart.text) ++ " -> " ++ result

/-! ### JSON -/

/-- A part of a path as JSON. -/
def PathPart.toJson : PathPart → Json
  | .static value => .object [("kind", .string "static"), ("value", .string value)]
  | .param name => .object [("kind", .string "param"), ("value", .string name)]

/-- The programs of a payload, left out when there are none. -/
def linksMember (links : Links) : List (String × Json) :=
  if links.isEmpty then [] else [("transforms", links.toJson)]

/-- A parameter as JSON. -/
def Binding.toJson (b : Binding) : Json :=
  .object [("name", .string b.name), ("wireName", .string b.wireName),
    ("location", .string b.location.name), ("required", .bool b.required), ("ty", b.ty.toJson)]

/-- A request body as JSON. -/
def BodyBinding.toJson (b : BodyBinding) : Json :=
  .object ([("mediaType", .string b.mediaType), ("contentType", .string b.format.name),
    ("required", .bool b.required), ("ty", b.ty.toJson)] ++ linksMember b.links)

/-- A response as JSON. -/
def ResponseBinding.toJson (r : ResponseBinding) : Json :=
  .object (("status", .string r.status) ::
    match r.content with
    | none => []
    | some c => [("mediaType", .string c.mediaType), ("contentType", .string c.format.name),
        ("ty", c.ty.toJson)] ++ linksMember c.links)

/-- A requirement as JSON. -/
def requirementJson (requirement : Requirement) : Json :=
  .object (requirement.map fun (name, scopes) => (name, .array (scopes.map .string)))

/-- An operation as JSON. -/
def OperationDeclaration.toJson (o : OperationDeclaration) : Json :=
  .object ([("name", .string o.name), ("method", .string o.method.text), ("path", .string o.path),
      ("pathParts", .array ((pathParts o.path).map PathPart.toJson)),
      ("parameters", .array (o.parameters.map Binding.toJson))]
    ++ memberOf "body" BodyBinding.toJson o.body
    ++ [("responses", .array (o.responses.map ResponseBinding.toJson)),
      ("security", .array (o.security.map requirementJson))]
    ++ memberOf "summary" .string o.summary ++ memberOf "description" .string o.description
    ++ flagMember "deprecated" o.deprecated)

end ApiDecl
