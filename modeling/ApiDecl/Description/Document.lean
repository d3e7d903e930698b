import ApiDecl.Description.Schema

/-!
# Descriptions of an API

A `Document` describes an API: its paths with their operations, and components that are defined once and
referred to by pointers.  All lists keep the order of the description.
-/

namespace ApiDecl

/-- A reference to a component, or a definition in place. -/
inductive RefOr (α : Type) where
  | reference (pointer : String)
  | inline (value : α)

/-- The title, version and description of an API. -/
structure Info where
  title : String
  version : String
  description : Option String

/-- An address of an API. -/
structure Server where
  url : String
  description : Option String

/-- The names of the security schemes that are needed together, with their scopes. -/
abbrev Requirement := List (String × List String)

/-- A method of HTTP. -/
inductive Method where
  | get
  | put
  | post
  | delete
  | options
  | head
  | patch
  | trace
  deriving DecidableEq

namespace Method

/-- Every method, in the order in which operations are taken. -/
def all : List Method := [.get, .put, .post, .delete, .options, .head, .patch, .trace]

/-- The method as a member name. -/
def key : Method → String
  | .get => "get"
  | .put => "put"
  | .post => "post"
  | .delete => "delete"
  | .options => "options"
  | .head => "head"
  | .patch => "patch"
  | .trace => "trace"

/-- The method as a request line has it. -/
def text : Method → String
  | .get => "GET"
  | .put => "PUT"
  | .post => "POST"
  | .delete => "DELETE"
  | .options => "OPTIONS"
  | .head => "HEAD"
  | .patch => "PATCH"
  | .trace => "TRACE"

/-- The method of a member name. -/
def ofKey? (key : String) : Option Method := all.find? fun method => method.key == key

end Method

/-- Where a parameter travels. -/
inductive Location where
  | path
  | query
  | header
  | cookie
  deriving DecidableEq

namespace Location

/-- The name of a location. -/
def name : Location → String
  | .path => "path"
  | .query => "query"
  | .header => "header"
  | .cookie => "cookie"

/-- The location of a name. -/
def ofName? (text : String) : Option Location :=
  [path, query, header, cookie].find? fun location => location.name == text

end Location

/-- A parameter of an operation. -/
structure Parameter where
  name : String
  location : Location
  required : Bool
  schema : Option Node
  description : Option String
  deprecated : Bool

/-- The content of a media type. -/
structure MediaType where
  schema : Option Node

/-- The body of a request. -/
structure RequestBody where
  required : Bool
  description : Option String
  content : List (String × MediaType)

/-- A response. -/
structure Response where
  description : Option String
  content : List (String × MediaType)

/-- A way to authenticate, as described. -/
structure SecurityScheme where
  type : String
  /-- The name of an HTTP scheme. -/
  scheme : Option String
  bearerFormat : Option String
  /-- The name of a key's header, query parameter or cookie. -/
  name : Option String
  location : Option String
  connectUrl : Option String
  description : Option String

/-- An operation. -/
structure Operation where
  id : Option String
  summary : Option String
  description : Option String
  deprecated : Bool
  tags : List String
  parameters : List (RefOr Parameter)
  body : Option (RefOr RequestBody)
  responses : List (String × RefOr Response)
  security : Option (List Requirement)

/-- The operations of a path, in the order of `Method.all`, and the parameters that they share. -/
structure PathItem where
  operations : List (Method × Operation)
  parameters : List (RefOr Parameter)

/-- The definitions that may be referred to. -/
structure Components where
  schemas : List (String × Node)
  parameters : List (String × RefOr Parameter)
  responses : List (String × RefOr Response)
  bodies : List (String × RefOr RequestBody)
  schemes : List (String × RefOr SecurityScheme)

/-- The description of an API. -/
structure Document where
  /-- The version of the format. -/
  format : Option String
  info : Info
  servers : List Server
  paths : List (String × PathItem)
  components : Components
  security : Option (List Requirement)

end ApiDecl
