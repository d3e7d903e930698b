import ApiDecl.Json.Basic

/-!
# Security schemes

How a request authenticates, and the configuration that each way needs.

* `SchemeKind`, `Config`: ways to authenticate, and configurations;
* `SchemeKind.shape`: the configuration that a way needs;
* `AuthError`: why authentication cannot be set up or carried out;
* `SchemeKind.ofJson?`, `Config.ofJson?`: both read from JSON, as objects or as lists.
-/

namespace ApiDecl

/-- Where an API key travels. -/
inductive KeyLocation where
  | header
  | query
  | cookie
  deriving DecidableEq

namespace KeyLocation

/-- The name of a location. -/
def name : KeyLocation → String
  | .header => "header"
  | .query => "query"
  | .cookie => "cookie"

/-- The name of a location in a description. -/
def title : KeyLocation → String
  | .header => "Header"
  | .query => "Query"
  | .cookie => "Cookie"

/-- The location of a name. -/
def ofName? (text : String) : Option KeyLocation :=
  [header, query, cookie].find? fun location => location.name == text

/-- Reads a location: its name, or an object with this name for its only member and nothing in it. -/
def ofJson? : Json → Option KeyLocation
  | .string name => ofName? name
  | .object [(name, .null)] => ofName? name
  | .object [(name, .object [])] => ofName? name
  | _ => none

end KeyLocation

/-- A way to authenticate. -/
inductive SchemeKind where
  /-- A name and a password. -/
  | basic
  /-- A token, whose format may be told. -/
  | bearer (format : Option String)
  /-- A key under a name. -/
  | apiKey (name : String) (location : KeyLocation)
  /-- A token from OAuth. -/
  | oauth
  /-- A token from OpenID Connect. -/
  | openId (url : String)
  deriving DecidableEq

/-- The shape of a configuration. -/
inductive ConfigShape where
  | usernamePassword
  | token
  | key
  deriving DecidableEq

namespace ConfigShape

/-- The name of a shape. -/
def name : ConfigShape → String
  | .usernamePassword => "usernamePassword"
  | .token => "token"
  | .key => "key"

/-- The fields of a configuration. -/
def fields : ConfigShape → List String
  | .usernamePassword => ["username", "password"]
  | .token => ["token"]
  | .key => ["key"]

/-- The fields in words. -/
def description (shape : ConfigShape) : String :=
  String.intercalate " and " (shape.fields.map fun field => "`" ++ field ++ "`")

end ConfigShape

/-- A configuration. -/
inductive Config where
  | basic (username password : String)
  | bearer (token : String)
  | apiKey (key : String)
  deriving DecidableEq

/-- The shape of a configuration. -/
def Config.shape : Config → ConfigShape
  | .basic _ _ => .usernamePassword
  | .bearer _ => .token
  | .apiKey _ => .key

/-- The shape of the configuration that a way to authenticate needs. -/
def SchemeKind.shape : SchemeKind → ConfigShape
  | .basic => .usernamePassword
  | .bearer _ | .oauth | .openId _ => .token
  | .apiKey _ _ => .key

/-- Why authentication cannot be set up or carried out. -/
inductive AuthError where
  | missingConfig (scheme : String)
  /-- The configuration of a scheme has another shape than this one. -/
  | configMismatch (scheme : String) (expected : ConfigShape)
  | unknownScheme (scheme : String)
  /-- A provider of configurations failed, in its own words. -/
  | provider (text : String)
  deriving DecidableEq

/-- The sentence for an error. -/
def AuthError.message : AuthError → String
  | .missingConfig scheme => "no configuration provided for security scheme '" ++ scheme ++ "'"
  | .configMismatch scheme expected =>
    "configuration for security scheme '" ++ scheme ++ "' must provide " ++ expected.description
  | .unknownScheme scheme => "unknown security scheme '" ++ scheme ++ "'"
  | .provider text => "auth provider failed: " ++ text

/-! ### JSON -/

namespace SchemeKind

/-- A way to authenticate as JSON. -/
def toJson : SchemeKind → Json
  | .basic => .object [("type", .string "httpBasic")]
  | .bearer none => .object [("type", .string "httpBearer")]
  | .bearer (some format) =>
    .object [("type", .string "httpBearer"), ("bearer_format", .string format)]
  | .apiKey name location =>
    .object [("type", .string "apiKey"), ("name", .string name), ("location", .string location.name)]
  | .oauth => .object [("type", .string "oAuth2")]
  | .openId url => .object [("type", .string "openIdConnect"), ("url", .string url)]

/-- A format, which may be absent. -/
def formatOf? : Option Json → Option (Option String)
  | none | some .null => some none
  | some (.string format) => some (some format)
  | _ => none

/-- Reads a way to authenticate from its members or from a list that starts with its type. -/
def ofJson? : Json → Option SchemeKind
  | .object members =>
    match Member.lookup "type" members with
    | some (.string type) =>
      match type with
      | "httpBasic" => some .basic
      | "httpBearer" => (formatOf? (Member.lookup "bearer_format" members)).map .bearer
      | "apiKey" =>
        match Member.lookup "name" members, Member.lookup "location" members with
        | some (.string name), some location => (KeyLocation.ofJson? location).map (.apiKey name)
        | _, _ => none
      | "oAuth2" => some .oauth
      | "openIdConnect" =>
        match Member.lookup "url" members with
        | some (.string url) => some (.openId url)
        | _ => none
      | _ => none
    | _ => none
  | .array (.string type :: values) =>
    match type, values with
    | "httpBasic", [] => some .basic
    | "httpBearer", [format] => (formatOf? (some format)).map .bearer
    | "apiKey", [.string name, location] => (KeyLocation.ofJson? location).map (.apiKey name)
    | "oAuth2", [] => some .oauth
    | "openIdConnect", [.string url] => some (.openId url)
    | _, _ => none
  | _ => none

end SchemeKind

namespace Config

/-- A configuration as JSON. -/
def toJson : Config → Json
  | .basic username password =>
    .object [("username", .string username), ("password", .string password)]
  | .bearer token => .object [("token", .string token)]
  | .apiKey key => .object [("key", .string key)]

/-- The texts of fields, from an object or from a list. -/
def textsOf? (shape : ConfigShape) : Json → Option (List String)
  | .object members =>
    shape.fields.mapM fun field => (Member.lookup field members).bind Json.asString?
  | .array values => if values.length = shape.fields.length then values.mapM Json.asString? else none
  | _ => none

/-- Reads a configuration of a shape. -/
def ofJsonAs? (shape : ConfigShape) (value : Json) : Option Config :=
  match shape, textsOf? shape value with
  | .usernamePassword, some [username, password] => some (.basic username password)
  | .token, some [token] => some (.bearer token)
  | .key, some [key] => some (.apiKey key)
  | _, _ => none

/-- Reads a configuration of the first shape that fits. -/
def ofJson? (value : Json) : Option Config :=
  ofJsonAs? .usernamePassword value <|> ofJsonAs? .token value <|> ofJsonAs? .key value

/-- The shape of a configuration in one line, without its secrets. -/
def description : Config → String
  | .basic _ _ => "Basic(BasicAuthConfig \x7b .. \x7d)"
  | .bearer _ => "Bearer(BearerAuthConfig \x7b .. \x7d)"
  | .apiKey _ => "ApiKey(ApiKeyAuthConfig \x7b .. \x7d)"

end Config

end ApiDecl
