import ApiDecl.Auth.Method
import ApiDecl.Description.Component
import ApiDecl.Types.Signature

/-!
# The security schemes of a document

A document declares security schemes; those of a sort that clients can serve make its configuration.

* `schemeKind?`: the way to authenticate that a scheme describes, if it is one of those;
* `AuthConfiguration.ofDocument`: the schemes that clients can serve, in order;
* `AuthConfiguration.configure`, `AuthConfiguration.configureAll`: methods for schemes, from configurations
  by name; the latter wants one for every scheme.
-/

namespace ApiDecl

/-- A scheme that clients can serve. -/
structure SchemeDeclaration where
  name : String
  kind : SchemeKind
  description : Option String

/-- The schemes that clients can serve. -/
abbrev AuthConfiguration := List SchemeDeclaration

/-- The way to authenticate that a scheme describes, if clients can serve it. -/
def schemeKind? (pointer : String) (s : SecurityScheme) : Except Error (Option SchemeKind) :=
  match s.type with
  | "http" =>
    match s.scheme.map fun name => String.ofList (lowerAscii name.toList) with
    | some "basic" => .ok (some .basic)
    | some "bearer" => .ok (some (.bearer s.bearerFormat))
    | _ => .ok none
  | "apiKey" =>
    match s.name with
    | none => .error (.invalid pointer .keyWithoutName)
    | some name =>
      match s.location.bind KeyLocation.ofName? with
      | some location => .ok (some (.apiKey name location))
      | none => .error (.invalid pointer (.keyLocation s.location))
  | "oauth2" => .ok (some .oauth)
  | "openIdConnect" => .ok (some (.openId (s.connectUrl.getD "")))
  | _ => .ok none

namespace AuthConfiguration

/-- Schemes of components, each with its name. -/
def ofSchemes (c : Components) :
    List (String × RefOr SecurityScheme) → Except Error AuthConfiguration
  | [] => .ok []
  | (name, entry) :: rest => do
    let pointer := Pool.scheme.pointer name
    let (scheme, _) ← entry.follow .scheme c.schemes pointer
    match ← schemeKind? pointer scheme with
    | none => ofSchemes c rest
    | some kind => do
      let declarations ← ofSchemes c rest
      .ok (⟨name, kind, scheme.description⟩ :: declarations)

/-- The schemes of a document. -/
def ofDocument (d : Document) : Except Error AuthConfiguration :=
  ofSchemes d.components d.components.schemes

/-- The scheme of a name. -/
def scheme? (c : AuthConfiguration) (name : String) : Option SchemeDeclaration :=
  c.find? fun scheme => scheme.name == name

/-- The names of the schemes. -/
def names (c : AuthConfiguration) : List String := c.map SchemeDeclaration.name

variable {σ : Type}

/-- Puts the method of each configured scheme among methods; every name must be that of a scheme. -/
def configureInto (c : AuthConfiguration) (methods : AuthMethods σ) :
    List (String × Config) → Except AuthError (AuthMethods σ)
  | [] => .ok methods
  | (name, config) :: rest => do
    match c.scheme? name with
    | none => .error (.unknownScheme name)
    | some scheme => do
      let method ← scheme.kind.authenticateWith name config
      configureInto c (Member.put name method methods) rest

/-- The methods of the schemes configured. -/
def configure (c : AuthConfiguration) (configs : List (String × Config)) :
    Except AuthError (AuthMethods σ) :=
  c.configureInto [] configs

/-- The methods of all schemes; configurations of other names do not count. -/
def configureAll (c : AuthConfiguration) (configs : List (String × Config)) :
    Except AuthError (AuthMethods σ) :=
  match c.find? fun scheme => !Member.has scheme.name configs with
  | some scheme => .error (.missingConfig scheme.name)
  | none => c.configure (configs.filter fun entry => (c.scheme? entry.1).isSome)

end AuthConfiguration

/-- A scheme as JSON. -/
def SchemeDeclaration.toJson (s : SchemeDeclaration) : Json :=
  .object ([("name", .string s.name), ("kind", s.kind.toJson), ("configShape", .string s.kind.shape.name)]
    ++ memberOf "description" .string s.description)

end ApiDecl
