import ApiDecl.Error
import ApiDecl.Json.Printer

/-!
# Reading descriptions

A JSON value is read as a description.  A structure is given by its members, in any order, or by a list of
its fields in the order fixed here.  Members are read as they come and the first that does not fit decides;
unknown members do not count.

* `readStructure`: a structure in either form;
* `Node.ofJson`: whatever stands where a schema is expected, which never fails;
* `readRefOr`: a reference if the value can be one, else a definition;
* `Document.ofJson`: a whole description, after its version has been checked.
-/

namespace ApiDecl

/-- A reader of JSON values. -/
abbrev Reader (α : Type) := Json → Except Misfit α

/-! ### Values -/

/-- A string. -/
def readText : Reader String
  | .string text => .ok text
  | value => .error (.type value "a string")

/-- A truth value. -/
def readBool : Reader Bool
  | .bool value => .ok value
  | value => .error (.type value "a boolean")

/-- A value that may be null. -/
def readOptional {α : Type} (read : Reader α) : Reader (Option α)
  | .null => .ok none
  | value => (read value).map some

/-- A list. -/
def readList {α : Type} (read : Reader α) : Reader (List α)
  | .array values => values.mapM read
  | value => .error (.type value "a sequence")

/-- Named values. -/
def readMap {α : Type} (read : Reader α) : Reader (List (String × α))
  | .object members => members.mapM fun (name, value) => do return (name, ← read value)
  | value => .error (.type value "a map")

/-! ### Structures -/

/-- When a field may be left out. -/
inductive Presence where
  /-- Never. -/
  | required
  /-- As a member. -/
  | optional
  /-- As a member, and at the end of a list. -/
  | defaulted
  deriving DecidableEq

/-- A field of a structure. -/
structure Field where
  name : String
  presence : Presence

/-- The first required field without a member. -/
def missingMember (fields : List Field) (members : List (String × Json)) : Option String :=
  (fields.find? fun field => field.presence = .required && !Member.has field.name members).map
    Field.name

/-- What is wrong with the length of a list of fields. -/
def misfitLength (kind : String) (fields : List Field) (length : Nat) : Option Misfit :=
  match (fields.drop length).findIdx? fun field => field.presence ≠ .defaulted with
  | some index =>
    let count := fields.length
    some (.length (length + index)
      ("struct " ++ kind ++ " with " ++ toString count ++ if count = 1 then " element" else " elements"))
  | none =>
    if fields.length < length then some (.length length "fewer elements in array") else none

/-- Reads a structure from its members or from a list of its fields, setting one field after the other. -/
def readStructure {ρ : Type} (kind : String) (fields : List Field) (start : ρ)
    (set : ρ → String → Json → Except Misfit ρ) : Reader ρ
  | .object members => do
    let result ← members.foldlM (fun result (name, value) => set result name value) start
    match missingMember fields members with
    | some name => .error (.missing name)
    | none => .ok result
  | .array values => do
    let result ← (fields.zip values).foldlM (fun result (field, value) => set result field.name value)
      start
    match misfitLength kind fields values.length with
    | some misfit => .error misfit
    | none => .ok result
  | value => .error (.type value ("struct " ++ kind))

/-! ### Schemas -/

/-- The keyword `type`. -/
def readTypes : Reader TypeNames
  | .string name => .ok (.one name)
  | value => (readList readText value).map .list

/-- The keyword `discriminator`. -/
def readDiscriminator : Reader Discriminator :=
  readStructure "Discriminator" [⟨"propertyName", .required⟩, ⟨"mapping", .defaulted⟩] ⟨"", []⟩
    fun d name value =>
      match name with
      | "propertyName" => do return { d with member := ← readText value }
      | "mapping" => do return { d with mapping := ← readMap readText value }
      | _ => .ok d

/-- The keywords of a schema in the order of their list form. -/
def schemaFields : List Field := [
  ⟨"type", .optional⟩, ⟨"$ref", .optional⟩, ⟨"format", .optional⟩, ⟨"properties", .defaulted⟩,
  ⟨"required", .defaulted⟩, ⟨"items", .optional⟩, ⟨"additionalProperties", .optional⟩,
  ⟨"enum", .optional⟩, ⟨"const", .optional⟩, ⟨"oneOf", .optional⟩, ⟨"anyOf", .optional⟩,
  ⟨"allOf", .optional⟩, ⟨"discriminator", .optional⟩, ⟨"nullable", .optional⟩, ⟨"title", .optional⟩,
  ⟨"description", .optional⟩, ⟨"deprecated", .defaulted⟩]

/-- Sets a keyword that holds no schemas. -/
def Facets.set (f : Facets) (name : String) (value : Json) : Except Misfit Facets :=
  match name with
  | "type" => do return { f with types := ← readOptional readTypes value }
  | "$ref" => do return { f with reference := ← readOptional readText value }
  | "format" => do return { f with format := ← readOptional readText value }
  | "required" => do return { f with required := ← readList readText value }
  | "enum" => do return { f with values := ← readOptional (readList .ok) value }
  | "const" => do return { f with constant := ← readOptional .ok value }
  | "discriminator" => do return { f with discriminator := ← readOptional readDiscriminator value }
  | "nullable" => do return { f with nullable := ← readOptional readBool value }
  | "title" => do return { f with title := ← readOptional readText value }
  | "description" => do return { f with description := ← readOptional readText value }
  | "deprecated" => do return { f with deprecated := ← readBool value }
  | _ => .ok f

/-- Sets one keyword.  What its value is as a schema, as a list of schemas or as named schemas is only
asked for where the keyword holds such. -/
def Schema.set (s : Schema) (name : String) (value : Json) (node : Unit → Option Node)
    (nodes : Unit → Option (Option (List Node))) (named : Unit → Option (List (String × Node))) :
    Option Schema :=
  match name with
  | "properties" => (named ()).map fun properties => { s with parts.properties := properties }
  | "items" => some { s with parts.items := node () }
  | "additionalProperties" => some { s with parts.additional := node () }
  | "oneOf" => (nodes ()).map fun oneOf => { s with parts.oneOf := oneOf }
  | "anyOf" => (nodes ()).map fun anyOf => { s with parts.anyOf := anyOf }
  | "allOf" => (nodes ()).map fun allOf => { s with parts.allOf := allOf }
  | _ => (s.facets.set name value).toOption.map fun facets => { s with facets }

mutual

/-- What stands where a schema is expected: a schema if the value fits, else the value itself. -/
def Node.ofJson : Json → Node
  | .object members =>
    match setMembers .empty members with
    | some s => .schema s
    | none => .other (.object members)
  | .array values =>
    match misfitLength "Schema" schemaFields values.length,
      setItems .empty (schemaFields.map Field.name) values with
    | none, some s => .schema s
    | _, _ => .other (.array values)
  | value => .other value

/-- Sets the keywords of members. -/
def setMembers (s : Schema) : List (String × Json) → Option Schema
  | [] => some s
  | (name, value) :: rest =>
    match s.set name value (fun _ => if value.isNull then none else some (Node.ofJson value))
      (fun _ => nodesOf? value) (fun _ => namedOf? value) with
    | some s => setMembers s rest
    | none => none

/-- Sets keywords to the values of a list. -/
def setItems (s : Schema) : List String → List Json → Option Schema
  | name :: names, value :: rest =>
    match s.set name value (fun _ => if value.isNull then none else some (Node.ofJson value))
      (fun _ => nodesOf? value) (fun _ => namedOf? value) with
    | some s => setItems s names rest
    | none => none
  | _, _ => some s

/-- The schemas of a list, if there is one. -/
def nodesOf? : Json → Option (Option (List Node))
  | .null => some none
  | .array values => some (some (nodesOfItems values))
  | _ => none

/-- The schemas of named members. -/
def namedOf? : Json → Option (List (String × Node))
  | .object members => some (nodesOfMembers members)
  | _ => none

/-- What stands in each item. -/
def nodesOfItems : List Json → List Node
  | [] => []
  | value :: rest => Node.ofJson value :: nodesOfItems rest

/-- What stands in each member. -/
def nodesOfMembers : List (String × Json) → List (String × Node)
  | [] => []
  | (name, value) :: rest => (name, Node.ofJson value) :: nodesOfMembers rest

end

/-- A schema that may be absent. -/
def readNode : Reader (Option Node) := readOptional fun value => .ok (Node.ofJson value)

/-! ### References -/

/-- The pointer of a reference: an object whose `$ref` is a string, or a list of that string alone. -/
def pointerOf? : Json → Option String
  | .object members => (Member.lookup "$ref" members).bind Json.asString?
  | .array [.string pointer] => some pointer
  | _ => none

/-- Reads a reference, else a definition. -/
def readRefOr {α : Type} (read : Reader α) (value : Json) : Except Misfit (RefOr α) :=
  match pointerOf? value with
  | some pointer => .ok (.reference pointer)
  | none =>
    match read value with
    | .ok definition => .ok (.inline definition)
    | .error _ => .error .neither

/-! ### Definitions -/

/-- A location: its name, or an object with this name for its only member and nothing in it. -/
def readLocation (value : Json) : Except Misfit Location :=
  let name? :=
    match value with
    | .string name => some name
    | .object [(name, .null)] => some name
    | _ => none
  match name?.bind Location.ofName? with
  | some location => .ok location
  | none => .error (.type value "string or map")

/-- A parameter. -/
def readParameter : Reader Parameter :=
  readStructure "Parameter" [⟨"name", .required⟩, ⟨"in", .required⟩, ⟨"required", .defaulted⟩,
      ⟨"schema", .optional⟩, ⟨"description", .optional⟩, ⟨"deprecated", .defaulted⟩]
    ⟨"", .query, false, none, none, false⟩ fun p name value =>
      match name with
      | "name" => do return { p with name := ← readText value }
      | "in" => do return { p with location := ← readLocation value }
      | "required" => do return { p with required := ← readBool value }
      | "schema" => do return { p with schema := ← readNode value }
      | "description" => do return { p with description := ← readOptional readText value }
      | "deprecated" => do return { p with deprecated := ← readBool value }
      | _ => .ok p

/-- The content of a media type. -/
def readMediaType : Reader MediaType :=
  readStructure "MediaType" [⟨"schema", .optional⟩] ⟨none⟩ fun m name value =>
    match name with
    | "schema" => do return { m with schema := ← readNode value }
    | _ => .ok m

/-- The body of a request. -/
def readRequestBody : Reader RequestBody :=
  readStructure "RequestBody"
    [⟨"required", .defaulted⟩, ⟨"description", .optional⟩, ⟨"content", .defaulted⟩]
    ⟨false, none, []⟩ fun b name value =>
      match name with
      | "required" => do return { b with required := ← readBool value }
      | "description" => do return { b with description := ← readOptional readText value }
      | "content" => do return { b with content := ← readMap readMediaType value }
      | _ => .ok b

/-- A response. -/
def readResponse : Reader Response :=
  readStructure "Response" [⟨"description", .optional⟩, ⟨"content", .defaulted⟩] ⟨none, []⟩
    fun r name value =>
      match name with
      | "description" => do return { r with description := ← readOptional readText value }
      | "content" => do return { r with content := ← readMap readMediaType value }
      | _ => .ok r

/-- A way to authenticate. -/
def readSecurityScheme : Reader SecurityScheme :=
  readStructure "SecurityScheme" [⟨"type", .required⟩, ⟨"scheme", .optional⟩,
      ⟨"bearerFormat", .optional⟩, ⟨"name", .optional⟩, ⟨"in", .optional⟩,
      ⟨"openIdConnectUrl", .optional⟩, ⟨"description", .optional⟩]
    ⟨"", none, none, none, none, none, none⟩ fun s name value =>
      match name with
      | "type" => do return { s with type := ← readText value }
      | "scheme" => do return { s with scheme := ← readOptional readText value }
      | "bearerFormat" => do return { s with bearerFormat := ← readOptional readText value }
      | "name" => do return { s with name := ← readOptional readText value }
      | "in" => do return { s with location := ← readOptional readText value }
      | "openIdConnectUrl" => do return { s with connectUrl := ← readOptional readText value }
      | "description" => do return { s with description := ← readOptional readText value }
      | _ => .ok s

/-- The security schemes that are needed together. -/
def readRequirements : Reader (Option (List Requirement)) :=
  readOptional (readList (readMap (readList readText)))

/-! ### Operations -/

/-- An operation. -/
def readOperation : Reader Operation :=
  readStructure "Operation" [⟨"operationId", .optional⟩, ⟨"summary", .optional⟩,
      ⟨"description", .optional⟩, ⟨"deprecated", .defaulted⟩, ⟨"tags", .defaulted⟩,
      ⟨"parameters", .defaulted⟩, ⟨"requestBody", .optional⟩, ⟨"responses", .defaulted⟩,
      ⟨"security", .optional⟩]
    ⟨none, none, none, false, [], [], none, [], none⟩ fun o name value =>
      match name with
      | "operationId" => do return { o with id := ← readOptional readText value }
      | "summary" => do return { o with summary := ← readOptional readText value }
      | "description" => do return { o with description := ← readOptional readText value }
      | "deprecated" => do return { o with deprecated := ← readBool value }
      | "tags" => do return { o with tags := ← readList readText value }
      | "parameters" => do return { o with parameters := ← readList (readRefOr readParameter) value }
      | "requestBody" => do
        return { o with body := ← readOptional (readRefOr readRequestBody) value }
      | "responses" => do return { o with responses := ← readMap (readRefOr readResponse) value }
      | "security" => do return { o with security := ← readRequirements value }
      | _ => .ok o

/-- The operations of a path, put into the order of methods. -/
def readPathItem (value : Json) : Except Misfit PathItem := do
  let item ← readStructure "PathItem"
    (Method.all.map (⟨·.key, .optional⟩) ++ [⟨"parameters", .defaulted⟩]) ⟨[], []⟩
    (fun (p : PathItem) name value =>
      match Method.ofKey? name with
      | some method => do
        match ← readOptional readOperation value with
        | some operation => return { p with operations := p.operations ++ [(method, operation)] }
        | none => return p
      | none =>
        if name = "parameters" then do
          return { p with parameters := ← readList (readRefOr readParameter) value }
        else .ok p) value
  let operations := Method.all.filterMap fun method =>
    item.operations.find? fun operation => operation.1 = method
  return { item with operations }

/-! ### Documents -/

/-- Title, version and description. -/
def readInfo : Reader Info :=
  readStructure "Info" [⟨"title", .defaulted⟩, ⟨"version", .defaulted⟩, ⟨"description", .optional⟩]
    ⟨"", "", none⟩ fun i name value =>
      match name with
      | "title" => do return { i with title := ← readText value }
      | "version" => do return { i with version := ← readText value }
      | "description" => do return { i with description := ← readOptional readText value }
      | _ => .ok i

/-- An address. -/
def readServer : Reader Server :=
  readStructure "Server" [⟨"url", .required⟩, ⟨"description", .optional⟩] ⟨"", none⟩
    fun s name value =>
      match name with
      | "url" => do return { s with url := ← readText value }
      | "description" => do return { s with description := ← readOptional readText value }
      | _ => .ok s

/-- The definitions that may be referred to. -/
def readComponents : Reader Components :=
  readStructure "Components" [⟨"schemas", .defaulted⟩, ⟨"parameters", .defaulted⟩,
      ⟨"responses", .defaulted⟩, ⟨"requestBodies", .defaulted⟩, ⟨"securitySchemes", .defaulted⟩]
    ⟨[], [], [], [], []⟩ fun c name value =>
      match name with
      | "schemas" => do return { c with schemas := ← readMap (fun v => .ok (Node.ofJson v)) value }
      | "parameters" => do return { c with parameters := ← readMap (readRefOr readParameter) value }
      | "responses" => do return { c with responses := ← readMap (readRefOr readResponse) value }
      | "requestBodies" => do return { c with bodies := ← readMap (readRefOr readRequestBody) value }
      | "securitySchemes" => do
        return { c with schemes := ← readMap (readRefOr readSecurityScheme) value }
      | _ => .ok c

/-- A document without parts. -/
def Document.empty : Document := ⟨none, ⟨"", "", none⟩, [], [], ⟨[], [], [], [], []⟩, none⟩

/-- A document. -/
def readDocument : Reader Document :=
  readStructure "SpecDocument" [⟨"openapi", .optional⟩, ⟨"info", .defaulted⟩, ⟨"servers", .defaulted⟩,
      ⟨"paths", .defaulted⟩, ⟨"components", .defaulted⟩, ⟨"security", .optional⟩]
    .empty fun d name value =>
      match name with
      | "openapi" => do return { d with format := ← readOptional readText value }
      | "info" => do return { d with info := ← readInfo value }
      | "servers" => do return { d with servers := ← readList readServer value }
      | "paths" => do return { d with paths := ← readMap readPathItem value }
      | "components" => do return { d with components := ← readComponents value }
      | "security" => do return { d with security := ← readRequirements value }
      | _ => .ok d

/-- Only version three of the format is supported. -/
def checkVersion : Option String → Except Error Unit
  | some version => if version.startsWith "3." then .ok () else .error (.version (some version))
  | none => .error (.version none)

/-- The text of a version marker: a string itself, any other value as JSON. -/
def markerText : Json → String
  | .string text => text
  | value => value.compact

/-- Reads a document.  Its version comes first: the member `openapi`, whose value may also be another
JSON value than a string; without it the member `swagger` tells what was found. -/
def Document.ofJson (value : Json) : Except Error Document :=
  match value.member? "openapi" with
  | none => .error (.version ((value.member? "swagger").map markerText))
  | some marker => do
    checkVersion (some (markerText marker))
    let value :=
      match value with
      | .object members => .object (Member.put "openapi" (.string (markerText marker)) members)
      | value => value
    match readDocument value with
    | .ok d => .ok d
    | .error misfit => .error (.misfit misfit)

end ApiDecl
