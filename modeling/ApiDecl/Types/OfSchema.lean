import ApiDecl.Description.Component
import ApiDecl.Distinct
import ApiDecl.Draft
import ApiDecl.Options
import ApiDecl.Types.Basic

/-!
# The type of a schema

`draftNode` gives the type of what stands at a place of a description.  A `$ref` becomes the name of the
type it leads to and is mentioned, so the type depends only on the schema itself, on the names of the
components and on the options.

One keyword decides the shape, the first of: `$ref`, `const`, `allOf`, `oneOf`, `anyOf`, `enum`, `type`,
and without these whatever keywords for objects or arrays there are.

* `Scope`: what references and names depend on;
* `draftShape`: the shape of a schema whose parts have been drafted;
* `mergeFields`, `allOfType`: the one object that objects under `allOf` make;
* `enumType`: the type of listed values;
* `draftNode`: the whole type, with null where the schema allows it.
-/

namespace ApiDecl

/-- What the type of a schema depends on besides the schema. -/
structure Scope where
  /-- The schemas of the components. -/
  schemas : List (String × Node)
  /-- The name of each component's type. -/
  names : List (String × String)
  options : CasedOptions

namespace Scope

/-- Every component with a type name of its own. -/
def typeNames (schemas : List (String × Node)) : List (String × String) :=
  let components := schemas.map Prod.fst
  components.zip (claimAll [] (components.map sanitize))

/-- The scope of a document. -/
def ofDocument (d : Document) (options : CasedOptions) : Scope :=
  ⟨d.components.schemas, typeNames d.components.schemas, options⟩

/-- The component that a pointer leads to, with its type name. -/
def resolve (scope : Scope) (pointer : String) : Except Error Mention := do
  let (component, _) ← Pool.schema.find scope.schemas pointer
  match Member.lookup component scope.names with
  | some name => .ok ⟨component, name, pointer⟩
  | none => .error (.unresolved pointer)

/-- The documentation of a node, if it is kept. -/
def docs (scope : Scope) (node : Node) : Option String × Bool :=
  if scope.options.includeDocs then node.docs else (none, false)

end Scope

/-- An error at a place. -/
def flawed {α : Type} (pointer : String) (flaw : Flaw) : Draft α := .fail (.invalid pointer flaw)

/-- A reference to the type of a component. -/
def draftReference (scope : Scope) (pointer : String) : Draft Ty := do
  let mention ← Draft.ofExcept (scope.resolve pointer)
  .mention mention
  pure (.reference mention.name)

/-! ### Names of fields -/

/-- Takes the name of a field: the one wanted, or if it is taken a free one made of the wire name. -/
def claimField (taken : List String) (wanted wireName : String) : String × List String :=
  if wanted ∈ taken then claim taken (sanitize wireName) else (wanted, wanted :: taken)

/-- Takes the name of each field in turn. -/
def nameFields (taken : List String) : List (FieldOf Ty) → List (FieldOf Ty)
  | [] => []
  | field :: rest =>
    let (name, taken) := claimField taken field.name field.wireName
    { field with name } :: nameFields taken rest

/-! ### Objects and arrays -/

/-- The field of a property. -/
def fieldOf (scope : Scope) (required : List String) (wireName : String) (node : Node) (ty : Ty) :
    FieldOf Ty :=
  let (description, deprecated) := scope.docs node
  ⟨scope.options.identifier wireName, wireName, ty, required.contains wireName, description, deprecated⟩

/-- The fields of properties, each with its draft. -/
def draftFields (scope : Scope) (required : List String) :
    List (String × Node) → List (String × Draft Ty) → Draft (List (FieldOf Ty))
  | (wireName, node) :: properties, (_, draft) :: drafts => do
    let ty ← draft
    let rest ← draftFields scope required properties drafts
    pure (fieldOf scope required wireName node ty :: rest)
  | _, _ => pure []

/-- The type of further members; `false` stands for none. -/
def draftAdditional : Option Node → Option (Draft Ty) → Draft (Option Ty)
  | some (.other (.bool false)), _ => pure none
  | some _, some draft => some <$> draft
  | _, _ => pure none

/-- An object. -/
def draftObject (scope : Scope) (s : Schema) (drafts : Parts (Draft Ty)) : Draft Ty := do
  let fields ← draftFields scope s.facets.required s.parts.properties drafts.properties
  let additional ← draftAdditional s.parts.additional drafts.additional
  pure (.object (nameFields [] fields) additional)

/-- An array; its elements may be anything unless the schema says more. -/
def draftArray (drafts : Parts (Draft Ty)) : Draft Ty :=
  match drafts.items with
  | some draft => .array <$> draft
  | none => pure (.array .any)

/-- The type that one entry of the keyword `type` names. -/
def draftTyped (scope : Scope) (pointer : String) (s : Schema) (drafts : Parts (Draft Ty))
    (name : String) : Draft Ty :=
  if name = "object" then draftObject scope s drafts
  else if name = "array" then draftArray drafts
  else
    match Scalar.ofTypeName? name with
    | some scalar => pure (.scalar scalar s.facets.format)
    | none => flawed (Pointer.child pointer "type") (.unknownType name)

/-! ### Compositions -/

/-- Puts a field in place of the one of its wire name, which stays required if it was, or at the end. -/
def mergeField (field : FieldOf Ty) : List (FieldOf Ty) → List (FieldOf Ty)
  | [] => [field]
  | other :: rest =>
    if other.wireName = field.wireName then
      { field with required := other.required || field.required } :: rest
    else other :: mergeField field rest

/-- The fields of one object with those of another. -/
def mergeFields (fields more : List (FieldOf Ty)) : List (FieldOf Ty) :=
  more.foldl (fun fields field => mergeField field fields) fields

/-- Objects made into one, whose further members have the type that the last object gives. -/
def mergeObjects (objects : List (List (FieldOf Ty) × Option Ty)) : List (FieldOf Ty) × Option Ty :=
  objects.foldl (fun (fields, additional) (more, other) => (mergeFields fields more, other <|> additional))
    ([], none)

/-- The type of members that hold together: one object if all are objects, and else an intersection. -/
def allOfType (required : List String) (members : List Ty) : Ty :=
  match members with
  | [] => .any
  | members =>
    match members.mapM Ty.asObject? with
    | some objects =>
      let (fields, additional) := mergeObjects objects
      let fields := fields.map fun field =>
        { field with required := field.required || required.contains field.wireName }
      .object (nameFields [] fields) additional
    | none =>
      match members with
      | [member] => member
      | members => .intersection members

/-- The drafts of the members that are more than lists of required names. -/
def substantial : List Node → List (Draft Ty) → List (Draft Ty)
  | .schema s :: nodes, draft :: drafts =>
    if s.isRequiredOnly then substantial nodes drafts else draft :: substantial nodes drafts
  | .other _ :: nodes, draft :: drafts => draft :: substantial nodes drafts
  | _, _ => []

/-- The required names that schemas list. -/
def requiredNames (nodes : List Node) : List String :=
  nodes.flatMap fun node => (node.asSchema?.map fun s => s.facets.required).getD []

/-- A schema under `allOf`; its own properties make a last member. -/
def draftAllOf (scope : Scope) (pointer : String) (s : Schema) (members : List Node)
    (drafts : Parts (Draft Ty)) (memberDrafts : List (Draft Ty)) : Draft Ty :=
  if members.isEmpty then flawed (Pointer.child pointer "allOf") (.noMembers "allOf")
  else do
    let types ← Draft.all (substantial members memberDrafts)
    let own ←
      if s.parts.properties.isEmpty then pure []
      else do
        let object ← draftObject scope s drafts
        pure [object]
    pure (allOfType (requiredNames members ++ s.facets.required) (types ++ own))

/-- Adds the explicit entries of a discriminator: a target is a pointer or the name of a component. -/
def explicitMapping (scope : Scope) (mapping : List (String × String)) :
    List (String × String) → Except Error (List (String × String))
  | [] => .ok mapping
  | (value, target) :: rest => do
    let pointer := if target.startsWith "#" then target else Pool.schema.pointer target
    let mention ← scope.resolve pointer
    explicitMapping scope (Member.put value mention.name mapping) rest

/-- Adds each member that is a reference under the name of its component, unless some entry leads to its
type. -/
def impliedMapping (scope : Scope) (mapping : List (String × String)) :
    List Node → Except Error (List (String × String))
  | [] => .ok mapping
  | .schema s :: rest =>
    match s.facets.reference with
    | none => impliedMapping scope mapping rest
    | some pointer => do
      let mention ← scope.resolve pointer
      if mapping.any fun entry => entry.2 == mention.name then impliedMapping scope mapping rest
      else impliedMapping scope (Member.put mention.component mention.name mapping) rest
  | .other _ :: rest => impliedMapping scope mapping rest

/-- The discriminator of a union, with types for definitions. -/
def discriminatorOf (scope : Scope) (members : List Node) (d : Discriminator) :
    Except Error Discriminator := do
  let entries ← explicitMapping scope [] d.mapping
  let mapping ← impliedMapping scope entries members
  .ok ⟨d.member, mapping⟩

/-- A schema under `oneOf` or `anyOf`; a single member without a discriminator stands for itself. -/
def draftUnion (scope : Scope) (pointer keyword : String) (s : Schema) (members : List Node)
    (memberDrafts : List (Draft Ty)) : Draft Ty :=
  if members.isEmpty then flawed (Pointer.child pointer keyword) (.noMembers keyword)
  else do
    let types ← Draft.all memberDrafts
    match s.facets.discriminator with
    | some d => do
      let discriminator ← Draft.ofExcept (discriminatorOf scope members d)
      pure (.union types (some discriminator))
    | none =>
      match types with
      | [ty] => pure ty
      | types => pure (.unionOf types)

/-! ### Values -/

/-- A literal, or any value where there is none. -/
def literalOrAny : Option Literal → Ty
  | some value => .literal value
  | none => .any

/-- Two values make the same member of a union. -/
def sameMember : Option Literal → Option Literal → Bool
  | some a, some b => a.same b
  | none, none => true
  | _, _ => false

/-- The scalar type that an enumeration can be of: the only declared type, if it is one of these. -/
def enumScalar? (f : Facets) : Option Scalar :=
  match f.declaredTypes with
  | [name] =>
    match Scalar.ofTypeName? name with
    | some .string => some .string
    | some .integer => some .integer
    | some .number => some .number
    | _ => none
  | _ => none

/-- The values of an enumeration, if all are literals of one scalar type. -/
def enumeration? (f : Facets) (values : List (Option Literal)) : Option (List Literal) :=
  match enumScalar? f, values.mapM id with
  | some scalar, some (value :: rest) =>
    if (value :: rest).all (Literal.isOf · scalar) then some (value :: rest) else none
  | _, _ => none

/-- The type of listed values; null is left to the nullability of the schema where that allows it. -/
def enumType (f : Facets) (values : List Json) : Ty :=
  let values := (values.filter fun value => !(f.isNullable && value.isNull)).map Literal.ofJson?
  match enumeration? f values with
  | some literals => .enumeration literals
  | none =>
    match distinctBy sameMember values with
    | [] => .null
    | [value] => literalOrAny value
    | members => .unionOf (members.map literalOrAny)

/-! ### Shapes -/

/-- The type of a schema by its keyword `type`, or by its keywords for objects and arrays. -/
def draftTypes (scope : Scope) (pointer : String) (s : Schema) (drafts : Parts (Draft Ty)) : Draft Ty :=
  match s.facets.types with
  | some (.one name) => draftTyped scope pointer s drafts name
  | some (.list names) =>
    if names.isEmpty then flawed (Pointer.child pointer "type") .noTypes
    else
      match s.facets.declaredTypes with
      | [] => pure .null
      | [name] => draftTyped scope pointer s drafts name
      | names => .unionOf <$> Draft.all (names.map (draftTyped scope pointer s drafts))
  | none =>
    if !s.parts.properties.isEmpty || s.parts.additional.isSome then draftObject scope s drafts
    else if s.parts.items.isSome then draftArray drafts
    else pure .any

/-- The type of a schema without regard to null, given drafts of its parts. -/
def draftShape (scope : Scope) (pointer : String) (s : Schema) (drafts : Parts (Draft Ty)) : Draft Ty :=
  match s.facets.reference, s.facets.constant with
  | some target, _ => draftReference scope target
  | none, some value => pure (literalOrAny (Literal.ofJson? value))
  | none, none =>
    match s.parts.allOf, drafts.allOf with
    | some members, some memberDrafts => draftAllOf scope pointer s members drafts memberDrafts
    | _, _ =>
      match s.parts.oneOf, drafts.oneOf with
      | some members, some memberDrafts => draftUnion scope pointer "oneOf" s members memberDrafts
      | _, _ =>
        match s.parts.anyOf, drafts.anyOf with
        | some members, some memberDrafts => draftUnion scope pointer "anyOf" s members memberDrafts
        | _, _ =>
          match s.facets.values with
          | some values =>
            if values.isEmpty then flawed (Pointer.child pointer "enum") .noValues
            else pure (enumType s.facets values)
          | none => draftTypes scope pointer s drafts

mutual

/-- The type of what stands at a place. -/
def draftNode (scope : Scope) (pointer : String) : Node → Draft Ty
  | .other (.bool true) => pure .any
  | .other (.object _) => flawed pointer .malformed
  | .other value => flawed pointer (.notSchema value.typeName)
  | .schema ⟨facets, ⟨properties, items, additional, oneOf, anyOf, allOf⟩⟩ =>
    let drafts : Parts (Draft Ty) := {
      properties := draftNamed scope (Pointer.child pointer "properties") properties
      items :=
        match items with
        | none => none
        | some node => some (draftNode scope (Pointer.child pointer "items") node)
      additional :=
        match additional with
        | none => none
        | some node => some (draftNode scope (Pointer.child pointer "additionalProperties") node)
      oneOf :=
        match oneOf with
        | none => none
        | some nodes => some (draftMembers scope (Pointer.child pointer "oneOf") 0 nodes)
      anyOf :=
        match anyOf with
        | none => none
        | some nodes => some (draftMembers scope (Pointer.child pointer "anyOf") 0 nodes)
      allOf :=
        match allOf with
        | none => none
        | some nodes => some (draftMembers scope (Pointer.child pointer "allOf") 0 nodes) }
    let s : Schema := ⟨facets, ⟨properties, items, additional, oneOf, anyOf, allOf⟩⟩
    (if facets.isNullable then Ty.nullable else id) <$> draftShape scope pointer s drafts

/-- The types of properties. -/
def draftNamed (scope : Scope) (base : String) : List (String × Node) → List (String × Draft Ty)
  | [] => []
  | (name, node) :: rest =>
    (name, draftNode scope (Pointer.child base name) node) :: draftNamed scope base rest

/-- The types of the members of a composition, the first at a given position. -/
def draftMembers (scope : Scope) (base : String) (index : Nat) : List Node → List (Draft Ty)
  | [] => []
  | node :: rest =>
    draftNode scope (Pointer.child base (toString index)) node
      :: draftMembers scope base (index + 1) rest

end

end ApiDecl
