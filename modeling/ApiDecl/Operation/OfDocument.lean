import ApiDecl.Operation.Basic
import ApiDecl.Types.OfSchema
import ApiDecl.Types.Programs

/-!
# The operations of a document

Each operation of each path is drafted: its parameters, its body and its responses get types, by the same
drafts as schemas.  A reference to a parameter, a body or a response is followed once.

* `operationName`: the identifier given, or one made of method and path;
* `draftParameters`: the parameters of the path and those of the operation, which override them;
* `bodyMedia?`, `responseMedia?`: the media type that counts of those offered;
* `draftOperations`: all operations.
-/

namespace ApiDecl

/-! ### Names -/

/-- A path segment in words: a parameter is read `by` its name. -/
def segmentWords (segment : List Char) : List Char :=
  match segment with
  | '\x7b' :: rest =>
    match rest.reverse with
    | '\x7d' :: name => "by ".toList ++ name.reverse
    | _ => segment
  | _ => segment

/-- The name of an operation. -/
def operationName (camelCase : String → String) (path : String) (method : Method) (o : Operation) : String :=
  match o.id with
  | some id => sanitize id
  | none =>
    let segments := (runs (· ≠ '/') [] path.toList).filter fun segment => !segment.isEmpty
    let words := segments.map fun segment => String.ofList (segmentWords segment)
    camelIdentifier camelCase (method.key ++ " " ++ String.intercalate " " words)

/-! ### Parameters -/

/-- A parameter with its type, a string unless a schema says more.  In the path it is always required. -/
def draftParameter (scope : Scope) (pointer : String) (p : Parameter) : Draft Binding := do
  let ty ←
    match p.schema with
    | some node => draftNode scope (Pointer.child pointer "schema") node
    | none => pure (.scalar .string none)
  pure ⟨scope.options.identifier p.name, p.name, p.location, p.required || p.location = .path, ty⟩

/-- The parameters of one list, from a position on; no two may have one location and name. -/
def draftParameterList (scope : Scope) (c : Components) (base : String) (seen : List (Location × String))
    (index : Nat) : List (RefOr Parameter) → Draft (List Binding)
  | [] => pure []
  | entry :: rest => do
    let (p, pointer) ← Draft.ofExcept
      (entry.follow .parameter c.parameters (Pointer.child base (toString index)))
    if seen.contains (p.location, p.name) then .fail (.duplicateParameter p.location p.name)
    else do
      let binding ← draftParameter scope pointer p
      let bindings ← draftParameterList scope c base ((p.location, p.name) :: seen) (index + 1) rest
      pure (binding :: bindings)

/-- Two parameters with one location and wire name. -/
def Binding.sameSlot (a b : Binding) : Bool := a.location = b.location && a.wireName == b.wireName

/-- Parameters of an operation put behind those of its path, in place of any with the same slot. -/
def overrideBindings (shared own : List Binding) : List Binding :=
  own.foldl (fun bindings b => bindings.filter (fun other => !other.sameSlot b) ++ [b]) shared

/-- Takes the name of each parameter in turn. -/
def nameBindings (taken : List String) : List Binding → List Binding
  | [] => []
  | b :: rest =>
    let (name, taken) := claimField taken b.name b.wireName
    { b with name } :: nameBindings taken rest

/-- The parameters of an operation. -/
def draftParameters (scope : Scope) (c : Components) (item : PathItem) (o : Operation)
    (pathPointer pointer : String) : Draft (List Binding) := do
  let shared ← draftParameterList scope c (Pointer.child pathPointer "parameters") [] 0 item.parameters
  let own ← draftParameterList scope c (Pointer.child pointer "parameters") [] 0 o.parameters
  pure (nameBindings [] (overrideBindings shared own))

/-! ### Bodies and responses -/

/-- The type of a media type's content, which may be anything unless a schema says more. -/
def draftMedia (scope : Scope) (pointer mediaType : String) (media : MediaType) : Draft Ty :=
  match media.schema with
  | some node =>
    draftNode scope (Pointer.child (Pointer.child (Pointer.child pointer "content") mediaType) "schema")
      node
  | none => pure .any

/-- The media type that counts for a request: JSON, then form data, then URL encoding, then the first. -/
def bodyMedia? (content : List (String × MediaType)) : Option (String × MediaType) :=
  let ofFormat (format : BodyFormat) := content.find? fun entry => BodyFormat.ofMediaType entry.1 = format
  ofFormat .json <|> ofFormat .formData <|> ofFormat .urlEncoded <|> content.head?

/-- The media type that counts for a response: JSON, then the first. -/
def responseMedia? (content : List (String × MediaType)) : Option (String × MediaType) :=
  content.find? (fun entry => ResponseFormat.ofMediaType entry.1 = .json) <|> content.head?

/-- The body of an operation. -/
def draftBody (scope : Scope) (c : Components) (o : Operation) (pointer : String) :
    Draft (Option BodyBinding) :=
  match o.body with
  | none => pure none
  | some entry => do
    let (body, place) ← Draft.ofExcept
      (entry.follow .body c.bodies (Pointer.child pointer "requestBody"))
    match bodyMedia? body.content with
    | none => pure none
    | some (mediaType, media) => do
      let ty ← draftMedia scope place mediaType media
      pure (some ⟨mediaType, .ofMediaType mediaType, body.required, ty, ty.links⟩)

/-- The responses of an operation. -/
def draftResponses (scope : Scope) (c : Components) (base : String) :
    List (String × RefOr Response) → Draft (List ResponseBinding)
  | [] => pure []
  | (status, entry) :: rest => do
    let (response, place) ← Draft.ofExcept
      (entry.follow .response c.responses (Pointer.child base status))
    let content ←
      match responseMedia? response.content with
      | none => pure none
      | some (mediaType, media) => do
        let ty ← draftMedia scope place mediaType media
        pure (some ⟨mediaType, .ofMediaType mediaType, ty, ty.links⟩)
    let bindings ← draftResponses scope c base rest
    pure (⟨status, content⟩ :: bindings)

/-! ### Operations -/

/-- One operation. -/
def draftOperation (scope : Scope) (d : Document) (path : String) (item : PathItem) (method : Method)
    (name : String) (o : Operation) : Draft OperationDeclaration := do
  let pathPointer := Pointer.child "#/paths" path
  let pointer := Pointer.child pathPointer method.key
  let parameters ← draftParameters scope d.components item o pathPointer pointer
  let body ← draftBody scope d.components o pointer
  let responses ← draftResponses scope d.components (Pointer.child pointer "responses") o.responses
  pure ⟨name, method, path, parameters, body, responses, (o.security <|> d.security).getD [], o.summary,
    o.description, o.deprecated⟩

/-- The operations of paths, each with the path it belongs to. -/
def operationsOf (paths : List (String × PathItem)) :
    List (String × PathItem × Method × Operation) :=
  paths.flatMap fun (path, item) => item.operations.map fun (method, o) => (path, item, method, o)

/-- Operations in order; no two may have one name. -/
def draftInOrder (scope : Scope) (d : Document) (taken : List String) :
    List (String × PathItem × Method × Operation) → Draft (List OperationDeclaration)
  | [] => pure []
  | (path, item, method, o) :: rest => do
    let name := operationName scope.options.camelCase path method o
    if taken.contains name then .fail (.duplicateOperation name)
    else do
      let declaration ← draftOperation scope d path item method name o
      let declarations ← draftInOrder scope d (name :: taken) rest
      pure (declaration :: declarations)

/-- The operations of a document, in its order. -/
def draftOperations (scope : Scope) (d : Document) : Draft (List OperationDeclaration) :=
  draftInOrder scope d [] (operationsOf d.paths)

end ApiDecl
