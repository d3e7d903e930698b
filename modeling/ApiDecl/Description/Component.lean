import ApiDecl.Error
import ApiDecl.Text.Pointer

/-!
# Components

The definitions of a document are kept in pools, one for each sort of definition.  A component is addressed
by the pointer `#/components/<pool>/<name>`, with its name escaped.

* `Pool.pointer`: the canonical pointer of a component;
* `splitPointer`: the pool and the component that a pointer names, with both kinds of escape undone;
* `Pool.find`: the component that a pointer names, from the pool where it has to be.
-/

namespace ApiDecl

/-- A sort of definition. -/
inductive Pool where
  | schema
  | parameter
  | response
  | body
  | scheme
  deriving DecidableEq

namespace Pool

/-- The name of a pool in a pointer. -/
def segment : Pool → String
  | .schema => "schemas"
  | .parameter => "parameters"
  | .response => "responses"
  | .body => "requestBodies"
  | .scheme => "securitySchemes"

/-- What a definition of a pool is called. -/
def noun : Pool → String
  | .schema => "schema"
  | .parameter => "parameter"
  | .response => "response"
  | .body => "request body"
  | .scheme => "security scheme"

/-- What all pointers to components start with. -/
def root : String := "#/components/"

/-- The canonical pointer of a component. -/
def pointer (pool : Pool) (name : String) : String :=
  root ++ pool.segment ++ "/" ++ String.ofList (Pointer.escape name.toList)

end Pool

/-- What follows a front in a text. -/
def afterFront : (front text : List Char) → Option (List Char)
  | [], text => some text
  | _ :: _, [] => none
  | c :: front, d :: text => if c = d then afterFront front text else none

/-- The text before and after the first slash. -/
def atSlash : List Char → Option (List Char × List Char)
  | [] => none
  | c :: rest => if c = '/' then some ([], rest) else (atSlash rest).map fun (a, b) => (c :: a, b)

/-- The pool and the component that a pointer names; a component's name is one segment, not empty. -/
def splitPointer (pointer : String) : Option (String × String) := do
  let rest ← afterFront Pool.root.toList pointer.toList
  let (pool, name) ← atSlash rest
  if name.isEmpty || name.contains '/' then none
  else some (String.ofList (Pointer.decodeSegment pool), String.ofList (Pointer.decodeSegment name))

namespace Pool

/-- The component of a pool that a pointer names, with its name. -/
def find {α : Type} (pool : Pool) (definitions : List (String × α)) (pointer : String) :
    Except Error (String × α) :=
  match splitPointer pointer with
  | none => .error (.unresolved pointer)
  | some (home, name) =>
    if home = pool.segment then
      match Member.lookup name definitions with
      | some definition => .ok (name, definition)
      | none => .error (.unresolved pointer)
    else .error (.unresolved pointer)

end Pool

/-- The definition itself, with the pointer of its place: a definition in place stands where it is, and a
reference is followed once. -/
def RefOr.follow {α : Type} (pool : Pool) (definitions : List (String × RefOr α)) (place : String) :
    RefOr α → Except Error (α × String)
  | .inline definition => .ok (definition, place)
  | .reference pointer => do
    match (← pool.find definitions pointer).2 with
    | .inline definition => .ok (definition, pointer)
    | .reference _ => .error (.invalid pointer (.chained pool.noun))

end ApiDecl
