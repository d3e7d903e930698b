import ApiDecl.Operation.OfDocument
import ApiDecl.Types.Closure

/-!
# Calls on one compilation

Parts of a description may be compiled one after the other while the named schemas are compiled once
for all of them.  A call that fails does not end the compilation: further calls go on from where it
has come to.

* `Call`, `Answer`: what may be asked for, and what is given back;
* `Call.make`: one call;
* `Progress.after`: how far calls in a row have come, whether they failed or not.
-/

namespace ApiDecl

/-- What may be asked of a compilation. -/
inductive Call where
  /-- Every component. -/
  | components
  /-- The type that a pointer leads to. -/
  | reference (pointer : String)
  /-- The type of what stands at a pointer. -/
  | schema (pointer : String) (node : Node)
  /-- The operations of a document. -/
  | operations (d : Document)

/-- What a call gives back. -/
inductive Answer where
  | nothing
  | type (ty : Ty)
  | operations (operations : List OperationDeclaration)

namespace Call

/-- What a call compiles by itself, the named schemas that it mentions apart. -/
def draft (scope : Scope) : Call → Draft Answer
  | .components => (fun _ => .nothing) <$>
    Draft.all (scope.names.map fun entry => draftReference scope (Pool.schema.pointer entry.1))
  | .reference pointer => .type <$> draftReference scope pointer
  | .schema pointer node => .type <$> draftNode scope pointer node
  | .operations d => .operations <$> draftOperations scope d

/-- One call. -/
def make (scope : Scope) (p : Progress) (call : Call) : Progress × Except Error Answer :=
  p.draft scope (call.draft scope)

end Call

/-- How far calls in a row have come. -/
def Progress.after (scope : Scope) (p : Progress) (calls : List Call) : Progress :=
  calls.foldl (fun p call => (call.make scope p).1) p

end ApiDecl
