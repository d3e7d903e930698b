import ApiDecl.Distinct
import ApiDecl.Transform.Liveness
import ApiDecl.Types.Basic

/-!
# Programs of a type

For each kind of conversion a type has programs that reach every value of it that needs the conversion:
each way from the type to a string of a fitting format is a program that ends in `this`, and each way to a
named type ends in a `ref`.

* `behind`: programs put behind a step, several of them as the arms of one `select`;
* `Ty.programs`: the programs of a type;
* `Ty.links`: the programs of every kind.
-/

namespace ApiDecl

/-- Programs behind a step. -/
def behind (step : Step) : List Program → List Program
  | [] => []
  | [program] => [step :: program]
  | programs => [[step, .select programs]]

namespace Ty

mutual

/-- The programs of a type. -/
def programs (kind : Kind) : Ty → List Program
  | .scalar .string (some format) => if Kind.ofFormat? format = some kind then [[.this]] else []
  | .scalar _ _ | .enumeration _ | .literal _ => []
  | .array element => behind .loop (programs kind element)
  | .object fields additional =>
    fieldPrograms kind fields ++
      match additional with
      | none => []
      | some ty => behind .entries (programs kind ty)
  | .union members _ => distinct (memberPrograms kind members)
  | .intersection members => distinct (memberPrograms kind members)
  | .reference name => [[.ref name]]

/-- The programs of fields. -/
def fieldPrograms (kind : Kind) : List (FieldOf Ty) → List Program
  | [] => []
  | ⟨_, wireName, ty, _, _, _⟩ :: rest =>
    behind (.access wireName) (programs kind ty) ++ fieldPrograms kind rest

/-- The programs of types at one slot. -/
def memberPrograms (kind : Kind) : List Ty → List Program
  | [] => []
  | ty :: rest => programs kind ty ++ memberPrograms kind rest

end

/-- The programs of a type for every kind. -/
def links (ty : Ty) : Links := ⟨ty.programs .date, ty.programs .binary⟩

end Ty

end ApiDecl
