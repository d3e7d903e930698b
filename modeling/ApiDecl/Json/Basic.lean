import ApiDecl.Number.Binary64

/-!
# JSON values

A JSON value with its numbers kept apart by form: an integer is exact, every other number is a finite
double.  The members of an object keep their order.

* `Member.lookup`, `Member.put`: the first member of a name, and a member written in place or at the end;
* `Number.sameNumber`: equality of numbers, in which the two zeros agree;
* `Json.typeName`: the JSON name of a value's type.
-/

namespace ApiDecl

/-- A JSON number. -/
inductive Number where
  /-- An integer, between `-2 ^ 63` and `2 ^ 64 - 1` wherever it comes from text. -/
  | int (value : Int)
  /-- Any other number. -/
  | real (value : Binary64)
  deriving DecidableEq

/-- Two numbers of one form with one value. -/
def Number.sameNumber : Number → Number → Bool
  | .int a, .int b => a == b
  | .real a, .real b => a.sameNumber b
  | _, _ => false

/-- A JSON value. -/
inductive Json where
  | null
  | bool (value : Bool)
  | number (value : Number)
  | string (value : String)
  | array (items : List Json)
  | object (members : List (String × Json))
  deriving Inhabited

/-! ### Members

Lists of named values in the order of their definition, whatever the values are. -/

namespace Member

variable {α : Type}

/-- The value of the first member with a name. -/
def lookup (name : String) : List (String × α) → Option α
  | [] => none
  | (key, value) :: rest => if key = name then some value else lookup name rest

/-- Some member has the name. -/
def has (name : String) (members : List (String × α)) : Bool :=
  (lookup name members).isSome

/-- Writes a member: in place of the one with the same name, else at the end. -/
def put (name : String) (value : α) : List (String × α) → List (String × α)
  | [] => [(name, value)]
  | (key, old) :: rest =>
    if key = name then (key, value) :: rest else (key, old) :: put name value rest

/-- The members after writing each of a list in turn. -/
def ofList (members : List (String × α)) : List (String × α) :=
  members.foldl (fun done member => put member.1 member.2 done) []

/-- Changes the value of the first member with a name. -/
def modify (name : String) (change : α → α) : List (String × α) → List (String × α)
  | [] => []
  | (key, value) :: rest =>
    if key = name then (key, change value) :: rest else (key, value) :: modify name change rest

theorem lookup_put_self (name : String) (value : α) (members : List (String × α)) :
    lookup name (put name value members) = some value := by
  induction members with
  | nil => simp [put, lookup]
  | cons m rest ih =>
    by_cases h : m.1 = name
    · simp [put, lookup, h]
    · simp [put, lookup, h, ih]

theorem lookup_put_of_ne {name other : String} (h : other ≠ name) (value : α)
    (members : List (String × α)) : lookup other (put name value members) = lookup other members := by
  induction members with
  | nil => simp [put, lookup, Ne.symm h]
  | cons m rest ih =>
    by_cases hm : m.1 = name
    · simp [put, lookup, hm, Ne.symm h]
    · simp [put, lookup, hm, ih]

end Member

namespace Json

/-- The name JSON gives to the type of a value. -/
def typeName : Json → String
  | .null => "null"
  | .bool _ => "boolean"
  | .number _ => "number"
  | .string _ => "string"
  | .array _ => "array"
  | .object _ => "object"

/-- The value is null. -/
def isNull : Json → Bool
  | .null => true
  | _ => false

/-- The text of a string value. -/
def asString? : Json → Option String
  | .string text => some text
  | _ => none

/-- The member of an object value. -/
def member? (name : String) : Json → Option Json
  | .object members => Member.lookup name members
  | _ => none

/-- A value written as a JSON integer. -/
def ofNat (n : Nat) : Json := .number (.int n)

/-- An absent value is written as `null`. -/
def ofOption {α : Type} (write : α → Json) : Option α → Json
  | none => .null
  | some value => write value

end Json

end ApiDecl
