import ApiDecl.Json.Printer
import ApiDecl.Yaml.Node

/-!
# YAML as JSON

A YAML text denotes a JSON value.  Plain scalars are null, truth values, numbers or strings by their look;
the keys of mappings are strings, numbers or truth values, each given once, and become the strings that
they are written as.  A tag of the text's own makes an object with the tag for its only member.

* `plainValue`: the value of a plain scalar;
* `scalarValue`: the value of any scalar;
* `expand`: the value of a node, with a limit on depth and on the number of references;
* `Json.ofYaml?`: the value of a text.
-/

namespace ApiDecl.Yaml

/-! ### Numbers -/

/-- The text behind a sign, and whether the sign is a minus. -/
def splitSign : List Char → Bool × List Char
  | '-' :: rest => (true, rest)
  | '+' :: rest => (false, rest)
  | text => (false, text)

/-- Digits of a base up to sixteen. -/
def natOfBase? (base : Nat) (text : List Char) : Option Nat :=
  if text.isEmpty then none
  else text.foldlM (fun value c => do
    let digit ← hexValue? c
    if digit < base then some (base * value + digit) else none) 0

/-- Several digits with a zero in front are no number. -/
def isPadded (text : List Char) : Bool :=
  match text with
  | '0' :: _ :: _ => text.all Char.isDigit
  | _ => false

/-- A whole number without its sign: decimal, or hexadecimal, octal or binary behind a mark. -/
def natOf? (text : List Char) : Option Nat :=
  match text with
  | '0' :: 'x' :: digits => natOfBase? 16 digits
  | '0' :: 'o' :: digits => natOfBase? 8 digits
  | '0' :: 'b' :: digits => natOfBase? 2 digits
  | _ => if isPadded text then none else natOfBase? 10 text

/-- A whole number. -/
def intOf? (text : List Char) : Option Int :=
  let (negative, magnitude) := splitSign text
  (natOf? magnitude).map fun n => if negative then -n else n

/-- A whole number that fits into 64 bits, with its sign or without one. -/
def isWord (n : Int) : Bool := -(twoTo 63 : Nat) ≤ n && n < (twoTo 64 : Nat)

/-- The same with 128 bits. -/
def isDoubleWord (n : Int) : Bool := -(twoTo 127 : Nat) ≤ n && n < (twoTo 128 : Nat)

/-- Digits with a point, where digits may be left out before it or behind it but not both. -/
def splitPoint (text : List Char) : Option (List Char × List Char × List Char) :=
  let (whole, rest) := spanDigits text
  let (fraction, rest) :=
    match rest with
    | '.' :: rest => spanDigits rest
    | rest => ([], rest)
  if whole.isEmpty && fraction.isEmpty then none else some (whole, fraction, rest)

/-- A decimal number, if it is finite. -/
def decimalOf? (text : List Char) : Option Binary64 := do
  let (negative, magnitude) := splitSign text
  let (whole, fraction, rest) ← splitPoint magnitude
  let exponent ←
    match rest with
    | [] => some 0
    | rest => readExponent rest
  Binary64.ofDecimal negative (digitsValue (whole ++ fraction)) (exponent - fraction.length)

/-- The texts of the numbers that are not finite. -/
def unbounded : List String := [".inf", ".Inf", ".INF", "+.inf", "+.Inf", "+.INF", "-.inf", "-.Inf", "-.INF",
  ".nan", ".NaN", ".NAN"]

/-- The value of a number with a fraction; one that is not finite is null. -/
def realValue? (text : String) : Option Json :=
  if unbounded.contains text then some .null
  else (decimalOf? text.toList).map fun x => .number (.real x)

/-! ### Scalars -/

/-- The texts of null. -/
def nullTexts : List String := ["null", "Null", "NULL", "~"]

/-- The truth value of a text. -/
def boolOf? (text : String) : Option Bool :=
  if ["true", "True", "TRUE"].contains text then some true
  else if ["false", "False", "FALSE"].contains text then some false
  else none

/-- The value of a plain scalar.  A whole number beyond 64 bits has none, unless it is so long that it
counts as one with a fraction. -/
def plainValue (text : String) : Option Json :=
  if text.isEmpty || nullTexts.contains text then some .null
  else
    match boolOf? text, intOf? text.toList with
    | some value, _ => some (.bool value)
    | none, some n =>
      if isWord n then some (.number (.int n))
      else if isDoubleWord n then none
      else some ((realValue? text).getD (.string text))
    | none, none =>
      if isPadded (splitSign text.toList).2 then some (.string text)
      else some ((realValue? text).getD (.string text))

/-- A tag that every text may use. -/
def coreTag (name : String) : String := "tag:yaml.org,2002:" ++ name

/-- The name of a tag of the text's own. -/
def localTag? (tag : String) : Option String :=
  match tag.toList with
  | ['!'] => some "!"
  | '!' :: name => some (String.ofList name)
  | _ => none

/-- The value of a scalar with a tag that every text may use. -/
def taggedValue (tag text : String) : Option Json :=
  if tag = coreTag "bool" then (boolOf? text).map .bool
  else if tag = coreTag "int" then
    match intOf? text.toList with
    | some n => if isWord n then some (.number (.int n)) else none
    | none => none
  else if tag = coreTag "float" then realValue? text
  else if tag = coreTag "null" then if nullTexts.contains text then some .null else none
  else some (.string text)

/-- The value of a scalar. -/
def scalarValue (tag : Option String) (plain : Bool) (text : String) : Option Json :=
  match tag with
  | some tag =>
    if (localTag? tag).isSome then if plain then plainValue text else some (.string text)
    else taggedValue tag text
  | none => if plain then plainValue text else some (.string text)

/-! ### Nodes -/

/-- A value under the tag of its node, if that is the text's own. -/
def underTag (p : Properties) (value : Json) : Json :=
  match p.tag.bind localTag? with
  | none => value
  | some name =>
    let shown :=
      match name.toList with
      | '!' :: c :: rest => c :: rest
      | name => name
    .object [("!" ++ String.ofList shown, value)]

/-- The string that a key becomes. -/
def keyText? : Json → Option String
  | .string text => some text
  | .number n => some n.text
  | .bool value => some (if value then "true" else "false")
  | _ => none

/-- Two keys are one. -/
def sameKey : Json → Json → Bool
  | .string a, .string b => a == b
  | .number a, .number b => a.sameNumber b
  | .bool a, .bool b => a == b
  | _, _ => false

/-- The object of entries, whose keys must differ. -/
def objectOf? (seen : List Json) (members : List (String × Json)) : List (Json × Json) →
    Option (List (String × Json))
  | [] => some members
  | (key, value) :: rest => do
    let name ← keyText? key
    if seen.any (sameKey key) then none
    else objectOf? (key :: seen) (Member.put name value members) rest

mutual

/-- The number of events that a node is made of: one for a scalar or a reference, and two more than the
parts for a collection. -/
def events : Node → Nat
  | .reference _ | .scalar _ _ _ => 1
  | .sequence _ items => eventsOfAll items + 2
  | .mapping _ entries => eventsOfEntries entries + 2

/-- The number of events of nodes. -/
def eventsOfAll : List Node → Nat
  | [] => 0
  | node :: rest => events node + eventsOfAll rest

/-- The number of events of entries. -/
def eventsOfEntries : List (Node × Node) → Nat
  | [] => 0
  | (key, value) :: rest => events key + events value + eventsOfEntries rest

end

/-- A node in front of others, under the number of its anchor. -/
def anchoredAs (p : Properties) (node : Node) (rest : List (Nat × Node)) : List (Nat × Node) :=
  match p.anchor with
  | some number => (number, node) :: rest
  | none => rest

mutual

/-- The nodes with anchors, in the order in which they begin. -/
def anchored : Node → List (Nat × Node)
  | .reference _ => []
  | .scalar p plain text => anchoredAs p (.scalar p plain text) []
  | .sequence p items => anchoredAs p (.sequence p items) (anchoredOfAll items)
  | .mapping p entries => anchoredAs p (.mapping p entries) (anchoredOfEntries entries)

/-- The nodes with anchors among nodes. -/
def anchoredOfAll : List Node → List (Nat × Node)
  | [] => []
  | node :: rest => anchored node ++ anchoredOfAll rest

/-- The nodes with anchors among entries. -/
def anchoredOfEntries : List (Node × Node) → List (Nat × Node)
  | [] => []
  | (key, value) :: rest => anchored key ++ (anchored value ++ anchoredOfEntries rest)

end

/-- The node of an anchor's number, the last one if there are several. -/
def target? (targets : List (Nat × Node)) (number : Nat) : Option Node :=
  (targets.reverse.find? fun entry => entry.1 == number).map Prod.snd

/-- The values of nodes one after the other, each with the number of references that it leaves. -/
def expandAll (expand : Node → Nat → Option (Json × Nat)) : List Node → Nat →
    Option (List Json × Nat)
  | [], left => some ([], left)
  | node :: rest, left => do
    let (value, left) ← expand node left
    let (values, left) ← expandAll expand rest left
    some (value :: values, left)

/-- The values of entries one after the other. -/
def expandEntries (expand : Node → Nat → Option (Json × Nat)) : List (Node × Node) → Nat →
    Option (List (Json × Json) × Nat)
  | [], left => some ([], left)
  | (key, value) :: rest, left => do
    let (key, left) ← expand key left
    let (value, left) ← expand value left
    let (values, left) ← expandEntries expand rest left
    some ((key, value) :: values, left)

/-- A node itself, or the node that it refers to if a reference is left. -/
def follow (targets : List (Nat × Node)) : Node → (left : Nat) → Option (Node × Nat)
  | .reference _, 0 => none
  | .reference number, left + 1 => (target? targets number).map (·, left)
  | node, left => some (node, left)

/-- The value of a node at most so many collections deep, and the number of references that are left. -/
def expand (targets : List (Nat × Node)) : (depth : Nat) → Node → (left : Nat) → Option (Json × Nat)
  | 0, node, left => do
    match ← follow targets node left with
    | (.scalar p plain text, left) =>
      (scalarValue p.tag plain text).map fun value => (underTag p value, left)
    | _ => none
  | depth + 1, node, left => do
    match ← follow targets node left with
    | (.scalar p plain text, left) =>
      (scalarValue p.tag plain text).map fun value => (underTag p value, left)
    | (.sequence p items, left) => do
      let (values, left) ← expandAll (expand targets depth) items left
      some (underTag p (.array values), left)
    | (.mapping p entries, left) => do
      let (values, left) ← expandEntries (expand targets depth) entries left
      let members ← objectOf? [] [] values
      some (underTag p (.object members), left)
    | (.reference _, _) => none

/-- The greatest depth of collections. -/
def depthLimit : Nat := 128

/-- How many references may be followed for each event. -/
def referencesPerEvent : Nat := 100

/-- The value of a node. -/
def Node.value? (node : Node) : Option Json :=
  (expand (anchored node) depthLimit node (referencesPerEvent * events node)).map Prod.fst

end ApiDecl.Yaml

namespace ApiDecl

/-- The value that a YAML text denotes, if it is well formed. -/
def Json.ofYaml? (text : String) : Option Json := do
  (← Yaml.Node.ofTokens? (← Yaml.Token.scan text)).value?

end ApiDecl
