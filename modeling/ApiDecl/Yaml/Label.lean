import ApiDecl.Json.Token
import ApiDecl.Text.Utf8
import ApiDecl.Yaml.Place

/-!
# Anchors, tags and directives

What names a node or a document says about itself is written with an indicator and a label.  Each reader
starts behind the indicator and gives the label and what follows it.

* `readAnchor`: the name of an anchor or of a reference to it;
* `readTag`: a tag as a handle and what stands behind it;
* `readVersion`, `readHandle`: the two directives.
-/

namespace ApiDecl.Yaml

/-- The character may stand in a name. -/
def isNameChar (c : Char) : Bool := c.isAlphanum || c = '_' || c = '-'

/-- An anchor may be followed by this character. -/
def endsAnchor (c : Char) : Bool :=
  isGap c || ['?', ':', ',', ']', '\x7d', '%', '@', '\x60'].contains c

/-- Reads the name of an anchor. -/
def readAnchor (places : List Place) : Option (String × List Place) :=
  let (name, rest) := Place.run isNameChar places
  let ends :=
    match rest with
    | [] => true
    | p :: _ => endsAnchor p.char
  if name.isEmpty || !ends then none else some (String.ofList name, rest)

/-! ### Tags -/

/-- The character may stand in a tag; some indicators only where the tag is in brackets. -/
def isTagChar (bracketed : Bool) (c : Char) : Bool :=
  isNameChar c ||
    [';', '/', '?', ':', '@', '&', '=', '+', '$', '.', '!', '~', '*', '\'', '(', ')'].contains c ||
    (bracketed && [',', '[', ']'].contains c)

/-- Puts the characters of octets in front of a text. -/
def decoded (octets : List UInt8) (rest : Option (List Char × List Place)) :
    Option (List Char × List Place) := do
  let characters ← Utf8.decode octets
  let (text, places) ← rest
  some (characters ++ text, places)

/-- Reads the characters of a tag.  Octets may be written as numbers; a run of them makes characters. -/
def readTagText (bracketed : Bool) (octets : List UInt8) : List Place → Option (List Char × List Place)
  | [] => decoded octets (some ([], []))
  | p :: rest =>
    if p.char = '%' then
      match rest with
      | high :: low :: rest =>
        match hexValue? high.char, hexValue? low.char with
        | some a, some b => readTagText bracketed (octets ++ [UInt8.ofNat (16 * a + b)]) rest
        | _, _ => none
      | _ => none
    else if isTagChar bracketed p.char then
      decoded octets ((readTagText bracketed [] rest).map fun (text, places) => (p.char :: text, places))
    else decoded octets (some ([], p :: rest))

/-- Reads characters of a tag, at least one. -/
def readSomeTagText (bracketed : Bool) (places : List Place) : Option (List Char × List Place) :=
  match readTagText bracketed [] places with
  | some ([], _) => none
  | result => result

/-- What a tag is written as. -/
structure TagName where
  /-- The handle, which stands for a front; none for a tag in brackets and for the bare indicator. -/
  handle : String
  suffix : String

/-- Reads a tag without looking at what follows it. -/
def readTagName (places : List Place) : Option (TagName × List Place) :=
  match places with
  | [] => some (⟨"", "!"⟩, [])
  | p :: rest =>
    if p.char = '<' then
      match readSomeTagText true rest with
      | some (text, q :: rest) => if q.char = '>' then some (⟨"", String.ofList text⟩, rest) else none
      | _ => none
    else
      let (name, rest) := Place.run isNameChar (p :: rest)
      if Place.isNext '!' rest then do
        let (text, rest) ← readSomeTagText false (rest.drop 1)
        some (⟨"!" ++ String.ofList name ++ "!", String.ofList text⟩, rest)
      else do
        let (text, rest) ← readTagText false [] rest
        let suffix := String.ofList (name ++ text)
        some (if suffix.isEmpty then ⟨"", "!"⟩ else ⟨"!", suffix⟩, rest)

/-- Reads a tag, which ends at a gap, or between brackets at a comma. -/
def readTag (flow : Bool) (places : List Place) : Option (TagName × List Place) := do
  let (name, rest) ← readTagName places
  if Place.atGap rest || (flow && Place.isNext ',' rest) then some (name, rest) else none

/-! ### Directives -/

/-- Reads a number of at most nine digits. -/
def readCount (places : List Place) : Option (Nat × List Place) :=
  let (digits, rest) := Place.run Char.isDigit places
  if digits.isEmpty || 9 < digits.length then none else some (digitsValue digits, rest)

/-- Reads the version of a directive: its major and its minor number. -/
def readVersion (places : List Place) : Option ((Nat × Nat) × List Place) := do
  let (major, rest) ← readCount (Place.afterSpaces places)
  if Place.isNext '.' rest then
    let (minor, rest) ← readCount (rest.drop 1)
    some ((major, minor), rest)
  else none

/-- Reads the handle of a directive and the front that it stands for. -/
def readHandle (places : List Place) : Option ((String × String) × List Place) := do
  let rest := Place.afterSpaces places
  if Place.isNext '!' rest then
    let (name, rest) := Place.run isNameChar (rest.drop 1)
    let closed := Place.isNext '!' rest
    if !closed && !name.isEmpty then none
    else
      let rest := if closed then rest.drop 1 else rest
      let handle := "!" ++ String.ofList name ++ if closed then "!" else ""
      let behind := Place.afterSpaces rest
      if behind.length = rest.length then none
      else
        let (front, rest) ← readSomeTagText true behind
        if Place.atGap rest then some ((handle, String.ofList front), rest) else none
  else none

end ApiDecl.Yaml
