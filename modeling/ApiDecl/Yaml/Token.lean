import ApiDecl.Yaml.Label
import ApiDecl.Yaml.Scalar

/-!
# YAML tokens

`Token.scan` cuts a text into tokens.  Collections are told by brackets or by indentation; for the latter
the scan sets tokens where indented lines begin and end.  Whether a scalar is a key is only seen at the
colon behind it, so the place of whatever may still turn out to be a key is remembered, one place for each
level of brackets.

* `Token`: the tokens;
* `Scan`: the tokens so far, with the indentations and the possible keys;
* `Scan.token`: one token more;
* `Token.scan`: all tokens of a text, if it is well formed as far as tokens go.
-/

namespace ApiDecl.Yaml

/-- A sort of collection. -/
inductive Shape where
  | sequence
  | mapping
  deriving DecidableEq

/-- A token. -/
inductive Token where
  /-- The directive that gives the version. -/
  | version (major minor : Nat)
  /-- The directive that gives the front for which a handle stands. -/
  | handle (handle front : String)
  | documentStart
  | documentEnd
  /-- Indented lines begin that make a collection. -/
  | indented (shape : Shape)
  /-- They end. -/
  | dedented
  | opening (shape : Shape)
  | closing (shape : Shape)
  /-- The dash of an item. -/
  | entry
  | comma
  | key
  | value
  /-- The node of an anchor stands here too. -/
  | reference (name : String)
  | anchor (name : String)
  | tag (name : TagName)
  | scalar (plain : Bool) (text : String)
  /-- The end of the text. -/
  | finish

/-- Something that may turn out to be a key. -/
structure Candidate where
  /-- Nothing else can stand there. -/
  required : Bool
  /-- The number of tokens before it. -/
  index : Nat
  line : Nat
  column : Nat

/-- The longest key. -/
def keyLimit : Nat := 1024

/-- A scan on its way. -/
structure Scan where
  tokens : Array Token
  /-- The indentations of open collections, innermost first. -/
  indents : List Nat
  /-- What may turn out to be a key within the innermost brackets. -/
  candidate : Option Candidate
  /-- The same for the brackets around. -/
  outer : List (Option Candidate)
  /-- A key may begin here. -/
  keyAllowed : Bool

namespace Scan

/-- The start of a scan. -/
def start : Scan := ⟨#[], [], none, [], true⟩

/-- The scan is between brackets. -/
def inFlow (s : Scan) : Bool := !s.outer.isEmpty

/-- One token more. -/
def push (s : Scan) (token : Token) : Scan := { s with tokens := s.tokens.push token }

/-- A token put among those before. -/
def insert (s : Scan) (index : Nat) (token : Token) : Scan :=
  { s with tokens := s.tokens.insertIdxIfInBounds index token }

/-! ### Indentation -/

/-- Ends the indented lines of each collection that `ends` holds for. -/
def dedentWhile (ends : Nat → Bool) (s : Scan) : List Nat → Scan
  | [] => { s with indents := [] }
  | indent :: rest =>
    if ends indent then dedentWhile ends (s.push .dedented) rest else { s with indents := indent :: rest }

/-- Ends the collections that are indented deeper than a column. -/
def dedent (s : Scan) (column : Nat) : Scan :=
  if s.inFlow then s else s.dedentWhile (column < ·) s.indents

/-- Ends all indented collections. -/
def dedentAll (s : Scan) : Scan := if s.inFlow then s else s.dedentWhile (fun _ => true) s.indents

/-- A column lies deeper than the collection around. -/
def isDeeper (s : Scan) (column : Nat) : Bool :=
  !s.inFlow &&
    match s.indents with
    | [] => true
    | indent :: _ => indent < column

/-- Begins a collection of indented lines before a token, unless one is there already. -/
def indent (s : Scan) (index column : Nat) (shape : Shape) : Scan :=
  if s.isDeeper column then
    { s.insert index (.indented shape) with indents := column :: s.indents }
  else s

/-! ### Keys -/

/-- Forgets a candidate, which must not be required. -/
def discard (s : Scan) : Option Scan :=
  match s.candidate with
  | some c => if c.required then none else some { s with candidate := none }
  | none => some s

/-- Remembers what comes next as a candidate if a key may begin here. -/
def remember (s : Scan) (p : Place) : Option Scan :=
  if s.keyAllowed then do
    let required := !s.inFlow && s.indents.head? == some p.column
    let s ← s.discard
    some { s with candidate := some ⟨required, s.tokens.size, p.line, p.column⟩ }
  else some s

/-- What is left of a candidate at a place: a key stays on its line and has a greatest length. -/
def Candidate.refresh (p : Place) : Option Candidate → Option (Option Candidate)
  | none => some none
  | some c =>
    if c.line < p.line || c.column + keyLimit < p.column then
      if c.required then none else some none
    else some (some c)

/-- Forgets the candidates that can no longer be keys at a place. -/
def refresh (s : Scan) (p : Place) : Option Scan := do
  let candidate ← Candidate.refresh p s.candidate
  let outer ← s.outer.mapM (Candidate.refresh p)
  some { s with candidate, outer }

/-! ### Tokens -/

/-- A directive, from behind its sign to the end of its line. -/
def directive (s : Scan) (places : List Place) : Option (Scan × List Place) := do
  let s ← s.dedentAll.discard
  let (name, rest) := Place.run isNameChar places
  if !Place.atGap rest then none
  else if name = "YAML".toList then
    let ((major, minor), rest) ← readVersion rest
    some ({ s with keyAllowed := false }.push (.version major minor), ← Place.afterLine? rest)
  else if name = "TAG".toList then
    let ((handle, front), rest) ← readHandle rest
    some ({ s with keyAllowed := false }.push (.handle handle front), ← Place.afterLine? rest)
  else none

/-- The border of a document. -/
def border (s : Scan) (token : Token) : Option Scan := do
  let s ← s.dedentAll.discard
  some ({ s with keyAllowed := false }.push token)

/-- An opening bracket. -/
def opening (s : Scan) (p : Place) (shape : Shape) : Option Scan := do
  let s ← s.remember p
  some ({ s with candidate := none, outer := s.candidate :: s.outer, keyAllowed := true }.push
    (.opening shape))

/-- A closing bracket. -/
def closing (s : Scan) (shape : Shape) : Option Scan := do
  let s ← s.discard
  let s :=
    match s.outer with
    | [] => s
    | candidate :: outer => { s with candidate, outer }
  some ({ s with keyAllowed := false }.push (.closing shape))

/-- A comma between brackets. -/
def comma (s : Scan) : Option Scan := do
  let s ← s.discard
  some ({ s with keyAllowed := true }.push .comma)

/-- The dash of an item. -/
def entry (s : Scan) (p : Place) : Option Scan :=
  if !s.inFlow && !s.keyAllowed then none
  else do
    let s ← (s.indent s.tokens.size p.column .sequence).discard
    some ({ s with keyAllowed := true }.push .entry)

/-- The question mark before a key. -/
def key (s : Scan) (p : Place) : Option Scan :=
  if !s.inFlow && !s.keyAllowed then none
  else do
    let s ← (s.indent s.tokens.size p.column .mapping).discard
    some ({ s with keyAllowed := !s.inFlow }.push .key)

/-- The colon before a value: what was remembered turns out to be a key. -/
def value (s : Scan) (p : Place) : Option Scan :=
  match s.candidate with
  | some c =>
    let s := (s.insert c.index .key).indent c.index c.column .mapping
    some ({ s with candidate := none, keyAllowed := false }.push .value)
  | none =>
    if !s.inFlow && !s.keyAllowed then none
    else
      let s := s.indent s.tokens.size p.column .mapping
      some ({ s with keyAllowed := !s.inFlow }.push .value)

/-- An anchor, a tag or a scalar, which may begin a key and does not let another one begin behind it. -/
def label (s : Scan) (p : Place) (token : Token) : Option Scan := do
  let s ← s.remember p
  some ({ s with keyAllowed := false }.push token)

/-- A block of lines. -/
def block (s : Scan) (folded : Bool) (places : List Place) : Option (Scan × List Place) := do
  let s ← s.discard
  let (text, rest) ← readBlock folded s.indents.head? places
  some ({ s with keyAllowed := true }.push (.scalar false (String.ofList text)), rest)

/-- A plain scalar; a key may begin behind the line ends that follow it. -/
def plain (s : Scan) (p : Place) (places : List Place) : Option (Scan × List Place) := do
  let indent :=
    match s.indents.head? with
    | none => 0
    | some indent => indent + 1
  let (text, broken, rest) ← readPlain s.inFlow indent [] [] places
  let s ← s.label p (.scalar true (String.ofList text))
  some ({ s with keyAllowed := broken }, rest)

/-- A plain scalar may start with this character.  A dash, a question mark or a colon starts one only with
no gap behind it. -/
def startsPlain (flow : Bool) (c : Char) (rest : List Place) : Bool :=
  let indicators := ['-', '?', ':', ',', '[', ']', '\x7b', '\x7d', '#', '&', '*', '!', '|', '>', '\'', '"',
    '%', '@', '\x60']
  let spaceFollows :=
    match rest with
    | [] => false
    | p :: _ => isSpace p.char
  !(isGap c || indicators.contains c) || (c = '-' && !spaceFollows) ||
    (!flow && (c = '?' || c = ':') && !Place.atGap rest)

/-- The next token, which starts at a place. -/
def token (s : Scan) (p : Place) (rest : List Place) : Option (Scan × List Place) :=
  let atGap := Place.atGap rest
  let single (s : Option Scan) : Option (Scan × List Place) := s.map (·, rest)
  if p.column = 0 && p.char = '%' then s.directive rest
  else if Place.isMarker '-' (p :: rest) then (s.border .documentStart).map (·, rest.drop 2)
  else if Place.isMarker '.' (p :: rest) then (s.border .documentEnd).map (·, rest.drop 2)
  else if p.char = '[' then single (s.opening p .sequence)
  else if p.char = '\x7b' then single (s.opening p .mapping)
  else if p.char = ']' then single (s.closing .sequence)
  else if p.char = '\x7d' then single (s.closing .mapping)
  else if p.char = ',' then single s.comma
  else if p.char = '-' && atGap then single (s.entry p)
  else if p.char = '?' && (s.inFlow || atGap) then single (s.key p)
  else if p.char = ':' && (s.inFlow || atGap) then single (s.value p)
  else if p.char = '*' then do
    let (name, rest) ← readAnchor rest
    some (← s.label p (.reference name), rest)
  else if p.char = '&' then do
    let (name, rest) ← readAnchor rest
    some (← s.label p (.anchor name), rest)
  else if p.char = '!' then do
    let (name, rest) ← readTag s.inFlow rest
    some (← s.label p (.tag name), rest)
  else if p.char = '|' && !s.inFlow then s.block false rest
  else if p.char = '>' && !s.inFlow then s.block true rest
  else if p.char = '\'' || p.char = '"' then do
    let (text, rest) ← readQuoted (p.char = '"') .text [] rest
    some (← s.label p (.scalar false (String.ofList text)), rest)
  else if startsPlain s.inFlow p.char rest then s.plain p (p :: rest)
  else none

/-! ### The whole scan -/

/-- Skips to the next token.  Behind the end of a line a key may begin; a tab does not count as
indentation. -/
def skip (flow keyAllowed comment : Bool) : List Place → Bool × List Place
  | [] => (keyAllowed, [])
  | p :: rest =>
    if isBreak p.char then skip flow (keyAllowed || !flow) false rest
    else if comment then skip flow keyAllowed true rest
    else if p.char = ' ' || (p.char = '\t' && (flow || !keyAllowed)) then skip flow keyAllowed false rest
    else if p.char = byteOrderMark && p.line = 0 && p.column = 0 then skip flow keyAllowed false rest
    else if p.char = '#' then skip flow keyAllowed true rest
    else (keyAllowed, p :: rest)

/-- Scans at most so many tokens, up to the end of the text. -/
def run : (limit : Nat) → Scan → List Place → Option Scan
  | 0, _, _ => none
  | limit + 1, s, places =>
    match skip s.inFlow s.keyAllowed false places with
    | (_, []) => s.border .finish
    | (keyAllowed, p :: rest) => do
      let s ← { s with keyAllowed }.refresh p
      let (s, rest) ← (s.dedent p.column).token p rest
      run limit s rest

end Scan

/-- The tokens of a text.  Each takes at least one character, so there are no more than these. -/
def Token.scan (text : String) : Option (List Token) := do
  let places ← Place.ofText? text
  let s ← Scan.start.run (places.length + 1) places
  some s.tokens.toList

end ApiDecl.Yaml
