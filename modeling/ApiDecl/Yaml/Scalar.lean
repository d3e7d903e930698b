import ApiDecl.Json.Token
import ApiDecl.Yaml.Place

/-!
# The text of a scalar

A scalar is written plainly, in quotes of either kind, or as a block of indented lines.  Each reader gives
the text of the scalar and what follows it.

* `gapText`: what a gap within a flowing scalar stands for;
* `readQuoted`: a scalar in quotes, from behind the opening quote;
* `readPlain`: a plain scalar;
* `readBlock`: a block, from behind its indicator.
-/

namespace ApiDecl.Yaml

/-- What a gap stands for: itself on one line, a space over one line end, and over several line ends all
but the first. -/
def gapText (gap : List Char) : List Char :=
  match gap.filter isBreak with
  | [] => gap
  | ['\n'] => [' ']
  | '\n' :: breaks => breaks
  | breaks => breaks

/-! ### Quoted scalars -/

/-- Where a reader stands within quotes.  Characters are kept last first. -/
inductive Quoting where
  | text
  /-- Within a gap. -/
  | gap (gap : List Char)
  /-- Within the gap after an escaped line end. -/
  | joined (gap : List Char)
  /-- Behind a backslash. -/
  | escape
  /-- Within the number of a character, with the digits that it still needs. -/
  | code (left value : Nat)
  /-- Behind a single quote, which ends the scalar unless it is doubled. -/
  | quote

/-- The text so far with the gap that has come to its end. -/
def Quoting.flush (done : List Char) : Quoting → List Char
  | .gap run => (gapText run.reverse).reverse ++ done
  | .joined run => run.filter isBreak ++ done
  | _ => done

/-- The gap with one more character. -/
def Quoting.extend (c : Char) : Quoting → Quoting
  | .gap run => .gap (c :: run)
  | .joined run => .joined (c :: run)
  | _ => .gap [c]

/-- The character that a letter stands for behind a backslash. -/
def escapedChar? (c : Char) : Option Char :=
  match c with
  | '0' => some '\x00'
  | 'a' => some '\x07'
  | 'b' => some '\x08'
  | 't' | '\t' => some '\t'
  | 'n' => some '\n'
  | 'v' => some '\x0B'
  | 'f' => some '\x0C'
  | 'r' => some '\r'
  | 'e' => some '\x1B'
  | ' ' => some ' '
  | '"' => some '"'
  | '/' => some '/'
  | '\\' => some '\\'
  | 'N' => some '\u0085'
  | '_' => some '\u00A0'
  | 'L' => some '\u2028'
  | 'P' => some '\u2029'
  | _ => none

/-- How many digits follow a letter behind a backslash. -/
def codeLength? (c : Char) : Option Nat :=
  match c with
  | 'x' => some 2
  | 'u' => some 4
  | 'U' => some 8
  | _ => none

/-- The character of a number. -/
def charOfCode? (code : Nat) : Option Char :=
  if code.isValidChar then some (Char.ofNat code) else none

/-- Reads a scalar in double or single quotes. -/
def readQuoted (double : Bool) : Quoting → (done : List Char) → List Place →
    Option (List Char × List Place)
  | .quote, done, [] => some (done.reverse, [])
  | .quote, done, p :: rest =>
    if p.char = '\'' then readQuoted double .text (p.char :: done) rest
    else some (done.reverse, p :: rest)
  | _, _, [] => none
  | .escape, done, p :: rest =>
    if isBreak p.char then readQuoted double (.joined []) done rest
    else
      match escapedChar? p.char, codeLength? p.char with
      | some c, _ => readQuoted double .text (c :: done) rest
      | none, some length => readQuoted double (.code length 0) done rest
      | none, none => none
  | .code left value, done, p :: rest =>
    match hexValue? p.char with
    | none => none
    | some digit =>
      if left ≤ 1 then
        match charOfCode? (16 * value + digit) with
        | none => none
        | some c => readQuoted double .text (c :: done) rest
      else readQuoted double (.code (left - 1) (16 * value + digit)) done rest
  | state, done, p :: rest =>
    if isGap p.char then readQuoted double (state.extend p.char) done rest
    else if Place.atMarker (p :: rest) then none
    else if double && p.char = '"' then some ((state.flush done).reverse, rest)
    else if !double && p.char = '\'' then readQuoted double .quote (state.flush done) rest
    else if double && p.char = '\\' then readQuoted double .escape (state.flush done) rest
    else readQuoted double .text (p.char :: state.flush done) rest

/-! ### Plain scalars -/

/-- The character separates or brackets items between brackets. -/
def isFlowIndicator (c : Char) : Bool := c = ',' || c = '[' || c = ']' || c = '\x7b' || c = '\x7d'

/-- A plain scalar ends behind a gap, before a comment, a line that is not indented enough or the border of
a document. -/
def endsBehindGap (flow : Bool) (indent : Nat) (gap : List Char) : List Place → Bool
  | [] => true
  | p :: rest =>
    p.char = '#' || (!flow && gap.any isBreak && p.column < indent) || Place.atMarker (p :: rest)

/-- A plain scalar ends before a colon with a gap, and between brackets also before an indicator. -/
def endsPlain (flow : Bool) (c : Char) (rest : List Place) : Bool :=
  (c = ':' && Place.atGap rest) || (flow && isFlowIndicator c)

/-- A colon stands right before an indicator, where it could be taken for two things. -/
def isDoubtful (flow : Bool) (c : Char) : List Place → Bool
  | [] => false
  | p :: _ => flow && c = ':' && (isFlowIndicator p.char || p.char = '?')

/-- Reads a plain scalar in lines indented this far; tells also whether line ends follow it. -/
def readPlain (flow : Bool) (indent : Nat) : (done gap : List Char) → List Place →
    Option (List Char × Bool × List Place)
  | done, gap, [] => some (done.reverse, gap.any isBreak, [])
  | done, gap, p :: rest =>
    if isGap p.char then
      if p.char = '\t' && gap.any isBreak && p.column < indent then none
      else readPlain flow indent done (p.char :: gap) rest
    else if !gap.isEmpty && endsBehindGap flow indent gap (p :: rest) then
      some (done.reverse, gap.any isBreak, p :: rest)
    else if isDoubtful flow p.char rest then none
    else if endsPlain flow p.char rest then some (done.reverse, gap.any isBreak, p :: rest)
    else readPlain flow indent (p.char :: ((gapText gap.reverse).reverse ++ done)) [] rest

/-! ### Blocks -/

/-- What becomes of the line ends behind the last line of a block. -/
inductive Chomping where
  /-- None is kept. -/
  | strip
  /-- One is kept. -/
  | clip
  | keep
  deriving DecidableEq

/-- How a block is read.  Characters are kept last first. -/
structure Block where
  /-- Line ends between lines of words are folded. -/
  folded : Bool
  chomping : Chomping
  /-- The least indentation of a block that tells its own by its lines. -/
  least : Nat
  /-- The indentation of the lines; zero until it is known. -/
  indent : Nat
  /-- The widest indentation of an empty line before the first other line. -/
  widest : Nat
  /-- Within the words of a line. -/
  inLine : Bool
  done : List Char
  /-- The end of the last line with words. -/
  ending : List Char
  /-- The ends of empty lines behind it. -/
  empties : List Char
  /-- The last line with words starts with a space or a tab. -/
  spaced : Bool

namespace Block

/-- The text of a block at its end. -/
def finish (b : Block) : List Char :=
  (match b.chomping with
    | .strip => b.done
    | .clip => b.ending ++ b.done
    | .keep => b.empties ++ (b.ending ++ b.done)).reverse

/-- The indentation is known, at the latest, at the first line with words. -/
def settle (b : Block) : Block :=
  if b.indent = 0 then { b with indent := max b.widest b.least } else b

/-- A line starts with a character: the line ends before it are folded or kept. -/
def startLine (b : Block) (c : Char) : Block :=
  let spaced := isSpace c
  let done :=
    if b.folded && b.ending == ['\n'] && !b.spaced && !spaced then
      if b.empties.isEmpty then ' ' :: b.done else b.empties ++ b.done
    else b.empties ++ (b.ending ++ b.done)
  { b with inLine := true, done := c :: done, ending := [], empties := [], spaced }

/-- Reads the lines of a block. -/
def read (b : Block) : List Place → Option (List Char × List Place)
  | [] => some (b.finish, [])
  | p :: rest =>
    if b.inLine then
      if isBreak p.char then read { b with inLine := false, ending := [p.char] } rest
      else read { b with done := p.char :: b.done } rest
    else
      let b := { b with widest := max b.widest p.column }
      let inside := b.indent = 0 || p.column < b.indent
      if inside && p.char = ' ' then read b rest
      else if inside && p.char = '\t' then none
      else if isBreak p.char then read { b with empties := p.char :: b.empties } rest
      else
        let b := b.settle
        if p.column = b.indent then read (b.startLine p.char) rest else some (b.finish, p :: rest)

end Block

/-- The chomping that a sign asks for. -/
def chomping? : List Place → Option (Chomping × List Place)
  | [] => none
  | p :: rest =>
    if p.char = '-' then some (.strip, rest) else if p.char = '+' then some (.keep, rest) else none

/-- The indentation that a digit asks for; zero is none. -/
def indentation? : List Place → Option (Nat × List Place)
  | [] => none
  | p :: rest => if p.char.isDigit then some (digitValue p.char, rest) else none

/-- The sign and the digit behind the indicator of a block, in either order. -/
def readHeader (places : List Place) : Chomping × Option Nat × List Place :=
  match chomping? places with
  | some (chomping, rest) =>
    match indentation? rest with
    | some (width, rest) => (chomping, some width, rest)
    | none => (chomping, none, rest)
  | none =>
    match indentation? places with
    | none => (.clip, none, places)
    | some (width, rest) =>
      match chomping? rest with
      | some (chomping, rest) => (chomping, some width, rest)
      | none => (.clip, some width, rest)

/-- Reads a block that stands within lines indented this far, if they are. -/
def readBlock (folded : Bool) (outer : Option Nat) (places : List Place) :
    Option (List Char × List Place) := do
  let (chomping, width, rest) := readHeader places
  if width = some 0 then none
  else
    let rest ← Place.afterLine? rest
    let least :=
      match outer with
      | none => 1
      | some outer => outer + 1
    let indent :=
      match width with
      | none => 0
      | some width => outer.getD 0 + width
    Block.read ⟨folded, chomping, least, indent, 0, false, [], [], [], false⟩ rest

end ApiDecl.Yaml
