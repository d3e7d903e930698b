import ApiDecl.Json.Token

/-!
# TOML strings and keys

A string stands in double or single quotes, and in three of them it may run over several lines.  Only
double quotes know escapes.  Line ends are line feeds here, whatever the text has.

* `readString`: a string of any kind;
* `readKeys`: a key, which is a path of parts between dots;
* `lineFeeds?`, `lineEnd?`, `skipFiller`: line ends and what may stand between words.
-/

namespace ApiDecl.Toml

/-! ### Lines -/

/-- A text whose line ends are made line feeds; a carriage return can be nothing but a part of one. -/
def lineFeeds? : List Char → Option (List Char)
  | [] => some []
  | '\r' :: '\n' :: rest => (lineFeeds? rest).map ('\n' :: ·)
  | '\r' :: _ => none
  | c :: rest => (lineFeeds? rest).map (c :: ·)

/-- The character is a space or a tab. -/
def isSpace (c : Char) : Bool := c = ' ' || c = '\t'

/-- The text behind spaces and tabs. -/
def skipSpaces (text : List Char) : List Char := text.dropWhile isSpace

/-- The character may stand in a comment or in a string. -/
def isTextChar (c : Char) : Bool := c = '\t' || (' ' ≤ c && c ≤ '~') || '\u0080' ≤ c

/-- The text behind the end of a line, before which a comment may stand. -/
def lineEnd? (text : List Char) : Option (List Char) :=
  let text := skipSpaces text
  let text :=
    match text with
    | '#' :: rest => rest.dropWhile isTextChar
    | text => text
  match text with
  | [] => some []
  | '\n' :: rest => some rest
  | _ => none

/-- The text behind spaces, line ends and comments. -/
def skipFiller (comment : Bool) : List Char → Option (List Char)
  | [] => some []
  | c :: rest =>
    if c = '\n' then skipFiller false rest
    else if comment then if isTextChar c then skipFiller true rest else none
    else if isSpace c then skipFiller false rest
    else if c = '#' then skipFiller true rest
    else some (c :: rest)

/-! ### Strings -/

/-- Where a reader stands within a string. -/
inductive Quoting where
  | text
  /-- Behind a number of quotes, which end a string of several lines if there are three or more. -/
  | quotes (count : Nat)
  /-- Behind a backslash. -/
  | escape
  /-- Within the number of a character, with the digits that it still needs. -/
  | code (left value : Nat)
  /-- Behind a backslash and spaces, which must end the line. -/
  | joining
  /-- In the gap after an escaped line end. -/
  | joined

/-- The character that a letter stands for behind a backslash. -/
def escapedChar? (c : Char) : Option Char :=
  match c with
  | 'b' => some '\x08'
  | 't' => some '\t'
  | 'n' => some '\n'
  | 'f' => some '\x0C'
  | 'r' => some '\r'
  | '"' => some '"'
  | '\\' => some '\\'
  | _ => none

/-- How a string is written. -/
structure Quotes where
  /-- The quote that it stands in. -/
  quote : Char
  /-- It may run over several lines. -/
  long : Bool

/-- Double quotes know escapes. -/
def Quotes.hasEscapes (q : Quotes) : Bool := q.quote = '"'

/-- Takes a character of a string in the midst of text. -/
def Quotes.take (q : Quotes) (done : List Char) (c : Char) : Option (Quoting × List Char) :=
  if c = q.quote then some (.quotes 1, done)
  else if q.hasEscapes && c = '\\' then some (.escape, done)
  else if isTextChar c || (q.long && c = '\n') then some (.text, c :: done)
  else none

/-- Takes a character of a string behind a backslash. -/
def Quotes.takeEscaped (q : Quotes) (done : List Char) (c : Char) : Option (Quoting × List Char) :=
  match escapedChar? c with
  | some escaped => some (.text, escaped :: done)
  | none =>
    if c = 'u' then some (.code 4 0, done)
    else if c = 'U' then some (.code 8 0, done)
    else if q.long && c = '\n' then some (.joined, done)
    else if q.long && isSpace c then some (.joining, done)
    else none

/-- Takes a digit of the number of a character. -/
def takeCode (left value : Nat) (done : List Char) (c : Char) : Option (Quoting × List Char) := do
  let value := 16 * value + (← hexValue? c)
  if 1 < left then some (.code (left - 1) value, done)
  else if value.isValidChar then some (.text, Char.ofNat value :: done)
  else none

/-- Takes a character wherever the reader stands, but not behind quotes. -/
def Quotes.step (q : Quotes) (done : List Char) (c : Char) : Quoting → Option (Quoting × List Char)
  | .text | .quotes _ => q.take done c
  | .escape => q.takeEscaped done c
  | .code left value => takeCode left value done c
  | .joining =>
    if c = '\n' then some (.joined, done) else if isSpace c then some (.joining, done) else none
  | .joined => if c = '\n' || isSpace c then some (.joined, done) else q.take done c

/-- Reads a string from behind its opening quotes. -/
def Quotes.read (q : Quotes) : Quoting → (done : List Char) → List Char →
    Option (String × List Char)
  | .quotes count, done, text =>
    let quotes := List.replicate count q.quote
    if !q.long then some (String.ofList done.reverse, text)
    else
      match text with
      | [] => if 3 ≤ count then some (String.ofList (quotes.drop 3 ++ done).reverse, []) else none
      | c :: rest =>
        if c = q.quote then if count = 5 then none else q.read (.quotes (count + 1)) done rest
        else if 3 ≤ count then some (String.ofList (quotes.drop 3 ++ done).reverse, c :: rest)
        else
          match q.take (quotes ++ done) c with
          | some (state, done) => q.read state done rest
          | none => none
  | _, _, [] => none
  | state, done, c :: rest =>
    match q.step done c state with
    | some (state, done) => q.read state done rest
    | none => none

/-- Reads a string of one line from behind its opening quote. -/
def readShort (quote : Char) (text : List Char) : Option (String × List Char) :=
  Quotes.read ⟨quote, false⟩ .text [] text

/-- Reads a string from behind its first quote.  A line end right behind three quotes does not count. -/
def readString (quote : Char) (text : List Char) : Option (String × List Char) :=
  match text with
  | second :: third :: rest =>
    if second = quote && third = quote then
      let rest :=
        match rest with
        | '\n' :: rest => rest
        | rest => rest
      Quotes.read ⟨quote, true⟩ .text [] rest
    else readShort quote text
  | text => readShort quote text

/-! ### Keys -/

/-- The character may stand in a key without quotes. -/
def isBareChar (c : Char) : Bool := c.isAlphanum || c = '_' || c = '-'

/-- Reads one part of a key. -/
def readKey (text : List Char) : Option (String × List Char) :=
  match text with
  | '"' :: rest => readShort '"' rest
  | '\'' :: rest => readShort '\'' rest
  | text =>
    let bare := text.takeWhile isBareChar
    if bare.isEmpty then none else some (String.ofList bare, text.dropWhile isBareChar)

/-- The greatest number of parts of a key, and the greatest depth of values. -/
def depthLimit : Nat := 79

/-- Reads a key of at most so many parts, with the spaces around them. -/
def readKeyParts : (limit : Nat) → List Char → Option (List String × List Char)
  | 0, _ => none
  | limit + 1, text => do
    let (key, rest) ← readKey (skipSpaces text)
    match skipSpaces rest with
    | '.' :: rest => do
      let (keys, rest) ← readKeyParts limit rest
      some (key :: keys, rest)
    | rest => some ([key], rest)

/-- Reads a key. -/
def readKeys (text : List Char) : Option (List String × List Char) := readKeyParts depthLimit text

end ApiDecl.Toml
