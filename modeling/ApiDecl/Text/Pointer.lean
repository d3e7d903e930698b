import ApiDecl.Json.Token
import ApiDecl.Text.Utf8

/-!
# JSON pointers

Texts that address a place in a document: segments behind slashes, after a base.

* `Pointer.escape`, `Pointer.unescape`: `~` and `/` inside a segment written as `~0` and `~1`;
* `Pointer.percentDecode`: `%` escapes read as UTF-8;
* `Pointer.decodeSegment`: a segment of a reference, with both kinds of escape;
* `Pointer.child`: the address of a part.
-/

namespace ApiDecl

namespace Pointer

/-- A character of a segment. -/
def escapeChar (c : Char) : List Char :=
  if c = '~' then ['~', '0'] else if c = '/' then ['~', '1'] else [c]

/-- The escaped form of a segment. -/
def escape (segment : List Char) : List Char := segment.flatMap escapeChar

/-- Reads `~1` as a slash, from left to right. -/
def unescapeSlash : List Char → List Char
  | [] => []
  | '~' :: '1' :: rest => '/' :: unescapeSlash rest
  | c :: rest => c :: unescapeSlash rest

/-- Reads `~0` as a tilde, from left to right. -/
def unescapeTilde : List Char → List Char
  | [] => []
  | '~' :: '0' :: rest => '~' :: unescapeTilde rest
  | c :: rest => c :: unescapeTilde rest

/-- Undoes the two escapes: slashes first, then tildes. -/
def unescape (segment : List Char) : List Char := unescapeTilde (unescapeSlash segment)

/-- Puts the characters of a run of octets, last octet first, in front of more text. -/
def flushOctets (run : List UInt8) (rest : Option (List Char)) : Option (List Char) :=
  match Utf8.decode run.reverse, rest with
  | some front, some rest => some (front ++ rest)
  | _, _ => none

/-- Reads each run of `%` escapes as UTF-8; a `%` without two hexadecimal digits stands for itself.
Since a literal character is complete, the text is UTF-8 when every run is. -/
def percentDecode (run : List UInt8) : List Char → Option (List Char)
  | [] => flushOctets run (some [])
  | '%' :: high :: low :: rest =>
    match hexValue? high, hexValue? low with
    | some h, some l => percentDecode (UInt8.ofNat (16 * h + l) :: run) rest
    | _, _ => flushOctets run ((percentDecode [] (high :: low :: rest)).map ('%' :: ·))
  | c :: rest => flushOctets run ((percentDecode [] rest).map (c :: ·))

/-- The text of a segment: `%` escapes are read first, unless they are not UTF-8. -/
def decodeSegment (segment : List Char) : List Char :=
  unescape ((percentDecode [] segment).getD segment)

/-- The address of a part under a base. -/
def child (base segment : String) : String :=
  base ++ "/" ++ String.ofList (escape segment.toList)

end Pointer

end ApiDecl
