import ApiDecl.Description.Reading
import ApiDecl.Json.Reader
import ApiDecl.Options
import ApiDecl.Toml.Document
import ApiDecl.Yaml.Value

/-!
# Descriptions and options as text

A description is written in JSON or in YAML, and options in TOML.  Any text denotes a JSON value, which is
then read.
-/

namespace ApiDecl

/-- A language that descriptions are written in. -/
inductive SourceLanguage where
  | json
  | yaml
  deriving DecidableEq

/-- The value that a text denotes, if it is well formed. -/
def SourceLanguage.value? : SourceLanguage → String → Option Json
  | .json => Json.parse
  | .yaml => Json.ofYaml?

/-- Reads the text of a document. -/
def Document.ofText (language : SourceLanguage) (text : String) : Except Error Document :=
  match language.value? text with
  | some value => Document.ofJson value
  | none => .error .text

/-- An empty table or array holds nothing. -/
def isEmptyContainer : Json → Bool
  | .array [] | .object [] => true
  | _ => false

/-- Reads the text of options. -/
def Options.ofText (text : String) : Except Error Options :=
  match Json.ofToml? text with
  | some (.object members) =>
    match Options.ofMembers? isEmptyContainer members with
    | some options => .ok options
    | none => .error .options
  | _ => .error .options

end ApiDecl
