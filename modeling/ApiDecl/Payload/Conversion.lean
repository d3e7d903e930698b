import ApiDecl.Transform.Liveness
import ApiDecl.Transform.Run

/-!
# Conversions

The built-in conversions turn the strings of the wire into rich values, and rich values into strings.
What cannot be turned stays as it is.

* `Kind.conversion`: the conversion of a kind in a direction;
* `Table.convertKind`: programs of one kind run with it, which always has a result since conversions
  never nest values deeper (`level_conversion`);
* `Table.convert`: the programs of links run for every kind, dates first.
-/

namespace ApiDecl

/-- Which way a payload travels. -/
inductive Direction where
  /-- From the wire to rich values. -/
  | inbound
  /-- From rich values to the wire. -/
  | outbound
  deriving DecidableEq

namespace Payload

/-- A string read as a moment, else as a day. -/
def parseDate : Payload → Payload
  | .string text =>
    match DateTime.parse text.toList with
    | some value => .moment value
    | none =>
      match Day.parse text.toList with
      | some value => .day value
      | none => .string text
  | value => value

/-- A day written by its pattern. -/
def formatDay (d : Day) : String := String.ofList d.text

/-- A moment or a day written as a string. -/
def formatDate : Payload → Payload
  | .moment value => .string (momentText value)
  | .day value => .string (formatDay value)
  | value => value

/-- A string read as base64, in the standard alphabet or else in the one for addresses. -/
def decodeBinary : Payload → Payload
  | .string text =>
    match Base64.decode Base64.standard text with
    | some value => .octets value
    | none =>
      match Base64.decode Base64.urlSafe text with
      | some value => .octets value
      | none => .string text
  | value => value

/-- Octets written in base64. -/
def encodeBinary : Payload → Payload
  | .octets value => .string (Base64.encode value)
  | value => value

end Payload

/-- The conversion of a kind in a direction. -/
def Kind.conversion : Kind → Direction → Payload → Payload
  | .date, .inbound => .parseDate
  | .date, .outbound => .formatDate
  | .binary, .inbound => .decodeBinary
  | .binary, .outbound => .encodeBinary

/-- A conversion keeps arrays and objects, and makes none. -/
theorem depth_conversion (kind : Kind) (direction : Direction) (value : Payload) :
    (kind.conversion direction value).depth ≤ value.depth := by
  cases kind <;> cases direction <;> cases value <;>
    simp only [Kind.conversion, Payload.parseDate, Payload.formatDate, Payload.decodeBinary,
      Payload.encodeBinary, Nat.le_refl]
  · split <;> (try split) <;> simp [Payload.depth]
  · simp [Payload.depth]
  · simp [Payload.depth]
  · split <;> (try split) <;> simp [Payload.depth]
  · simp [Payload.depth]

theorem level_conversion (kind : Kind) (direction : Direction) :
    (Handler.ofFunction (kind.conversion direction)).Level :=
  Handler.level_ofFunction (depth_conversion kind direction)

namespace Table

/-- The payload after programs of one kind. -/
def convertKind (t : Table) (kind : Kind) (direction : Direction) (programs : List Program)
    (payload : Payload) : Payload :=
  ((runPrograms (t.entries kind) (.ofFunction (kind.conversion direction)) payload.depth programs
    ((), payload)).get
      (runPrograms_isSome _ (level_conversion kind direction) programs ((), payload))).2

/-- The payload after the programs of links. -/
def convert (t : Table) (links : Links) (direction : Direction) (payload : Payload) : Payload :=
  Kind.all.foldl (fun payload kind => t.convertKind kind direction (links.programs kind) payload)
    payload

end Table

end ApiDecl
