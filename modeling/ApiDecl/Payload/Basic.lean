import ApiDecl.Calendar.DateTime
import ApiDecl.Json.Printer
import ApiDecl.Text.Base64

/-!
# Payloads

A payload is a JSON value that may also hold moments, calendar days and octets, in place of the strings
that stand for them on the wire.

* `Payload.ofJson`, `Payload.toJson`: a JSON value as a payload, and the wire form of a payload
  (`toJson_ofJson`: no JSON value is changed on the way through);
* `Payload.serialize`: the text of the wire form, written directly (`serialize_eq`);
* `Payload.depth`: how deeply containers are nested, which bounds every walk into a payload.
-/

namespace ApiDecl

/-- A JSON value with rich leaves. -/
inductive Payload where
  | null
  | bool (value : Bool)
  | number (value : Number)
  | string (value : String)
  | array (items : List Payload)
  | object (members : List (String × Payload))
  /-- A date-time. -/
  | moment (value : DateTime)
  /-- A calendar day. -/
  | day (value : Day)
  /-- Binary data. -/
  | octets (value : List UInt8)
  deriving Inhabited

namespace Payload

mutual

/-- A JSON value as a payload. -/
def ofJson : Json → Payload
  | .null => .null
  | .bool value => .bool value
  | .number value => .number value
  | .string value => .string value
  | .array items => .array (ofItems items)
  | .object members => .object (ofMembers members)

/-- Each item as a payload. -/
def ofItems : List Json → List Payload
  | [] => []
  | item :: rest => ofJson item :: ofItems rest

/-- Each member's value as a payload. -/
def ofMembers : List (String × Json) → List (String × Payload)
  | [] => []
  | (name, value) :: rest => (name, ofJson value) :: ofMembers rest

end

/-- The wire text of a moment. -/
def momentText (t : DateTime) : String := String.ofList t.text

/-- The wire text of a day. -/
def dayText (d : Day) : String := String.ofList d.shown

mutual

/-- The wire form of a payload: moments and days as text, octets in base64. -/
def toJson : Payload → Json
  | .null => .null
  | .bool value => .bool value
  | .number value => .number value
  | .string value => .string value
  | .array items => .array (toItems items)
  | .object members => .object (toMembers members)
  | .moment value => .string (momentText value)
  | .day value => .string (dayText value)
  | .octets value => .string (Base64.encode value)

/-- The wire form of each item. -/
def toItems : List Payload → List Json
  | [] => []
  | item :: rest => toJson item :: toItems rest

/-- The wire form of each member. -/
def toMembers : List (String × Payload) → List (String × Json)
  | [] => []
  | (name, value) :: rest => (name, toJson value) :: toMembers rest

end

mutual

/-- The text of the wire form. -/
def serialize : Payload → String
  | .null => "null"
  | .bool value => if value then "true" else "false"
  | .number value => value.text
  | .string value => quoteJson value
  | .array items => "[" ++ String.intercalate "," (serializeItems items) ++ "]"
  | .object members => "\x7b" ++ String.intercalate "," (serializeMembers members) ++ "\x7d"
  | .moment value => quoteJson (momentText value)
  | .day value => quoteJson (dayText value)
  | .octets value => quoteJson (Base64.encode value)

/-- The text of each item. -/
def serializeItems : List Payload → List String
  | [] => []
  | item :: rest => serialize item :: serializeItems rest

/-- The text of each member. -/
def serializeMembers : List (String × Payload) → List String
  | [] => []
  | (name, value) :: rest => (quoteJson name ++ ":" ++ serialize value) :: serializeMembers rest

end

/-- The name of a payload's type. -/
def typeName : Payload → String
  | .null => "null"
  | .bool _ => "boolean"
  | .number _ => "number"
  | .string _ => "string"
  | .array _ => "array"
  | .object _ => "object"
  | .moment _ => "date-time"
  | .day _ => "date"
  | .octets _ => "binary"

/-- The payload is null. -/
def isNull : Payload → Bool
  | .null => true
  | _ => false

/-- The text of a string. -/
def asString? : Payload → Option String
  | .string value => some value
  | _ => none

/-- The moment that a payload is. -/
def asMoment? : Payload → Option DateTime
  | .moment value => some value
  | _ => none

/-- The day that a payload is. -/
def asDay? : Payload → Option Day
  | .day value => some value
  | _ => none

/-- The octets that a payload is. -/
def asOctets? : Payload → Option (List UInt8)
  | .octets value => some value
  | _ => none

/-- The member of an object. -/
def member? (name : String) : Payload → Option Payload
  | .object members => Member.lookup name members
  | _ => none

mutual

/-- How deeply containers are nested. -/
def depth : Payload → Nat
  | .array items => depthItems items + 1
  | .object members => depthMembers members + 1
  | .null | .bool _ | .number _ | .string _ | .moment _ | .day _ | .octets _ => 0

/-- The depth of the deepest item. -/
def depthItems : List Payload → Nat
  | [] => 0
  | item :: rest => max (depth item) (depthItems rest)

/-- The depth of the deepest member. -/
def depthMembers : List (String × Payload) → Nat
  | [] => 0
  | (_, value) :: rest => max (depth value) (depthMembers rest)

end

/-! ### The wire form -/

mutual

/-- A JSON value comes back unchanged. -/
theorem toJson_ofJson : ∀ j : Json, (ofJson j).toJson = j
  | .null | .bool _ | .number _ | .string _ => rfl
  | .array items => by rw [ofJson, toJson, toItems_ofItems items]
  | .object members => by rw [ofJson, toJson, toMembers_ofMembers members]

theorem toItems_ofItems : ∀ items : List Json, toItems (ofItems items) = items
  | [] => rfl
  | item :: rest => by rw [ofItems, toItems, toJson_ofJson item, toItems_ofItems rest]

theorem toMembers_ofMembers : ∀ members : List (String × Json), toMembers (ofMembers members) = members
  | [] => rfl
  | (_, value) :: rest => by rw [ofMembers, toMembers, toJson_ofJson value, toMembers_ofMembers rest]

end

mutual

/-- The text is that of the wire form. -/
theorem serialize_eq : ∀ p : Payload, p.serialize = p.toJson.compact
  | .null | .bool _ | .number _ | .string _ | .moment _ | .day _ | .octets _ => rfl
  | .array items => by rw [serialize, toJson, Json.compact, serializeItems_eq items]
  | .object members => by rw [serialize, toJson, Json.compact, serializeMembers_eq members]

theorem serializeItems_eq :
    ∀ items : List Payload, serializeItems items = Json.compactItems (toItems items)
  | [] => rfl
  | item :: rest => by
    rw [serializeItems, toItems, Json.compactItems, serialize_eq item, serializeItems_eq rest]

theorem serializeMembers_eq :
    ∀ members : List (String × Payload),
      serializeMembers members = Json.compactMembers (toMembers members)
  | [] => rfl
  | (_, value) :: rest => by
    rw [serializeMembers, toMembers, Json.compactMembers, serialize_eq value,
      serializeMembers_eq rest]

end

/-! ### Depth -/

theorem depth_le_of_lookup {name : String} {child : Payload} :
    ∀ {members : List (String × Payload)}, Member.lookup name members = some child →
      child.depth ≤ depthMembers members
  | (key, value) :: rest, h => by
    rw [Member.lookup] at h
    rw [depthMembers]
    split at h
    · cases h; exact Nat.le_max_left ..
    · exact Nat.le_trans (depth_le_of_lookup h) (Nat.le_max_right ..)

theorem depth_le_of_getElem? {child : Payload} :
    ∀ {items : List Payload} (index : Nat), items[index]? = some child →
      child.depth ≤ depthItems items
  | item :: rest, 0, h => by
    obtain rfl : item = child := by simpa using h
    exact Nat.le_max_left ..
  | item :: rest, index + 1, h =>
    Nat.le_trans (depth_le_of_getElem? index (by simpa using h)) (Nat.le_max_right ..)

/-- A member replaced by one that is no deeper leaves the members no deeper. -/
theorem depthMembers_put_le (name : String) {child : Payload} {bound : Nat}
    (hc : child.depth ≤ bound) :
    ∀ {members : List (String × Payload)}, depthMembers members ≤ bound →
      depthMembers (Member.put name child members) ≤ bound
  | [], _ => by simpa [Member.put, depthMembers] using hc
  | (key, value) :: rest, h => by
    rw [depthMembers, Nat.max_le] at h
    rw [Member.put]
    split
    · rw [depthMembers, Nat.max_le]; exact ⟨hc, h.2⟩
    · rw [depthMembers, Nat.max_le]; exact ⟨h.1, depthMembers_put_le name hc h.2⟩

end Payload

end ApiDecl
