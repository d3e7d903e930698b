import ApiDecl.Proofs.Payload.RoundTrip

/-!
# The wire form of payloads

Converting a payload to the wire changes how its rich values are held, and not what they are on the
wire: each of these conversions keeps the wire form of one value (`Payload.toJson_conversion`), so
changing any slots by them keeps the wire form of the whole (`Payload.toJson_mapSlots`), whichever
slots the programs lead to (`Table.toJson_convert`).

A payload may be written without its wire form being made first.  A `Rendering` says what each kind
of value is written as, be it text or anything else, and every rendering writes the payload as it
writes the wire form (`Payload.render_eq`).
-/

namespace ApiDecl

/-! ### Renderings -/

/-- What each kind of value is written as, given what its parts are written as. -/
structure Rendering (α : Type) where
  null : α
  bool : Bool → α
  number : Number → α
  string : String → α
  array : List α → α
  object : List (String × α) → α

namespace Rendering

/-- Values are written as themselves. -/
def value : Rendering Json := ⟨.null, .bool, .number, .string, .array, .object⟩

/-- Values are written as text without blanks. -/
def text : Rendering String where
  null := "null"
  bool value := if value then "true" else "false"
  number := Number.text
  string := quoteJson
  array items := "[" ++ String.intercalate "," items ++ "]"
  object members := "\x7b" ++ String.intercalate ","
    (members.map fun (name, value) => quoteJson name ++ ":" ++ value) ++ "\x7d"

end Rendering

section

variable {α : Type}

namespace Json

mutual

/-- Writes a value. -/
def render (r : Rendering α) : Json → α
  | .null => r.null
  | .bool value => r.bool value
  | .number value => r.number value
  | .string value => r.string value
  | .array items => r.array (renderItems r items)
  | .object members => r.object (renderMembers r members)

/-- Writes each item. -/
def renderItems (r : Rendering α) : List Json → List α
  | [] => []
  | item :: rest => render r item :: renderItems r rest

/-- Writes the value of each member. -/
def renderMembers (r : Rendering α) : List (String × Json) → List (String × α)
  | [] => []
  | (name, value) :: rest => (name, render r value) :: renderMembers r rest

end

mutual

theorem render_value : ∀ j : Json, j.render .value = j
  | .null | .bool _ | .number _ | .string _ => rfl
  | .array items => by
    rw [render, renderItems_value items]
    rfl
  | .object members => by
    rw [render, renderMembers_value members]
    rfl

theorem renderItems_value : ∀ items : List Json, renderItems .value items = items
  | [] => rfl
  | item :: rest => by rw [renderItems, render_value item, renderItems_value rest]

theorem renderMembers_value :
    ∀ members : List (String × Json), renderMembers .value members = members
  | [] => rfl
  | (_, value) :: rest => by rw [renderMembers, render_value value, renderMembers_value rest]

end

mutual

theorem render_text : ∀ j : Json, j.render .text = j.compact
  | .null | .bool _ | .number _ | .string _ => rfl
  | .array items => by
    rw [render, renderItems_text items]
    rfl
  | .object members => by
    rw [render, compact, ← renderMembers_text members]
    rfl

theorem renderItems_text : ∀ items : List Json, renderItems .text items = compactItems items
  | [] => rfl
  | item :: rest => by rw [renderItems, compactItems, render_text item, renderItems_text rest]

theorem renderMembers_text : ∀ members : List (String × Json),
    ((renderMembers .text members).map fun (name, value) => quoteJson name ++ ":" ++ value) =
      compactMembers members
  | [] => rfl
  | (_, value) :: rest => by
    rw [renderMembers, List.map_cons, compactMembers, render_text value, renderMembers_text rest]

end

end Json

namespace Payload

mutual

/-- Writes a payload: moments and days as text, octets in base64. -/
def render (r : Rendering α) : Payload → α
  | .null => r.null
  | .bool value => r.bool value
  | .number value => r.number value
  | .string value => r.string value
  | .array items => r.array (renderItems r items)
  | .object members => r.object (renderMembers r members)
  | .moment value => r.string (momentText value)
  | .day value => r.string (dayText value)
  | .octets value => r.string (Base64.encode value)

/-- Writes each item. -/
def renderItems (r : Rendering α) : List Payload → List α
  | [] => []
  | item :: rest => render r item :: renderItems r rest

/-- Writes the value of each member. -/
def renderMembers (r : Rendering α) : List (String × Payload) → List (String × α)
  | [] => []
  | (name, value) :: rest => (name, render r value) :: renderMembers r rest

end

mutual

/-- **A payload is written** as its wire form is. -/
theorem render_eq (r : Rendering α) : ∀ v : Payload, v.render r = v.toJson.render r
  | .null | .bool _ | .number _ | .string _ | .moment _ | .day _ | .octets _ => rfl
  | .array items => by rw [render, toJson, Json.render, renderItems_eq r items]
  | .object members => by rw [render, toJson, Json.render, renderMembers_eq r members]

theorem renderItems_eq (r : Rendering α) :
    ∀ items : List Payload, renderItems r items = Json.renderItems r (toItems items)
  | [] => rfl
  | item :: rest => by
    rw [renderItems, toItems, Json.renderItems, render_eq r item, renderItems_eq r rest]

theorem renderMembers_eq (r : Rendering α) : ∀ members : List (String × Payload),
    renderMembers r members = Json.renderMembers r (toMembers members)
  | [] => rfl
  | (_, value) :: rest => by
    rw [renderMembers, toMembers, Json.renderMembers, render_eq r value, renderMembers_eq r rest]

end

/-- The text of a payload is one of its renderings. -/
theorem serialize_eq_render (v : Payload) : v.serialize = v.render .text := by
  rw [render_eq, Json.render_text, serialize_eq]

/-! ### Conversions to the wire -/

/-- By its pattern a day is written as it shows itself. -/
theorem formatDay_eq (d : Day) : formatDay d = dayText d :=
  congrArg String.ofList d.shown_eq_text.symm

/-- A conversion to the wire keeps the wire form of the value. -/
theorem toJson_conversion (kind : Kind) (v : Payload) :
    (kind.conversion .outbound v).toJson = v.toJson := by
  cases kind with
  | date =>
    cases v with
    | day d => exact congrArg Json.string (formatDay_eq d)
    | _ => rfl
  | binary => cases v <;> rfl

mutual

/-- **Slots changed** by what keeps the wire form leave the wire form of the whole. -/
theorem toJson_mapSlots : ∀ (v : Payload) {g : Route → Payload → Payload},
    (∀ route w, (g route w).toJson = w.toJson) → (mapSlots g v).toJson = v.toJson
  | .array items, _, h => by
    rw [mapSlots, h, toJson, toJson, toItems_mapItems items h]
  | .object members, _, h => by
    rw [mapSlots, h, toJson, toJson, toMembers_mapMembers members h]
  | .null, _, h | .bool _, _, h | .number _, _, h | .string _, _, h | .moment _, _, h
  | .day _, _, h | .octets _, _, h => by rw [mapSlots_leaf _ rfl, h]

theorem toItems_mapItems : ∀ (items : List Payload) {g : Route → Payload → Payload} {index : Nat},
    (∀ route w, (g route w).toJson = w.toJson) → toItems (mapItems g index items) = toItems items
  | [], _, _, _ => rfl
  | item :: rest, _, _, h => by
    rw [mapItems, toItems, toItems, toJson_mapSlots item fun route => h (_ :: route),
      toItems_mapItems rest h]

theorem toMembers_mapMembers : ∀ (members : List (String × Payload))
    {g : Route → Payload → Payload} {index : Nat},
    (∀ route w, (g route w).toJson = w.toJson) →
      toMembers (mapMembers g index members) = toMembers members
  | [], _, _, _ => rfl
  | (_, value) :: rest, _, _, h => by
    rw [mapMembers, toMembers, toMembers, toJson_mapSlots value fun route => h (_ :: route),
      toMembers_mapMembers rest h]

end

end Payload

end

namespace Table

/-- Programs of one kind, run towards the wire, keep the wire form. -/
theorem toJson_convertKind (t : Table) (kind : Kind) (programs : List Program) (v : Payload) :
    (t.convertKind kind .outbound programs v).toJson = v.toJson := by
  rw [convertKind_eq]
  refine Payload.toJson_mapSlots v fun route w => ?_
  split_ifs
  · exact Payload.toJson_conversion kind w
  · rfl

theorem toJson_convert (t : Table) (links : Links) (v : Payload) :
    (t.convert links .outbound v).toJson = v.toJson :=
  calc
    _ = (t.convertKind .binary .outbound (links.programs .binary)
          (t.convertKind .date .outbound (links.programs .date) v)).toJson := rfl
    _ = v.toJson := by rw [toJson_convertKind, toJson_convertKind]

end Table

/-- **The wire text is one.**  Converting a payload to the wire keeps its wire form, whatever table
and links lead the conversions.  Every rendering writes a payload as it writes the wire form: as a
value that is the wire form itself, and as text it is the text of that.  And a JSON value held as a
payload has itself for its wire form, its members in their order. -/
theorem outbound_keeps_wire :
    (∀ (t : Table) (links : Links) (v : Payload),
      (t.convert links .outbound v).toJson = v.toJson) ∧
    (∀ v : Payload, (∀ (α : Type) (r : Rendering α), v.render r = v.toJson.render r) ∧
      v.render .value = v.toJson ∧ v.serialize = v.render .text ∧ v.serialize = v.toJson.compact) ∧
    ∀ j : Json, (Payload.ofJson j).toJson = j := by
  refine ⟨Table.toJson_convert, fun v => ⟨fun _ r => v.render_eq r, ?_, v.serialize_eq_render,
    v.serialize_eq⟩, Payload.toJson_ofJson⟩
  rw [Payload.render_eq, Json.render_value]

end ApiDecl
