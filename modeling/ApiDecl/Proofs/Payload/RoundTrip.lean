import ApiDecl.Proofs.Calendar.DateTime
import ApiDecl.Proofs.Text.Base64
import ApiDecl.Proofs.Transform.Denotation

/-!
# Payloads there and back

What has been converted from the wire is converted to the wire and back without a loss, and on the
wire it is what it was but for the spelling of the strings that were read (`convert_round_trip`).

At a slot where both kinds of conversion apply, a string is read as a moment or a day if it can be,
and else as octets.  Octets are written without a hyphen, and every moment and day has one, so that
they are read as octets again (`convertSlot_round_trip`).

* `Table.convert_eq`: the conversion of a payload is that of its slots;
* `Json.mapStrings`, `canonicalText`: strings replaced, and the spelling that they come back in.
-/

namespace ApiDecl

open Payload

/-! ### Spellings -/

/-- The spelling of a text as a moment or a day, if it is one. -/
def dateText? (text : String) : Option String :=
  match DateTime.parse text.toList with
  | some t => some (momentText t)
  | none => (Day.parse text.toList).map formatDay

/-- The spelling of a text as octets, if it stands for any. -/
def binaryText? (text : String) : Option String :=
  match Base64.decode Base64.standard text with
  | some value => some (Base64.encode value)
  | none => (Base64.decode Base64.urlSafe text).map Base64.encode

/-- The spelling in which a string comes back that is read as a date, as octets, or as both. -/
def canonicalText (dated encoded : Bool) (text : String) : String :=
  ((if dated then dateText? text else none).or
    (if encoded then binaryText? text else none)).getD text

/-! ### One slot -/

/-- The value of a slot where dates, octets or both are converted. -/
def convertSlot (direction : Direction) (dated encoded : Bool) (v : Payload) : Payload :=
  let v := if dated then Kind.date.conversion direction v else v
  if encoded then Kind.binary.conversion direction v else v

theorem parseDate_momentText {t : DateTime} (h : t.Written) :
    parseDate (.string (momentText t)) = .moment t := by
  simp only [parseDate, momentText, String.toList_ofList, DateTime.parse_text h]

theorem parseDate_formatDay (d : Day) : parseDate (.string (formatDay d)) = .day d := by
  simp only [parseDate, formatDay, String.toList_ofList, DateTime.parse_day_text, Day.parse_text]

theorem parseDate_encode (octets : List UInt8) :
    parseDate (.string (Base64.encode octets)) = .string (Base64.encode octets) := by
  have h := Base64.hyphen_not_mem_encode octets
  simp only [parseDate, DateTime.parse_eq_none h, Day.parse_eq_none h]

theorem decodeBinary_encode (octets : List UInt8) :
    decodeBinary (.string (Base64.encode octets)) = .octets octets := by
  simp only [decodeBinary, Base64.decode_encode]

variable {dated encoded : Bool} {v : Payload} {text : String}

/-- What is no string and is no moment of which the wire text says less than all. -/
structure Payload.Legible (v : Payload) : Prop where
  not_string : ∀ text, v ≠ .string text
  written : ∀ t, v = .moment t → t.Written

/-- A string is read as a moment or a day, to be written in its spelling, or it is left. -/
theorem parseDate_string_cases (text : String) :
    (dateText? text = none ∧ parseDate (.string text) = .string text) ∨
      ∃ spelling v, dateText? text = some spelling ∧ parseDate (.string text) = v ∧
        formatDate v = .string spelling ∧ decodeBinary v = v ∧ v.Legible := by
  cases ht : DateTime.parse text.toList with
  | some t =>
    have hlegible : (Payload.moment t).Legible := by
      refine ⟨fun _ h => (by cases h), ?_⟩
      rintro _ ⟨⟩
      exact DateTime.written_of_parse ht
    refine Or.inr ⟨momentText t, .moment t, ?_, ?_, rfl, rfl, hlegible⟩
    · simp only [dateText?, ht]
    · simp only [parseDate, ht]
  | none =>
    cases hd : Day.parse text.toList with
    | some d =>
      have hlegible : (Payload.day d).Legible := ⟨fun _ h => (by cases h), fun _ h => by cases h⟩
      refine Or.inr ⟨formatDay d, .day d, ?_, ?_, rfl, rfl, hlegible⟩
      · simp only [dateText?, ht, hd, Option.map_some]
      · simp only [parseDate, ht, hd]
    | none => exact Or.inl ⟨by simp [dateText?, ht, hd], by simp [parseDate, ht, hd]⟩

/-- A string is read as octets, or it is left. -/
theorem decodeBinary_string_cases (text : String) :
    (binaryText? text = none ∧ decodeBinary (.string text) = .string text) ∨
      ∃ value, binaryText? text = some (Base64.encode value) ∧
        decodeBinary (.string text) = .octets value := by
  cases hs : Base64.decode Base64.standard text with
  | some value => exact Or.inr ⟨value, by simp [binaryText?, hs], by simp [decodeBinary, hs]⟩
  | none =>
    cases hu : Base64.decode Base64.urlSafe text with
    | some value =>
      exact Or.inr ⟨value, by simp [binaryText?, hs, hu], by simp [decodeBinary, hs, hu]⟩
    | none => exact Or.inl ⟨by simp [binaryText?, hs, hu], by simp [decodeBinary, hs, hu]⟩

/-- What is no string is not read as anything else. -/
theorem convertSlot_inbound_of_ne (h : ∀ text, v ≠ .string text) :
    convertSlot .inbound dated encoded v = v := by
  cases v with
  | string text => exact absurd rfl (h text)
  | _ => cases dated <;> cases encoded <;> rfl

theorem convertSlot_outbound_string (text : String) :
    convertSlot .outbound dated encoded (.string text) = .string text := by
  cases dated <;> cases encoded <;> rfl

theorem convertSlot_inbound_dated (h : parseDate (.string text) = v) (hv : decodeBinary v = v) :
    convertSlot .inbound true encoded (.string text) = v := by
  cases encoded <;> simp [convertSlot, Kind.conversion, h, hv]

/-- Octets are not taken for a date when they are read again. -/
theorem convertSlot_inbound_encode (dated : Bool) (value : List UInt8) :
    convertSlot .inbound dated true (.string (Base64.encode value)) = .octets value := by
  cases dated <;>
    simp only [convertSlot, Kind.conversion, if_true, Bool.false_eq_true, if_false,
      parseDate_encode, decodeBinary_encode]

/-- What is no string is read again if it is written, as far as the wire text says all of it. -/
theorem convertSlot_inbound_outbound (h : v.Legible) :
    convertSlot .inbound dated encoded (convertSlot .outbound dated encoded v) = v := by
  cases v with
  | string text => exact absurd rfl (h.not_string text)
  | moment t =>
    cases dated with
    | false => cases encoded <;> rfl
    | true =>
      have hout : convertSlot .outbound true encoded (.moment t) = .string (momentText t) := by
        cases encoded <;> rfl
      rw [hout, convertSlot_inbound_dated (parseDate_momentText (h.written t rfl)) rfl]
  | day d =>
    cases dated with
    | false => cases encoded <;> rfl
    | true =>
      have hout : convertSlot .outbound true encoded (.day d) = .string (formatDay d) := by
        cases encoded <;> rfl
      rw [hout, convertSlot_inbound_dated (parseDate_formatDay d) rfl]
  | octets value =>
    cases encoded with
    | false => cases dated <;> rfl
    | true =>
      have hout : convertSlot .outbound dated true (.octets value) =
          .string (Base64.encode value) := by
        cases dated <;> rfl
      rw [hout, convertSlot_inbound_encode]
  | _ => cases dated <;> cases encoded <;> rfl

/-- A string is left, and has its canonical spelling, or what it is read as is written so. -/
theorem convertSlot_string_cases (dated encoded : Bool) (text : String) :
    (convertSlot .inbound dated encoded (.string text) = .string text ∧
      canonicalText dated encoded text = text) ∨
    ∃ v, convertSlot .inbound dated encoded (.string text) = v ∧ v.Legible ∧
      convertSlot .outbound dated encoded v = .string (canonicalText dated encoded text) := by
  have hdate : ((if dated then dateText? text else none) = none ∧
      (if dated then parseDate (.string text) else .string text) = .string text) ∨
      dated = true ∧ ∃ spelling v, dateText? text = some spelling ∧ parseDate (.string text) = v ∧
        formatDate v = .string spelling ∧ decodeBinary v = v ∧ v.Legible := by
    cases dated with
    | false => exact Or.inl ⟨rfl, rfl⟩
    | true => exact (parseDate_string_cases text).imp_right fun h => ⟨rfl, h⟩
  rcases hdate with ⟨hnone, hleft⟩ | ⟨rfl, spelling, v, hs, hv, hf, hb, hlegible⟩
  · have hin : convertSlot .inbound dated encoded (.string text) =
        if encoded then decodeBinary (.string text) else .string text :=
      congrArg (fun v => if encoded then decodeBinary v else v) hleft
    rw [hin, canonicalText, hnone, Option.none_or]
    cases encoded with
    | false => exact Or.inl ⟨rfl, rfl⟩
    | true =>
      rcases decodeBinary_string_cases text with ⟨hn, hl⟩ | ⟨value, hs, hv⟩
      · rw [if_pos rfl, hl, if_pos rfl, hn]
        exact Or.inl ⟨rfl, rfl⟩
      · rw [if_pos rfl, hv, if_pos rfl, hs]
        refine Or.inr ⟨_, rfl, ⟨?_, ?_⟩, ?_⟩
        · intro other h
          cases h
        · intro t h
          cases h
        · cases dated <;> rfl
  · refine Or.inr ⟨v, convertSlot_inbound_dated hv hb, hlegible, ?_⟩
    have hspelling : canonicalText true encoded text = spelling := by
      simp [canonicalText, hs]
    rw [hspelling]
    cases encoded <;> simp [convertSlot, Kind.conversion, hf, encodeBinary]

/-- **A slot** that has been read comes back when it is written and read again. -/
theorem convertSlot_round_trip (dated encoded : Bool) (hv : ∀ t, v ≠ .moment t) :
    convertSlot .inbound dated encoded (convertSlot .outbound dated encoded
      (convertSlot .inbound dated encoded v)) = convertSlot .inbound dated encoded v := by
  by_cases h : ∀ text, v ≠ .string text
  · rw [convertSlot_inbound_of_ne h,
      convertSlot_inbound_outbound ⟨h, fun t he => absurd he (hv t)⟩]
  · push Not at h
    obtain ⟨text, rfl⟩ := h
    rcases convertSlot_string_cases dated encoded text with ⟨hin, -⟩ | ⟨v, hin, hlegible, -⟩
    · rw [hin, convertSlot_outbound_string, hin]
    · rw [hin, convertSlot_inbound_outbound hlegible]

/-- A JSON value that is no string comes back as it is. -/
theorem convertSlot_ofJson {j : Json} (h : ∀ text, j ≠ .string text) :
    convertSlot .outbound dated encoded (convertSlot .inbound dated encoded (.ofJson j)) =
      .ofJson j := by
  cases j with
  | string text => exact absurd rfl (h text)
  | _ => cases dated <;> cases encoded <;> rfl

/-- **A string** that is read and written comes back in its canonical spelling. -/
theorem convertSlot_string (dated encoded : Bool) (text : String) :
    convertSlot .outbound dated encoded (convertSlot .inbound dated encoded (.string text)) =
      .string (canonicalText dated encoded text) := by
  rcases convertSlot_string_cases dated encoded text with ⟨hin, hc⟩ | ⟨v, hin, -, hout⟩
  · rw [hin, convertSlot_outbound_string, hc]
  · rw [hin, hout]

open Classical in
/-- Slots are converted one by one, and containers are not. -/
theorem keepsContainers_convertSlot (direction : Direction) (A B : Route → Prop) :
    KeepsContainers fun route => convertSlot direction (A route) (B route) := by
  have hdate := leafwise_conversion .date direction
  have hbinary := leafwise_conversion .binary direction
  refine ⟨fun route v hv => ?_, fun route v hv => ?_⟩
  · simp only [convertSlot, hdate.container v hv, ite_self, hbinary.container v hv]
  · have hfirst := (hdate.keepsContainers A).leaf route v hv
    have hsecond := (hbinary.keepsContainers B).leaf route _ hfirst
    simpa only [convertSlot, decide_eq_true_eq] using hsecond

/-! ### Strings of a JSON value -/

namespace Json

mutual

/-- Changes every string by a function that is told its route. -/
def mapStrings (g : Route → String → String) : Json → Json
  | .string text => .string (g [] text)
  | .array items => .array (mapStringItems g 0 items)
  | .object members => .object (mapStringMembers g 0 members)
  | value => value

/-- Changes every string of items, the first of which stands at a given position. -/
def mapStringItems (g : Route → String → String) (index : Nat) : List Json → List Json
  | [] => []
  | item :: rest =>
    mapStrings (fun route => g (index :: route)) item :: mapStringItems g (index + 1) rest

/-- Changes every string of members, the first of which stands at a given position. -/
def mapStringMembers (g : Route → String → String) (index : Nat) :
    List (String × Json) → List (String × Json)
  | [] => []
  | (name, value) :: rest =>
    (name, mapStrings (fun route => g (index :: route)) value) ::
      mapStringMembers g (index + 1) rest

end

/-- The value at a route. -/
def at? : Json → Route → Option Json
  | j, [] => some j
  | .array items, i :: route => items[i]?.bind fun item => item.at? route
  | .object members, i :: route => members[i]?.bind fun m => m.2.at? route
  | _, _ :: _ => none

mutual

/-- Strings that do not change leave the value as it is. -/
theorem mapStrings_eq_self : ∀ {j : Json} {g : Route → String → String},
    (∀ route text, j.at? route = some (.string text) → g route text = text) → j.mapStrings g = j
  | .string text, g, h => by rw [mapStrings, h [] text rfl]
  | .array items, g, h => by
    rw [mapStrings, mapStringItems_eq_self fun i item hi route text hr => by
      rw [Nat.zero_add]
      exact h (i :: route) text (by rw [at?, hi]; exact hr)]
  | .object members, g, h => by
    rw [mapStrings, mapStringMembers_eq_self fun i m hi route text hr => by
      rw [Nat.zero_add]
      exact h (i :: route) text (by rw [at?, hi]; exact hr)]
  | .null, _, _ | .bool _, _, _ | .number _, _, _ => rfl

theorem mapStringItems_eq_self : ∀ {items : List Json} {index : Nat} {g : Route → String → String},
    (∀ i item, items[i]? = some item → ∀ route text, item.at? route = some (.string text) →
      g ((index + i) :: route) text = text) → mapStringItems g index items = items
  | [], _, _, _ => rfl
  | item :: rest, index, g, h => by
    have hfirst : ∀ route text, item.at? route = some (.string text) →
        g (index :: route) text = text := h 0 item rfl
    have hrest : ∀ i item, rest[i]? = some item → ∀ route text,
        item.at? route = some (.string text) → g ((index + 1 + i) :: route) text = text := by
      intro i item hi route text hr
      have := h (i + 1) item hi route text hr
      rwa [show index + (i + 1) = index + 1 + i by omega] at this
    rw [mapStringItems, mapStrings_eq_self hfirst, mapStringItems_eq_self hrest]

theorem mapStringMembers_eq_self :
    ∀ {members : List (String × Json)} {index : Nat} {g : Route → String → String},
    (∀ i m, members[i]? = some m → ∀ route text, m.2.at? route = some (.string text) →
      g ((index + i) :: route) text = text) → mapStringMembers g index members = members
  | [], _, _, _ => rfl
  | (name, value) :: rest, index, g, h => by
    have hfirst : ∀ route text, value.at? route = some (.string text) →
        g (index :: route) text = text := h 0 (name, value) rfl
    have hrest : ∀ i m, rest[i]? = some m → ∀ route text,
        m.2.at? route = some (.string text) → g ((index + 1 + i) :: route) text = text := by
      intro i m hi route text hr
      have := h (i + 1) m hi route text hr
      rwa [show index + (i + 1) = index + 1 + i by omega] at this
    rw [mapStringMembers, mapStrings_eq_self hfirst, mapStringMembers_eq_self hrest]

end

end Json

mutual

/-- A change of slots that turns strings into strings, and changes no other JSON value, is a change
of strings. -/
theorem mapSlots_ofJson : ∀ (j : Json) {g : Route → Payload → Payload}
    {c : Route → String → String},
    (∀ route text, g route (.string text) = .string (c route text)) →
    (∀ route j, (∀ text, j ≠ .string text) → g route (.ofJson j) = .ofJson j) →
      mapSlots g (.ofJson j) = .ofJson (j.mapStrings c)
  | .string text, _, _, hs, _ => hs [] text
  | .array items, g, c, hs, ho => by
    rw [ofJson, mapSlots,
      mapItems_ofItems items (fun i route => hs (i :: route)) fun i route => ho (i :: route)]
    exact ho [] (.array (Json.mapStringItems c 0 items)) (by simp)
  | .object members, g, c, hs, ho => by
    rw [ofJson, mapSlots,
      mapMembers_ofMembers members (fun i route => hs (i :: route)) fun i route => ho (i :: route)]
    exact ho [] (.object (Json.mapStringMembers c 0 members)) (by simp)
  | .null, _, _, _, ho => ho [] .null (by simp)
  | .bool value, _, _, _, ho => ho [] (.bool value) (by simp)
  | .number value, _, _, _, ho => ho [] (.number value) (by simp)

theorem mapItems_ofItems : ∀ (items : List Json) {index : Nat} {g : Route → Payload → Payload}
    {c : Route → String → String},
    (∀ i route text, g (i :: route) (.string text) = .string (c (i :: route) text)) →
    (∀ i route j, (∀ text, j ≠ .string text) → g (i :: route) (.ofJson j) = .ofJson j) →
      mapItems g index (ofItems items) = ofItems (Json.mapStringItems c index items)
  | [], _, _, _, _, _ => rfl
  | item :: rest, index, _, _, hs, ho => by
    rw [ofItems, mapItems, Json.mapStringItems, ofItems, mapSlots_ofJson item (hs index) (ho index),
      mapItems_ofItems rest hs ho]

theorem mapMembers_ofMembers : ∀ (members : List (String × Json)) {index : Nat}
    {g : Route → Payload → Payload} {c : Route → String → String},
    (∀ i route text, g (i :: route) (.string text) = .string (c (i :: route) text)) →
    (∀ i route j, (∀ text, j ≠ .string text) → g (i :: route) (.ofJson j) = .ofJson j) →
      mapMembers g index (ofMembers members) = ofMembers (Json.mapStringMembers c index members)
  | [], _, _, _, _, _ => rfl
  | (name, value) :: rest, index, _, _, hs, ho => by
    rw [ofMembers, mapMembers, Json.mapStringMembers, ofMembers,
      mapSlots_ofJson value (hs index) (ho index), mapMembers_ofMembers rest hs ho]

end

mutual

/-- Changes of slots that differ at moments only are the same for a JSON value. -/
theorem mapSlots_ofJson_congr : ∀ (j : Json) {g g' : Route → Payload → Payload},
    (∀ route v, (∀ t, v ≠ .moment t) → g route v = g' route v) →
      mapSlots g (.ofJson j) = mapSlots g' (.ofJson j)
  | .array items, _, _, h => by
    rw [ofJson, mapSlots, mapSlots, mapItems_ofItems_congr items fun i route => h (i :: route)]
    exact h [] _ (by simp)
  | .object members, _, _, h => by
    rw [ofJson, mapSlots, mapSlots,
      mapMembers_ofMembers_congr members fun i route => h (i :: route)]
    exact h [] _ (by simp)
  | .null, _, _, h => h [] .null (by simp)
  | .bool value, _, _, h => h [] (.bool value) (by simp)
  | .number value, _, _, h => h [] (.number value) (by simp)
  | .string text, _, _, h => h [] (.string text) (by simp)

theorem mapItems_ofItems_congr : ∀ (items : List Json) {index : Nat}
    {g g' : Route → Payload → Payload},
    (∀ i route v, (∀ t, v ≠ .moment t) → g (i :: route) v = g' (i :: route) v) →
      mapItems g index (ofItems items) = mapItems g' index (ofItems items)
  | [], _, _, _, _ => rfl
  | item :: rest, index, _, _, h => by
    rw [ofItems, mapItems, mapItems, mapSlots_ofJson_congr item (h index),
      mapItems_ofItems_congr rest h]

theorem mapMembers_ofMembers_congr : ∀ (members : List (String × Json)) {index : Nat}
    {g g' : Route → Payload → Payload},
    (∀ i route v, (∀ t, v ≠ .moment t) → g (i :: route) v = g' (i :: route) v) →
      mapMembers g index (ofMembers members) = mapMembers g' index (ofMembers members)
  | [], _, _, _, _ => rfl
  | (name, value) :: rest, index, _, _, h => by
    rw [ofMembers, mapMembers, mapMembers, mapSlots_ofJson_congr value (h index),
      mapMembers_ofMembers_congr rest h]

end

/-! ### Payloads -/

/-- The programs of the links address the slot for a kind of conversion. -/
def Table.Addresses (t : Table) (links : Links) (v : Payload) (route : Route) (kind : Kind) :
    Prop :=
  AddressedBy (t.entries kind) (links.programs kind) v route

variable {t : Table} {links : Links}

theorem Table.addresses_of_shape {v w : Payload} {route : Route} {kind : Kind}
    (hs : shape v = shape w) : t.Addresses links v route kind ↔ t.Addresses links w route kind := by
  unfold Addresses AddressedBy
  exact ⟨fun ⟨program, hp, ha⟩ => ⟨program, hp, ApiDecl.addresses_of_shape ha hs⟩,
    fun ⟨program, hp, ha⟩ => ⟨program, hp, ApiDecl.addresses_of_shape ha hs.symm⟩⟩

/-- One kind converts the slots addressed. -/
theorem Table.convertKind_eq (t : Table) (kind : Kind) (direction : Direction)
    (programs : List Program) (v : Payload) :
    t.convertKind kind direction programs v =
      v.convertAt (kind.conversion direction) (AddressedBy (t.entries kind) programs v) := by
  have hf := leafwise_conversion kind direction
  obtain ⟨_, hr⟩ := runPrograms_converts (s := t.entries kind) hf
    (performs_ofFunction (kind.conversion direction)) hf.level programs () (Nat.le_refl v.depth)
  unfold convertKind
  rw [Option.get_of_eq_some _ hr]

open Classical in
/-- The slots of a payload are converted one by one, for each kind by which they are addressed. -/
theorem Table.convert_eq (t : Table) (links : Links) (direction : Direction) (v : Payload) :
    t.convert links direction v = v.mapSlots fun route =>
      convertSlot direction (t.Addresses links v route .date)
        (t.Addresses links v route .binary) := by
  have hdate := leafwise_conversion .date direction
  have hshape := hdate.shape_convertAt (fun route => t.Addresses links v route .date) v
  calc
    _ = t.convertKind .binary direction (links.programs .binary)
          (t.convertKind .date direction (links.programs .date) v) := rfl
    _ = (v.convertAt (Kind.date.conversion direction) fun route =>
          t.Addresses links v route .date).convertAt (Kind.binary.conversion direction)
            fun route => t.Addresses links v route .binary := by
        rw [convertKind_eq, convertKind_eq]
        exact convertAt_congr (fun route => addresses_of_shape hshape) _ _
    _ = _ := by
        unfold convertAt
        rw [mapSlots_mapSlots _ (hdate.keepsContainers _)]
        congr 1
        funext route x
        simp only [convertSlot, decide_eq_true_eq]

open Classical in
/-- A payload is converted at the slots that are addressed in any other of its shape. -/
theorem Table.convert_of_shape {direction : Direction} {v w : Payload} (hs : shape v = shape w) :
    t.convert links direction v = v.mapSlots fun route =>
      convertSlot direction (t.Addresses links w route .date)
        (t.Addresses links w route .binary) := by
  rw [convert_eq]
  congr 1
  funext route
  rw [decide_eq_decide.mpr (addresses_of_shape hs), decide_eq_decide.mpr (addresses_of_shape hs)]

open Classical in
/-- **Payloads there and back.**  A payload that has been converted from the wire is the same after
it has been converted to the wire and back.  Converted to the wire, it is the JSON value it came
from, with each string that was read in its canonical spelling; so it is that value itself if the
strings had this spelling before. -/
theorem convert_round_trip (t : Table) (links : Links) (j : Json) :
    let addresses := t.Addresses links (.ofJson j)
    let r := t.convert links .inbound (.ofJson j)
    let canonical := fun route => canonicalText (addresses route .date) (addresses route .binary)
    t.convert links .inbound (t.convert links .outbound r) = r ∧
      t.convert links .outbound r = .ofJson (j.mapStrings canonical) ∧
      (t.convert links .outbound r).toJson = j.mapStrings canonical ∧
      ((∀ route text, j.at? route = some (.string text) → canonical route text = text) →
        (t.convert links .outbound r).toJson = j) := by
  intro addresses r canonical
  have keeps (direction : Direction) : KeepsContainers fun route =>
      convertSlot direction (addresses route .date) (addresses route .binary) :=
    keepsContainers_convertSlot direction _ _
  -- the slots addressed are those of the first payload, at every stage
  have again (direction : Direction) {v : Payload} (hs : shape v = shape (.ofJson j)) :
      t.convert links direction v = v.mapSlots fun route =>
        convertSlot direction (addresses route .date) (addresses route .binary) :=
    Table.convert_of_shape hs
  have hr : r = mapSlots (fun route =>
      convertSlot .inbound (addresses route .date) (addresses route .binary)) (.ofJson j) :=
    again .inbound rfl
  have hshape : shape r = shape (.ofJson j) := by
    rw [hr]
    exact shape_mapSlots (keeps .inbound) _
  have hout : shape (t.convert links .outbound r) = shape (.ofJson j) := by
    rw [again .outbound hshape, shape_mapSlots (keeps .outbound), hshape]
  have hwire : t.convert links .outbound r = .ofJson (j.mapStrings canonical) := by
    rw [again .outbound hshape, hr, mapSlots_mapSlots _ (keeps .inbound)]
    exact mapSlots_ofJson j (fun route text => convertSlot_string _ _ text)
      fun route v hv => convertSlot_ofJson hv
  have hjson : (t.convert links .outbound r).toJson = j.mapStrings canonical := by
    rw [hwire, toJson_ofJson]
  refine ⟨?_, hwire, hjson, fun h => hjson.trans (Json.mapStrings_eq_self h)⟩
  rw [again .inbound hout, again .outbound hshape, mapSlots_mapSlots _ (keeps .outbound), hr,
    mapSlots_mapSlots _ (keeps .inbound)]
  exact mapSlots_ofJson_congr j fun route v hv => convertSlot_round_trip _ _ hv

open Classical in
/-- Octets at a slot where dates are looked for too come back as they were written. -/
theorem convert_round_trip_octets :
    let t := Table.empty
    let links : Links := ⟨[[.access "data", .this]], [[.access "data", .this]]⟩
    let j : Json := .object [("data", .string "AQID")]
    let addresses := t.Addresses links (.ofJson j)
    (∀ route text, j.at? route = some (.string text) →
        canonicalText (addresses route .date) (addresses route .binary) text = text) ∧
      (t.convert links .outbound (t.convert links .inbound (.ofJson j))).toJson = j := by
  intro t links j addresses
  have hcanonical : ∀ route text, j.at? route = some (.string text) →
      canonicalText (addresses route .date) (addresses route .binary) text = text := by
    intro route text h
    obtain rfl : text = "AQID" := by
      match route, h with
      | [], h => cases (Option.some.inj h : Json.object _ = .string text)
      | [0], h => cases h; rfl
    cases decide (addresses route .date) <;> cases decide (addresses route .binary) <;> decide
  exact ⟨hcanonical, (convert_round_trip t links j).2.2.2 hcanonical⟩

end ApiDecl
