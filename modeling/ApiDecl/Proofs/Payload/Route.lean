import ApiDecl.Payload.Conversion
import ApiDecl.Proofs.Json.Member
import Mathlib.Tactic.SplitIfs

/-!
# Routes

A slot of a payload is given by its route: the positions of the items and members on the way to it.
`mapSlots` changes every slot by a function that is told the route, and keeps all else: the names of
members, their order, and the lengths of arrays.  `convertAt` applies one function at the slots of
some routes.

A `Leafwise` conversion leaves arrays and objects alone, makes none, and has nothing left to do
after one time; the conversions of every kind and direction are such (`leafwise_conversion`).  It
keeps the `shape` of a payload, which is all that a program looks at on its way (`shape_convertAt`),
and to convert at some routes and then at others is to convert at both (`convertAt_convertAt`).
-/

namespace ApiDecl

/-- The way to a slot: the positions of items and members on it, the outermost first. -/
abbrev Route := List Nat

namespace Payload

/-- There are slots inside: the payload is an array or an object. -/
def isContainer : Payload → Bool
  | .array _ | .object _ => true
  | _ => false

/-- A conversion of leaves into leaves that is done after one time. -/
structure Leafwise (f : Payload → Payload) : Prop where
  idem : ∀ v, f (f v) = f v
  container : ∀ v, v.isContainer = true → f v = v
  leaf : ∀ v, v.isContainer = false → (f v).isContainer = false

/-! ### Every slot changed -/

mutual

/-- Changes every slot, the slots inside a container before the container. -/
def mapSlots (g : Route → Payload → Payload) : Payload → Payload
  | .array items => g [] (.array (mapItems g 0 items))
  | .object members => g [] (.object (mapMembers g 0 members))
  | value => g [] value

/-- Changes every slot of items, the first of which stands at a given position. -/
def mapItems (g : Route → Payload → Payload) (index : Nat) : List Payload → List Payload
  | [] => []
  | item :: rest => mapSlots (fun route => g (index :: route)) item :: mapItems g (index + 1) rest

/-- Changes every slot of members, the first of which stands at a given position. -/
def mapMembers (g : Route → Payload → Payload) (index : Nat) :
    List (String × Payload) → List (String × Payload)
  | [] => []
  | (name, value) :: rest =>
    (name, mapSlots (fun route => g (index :: route)) value) :: mapMembers g (index + 1) rest

end

open Classical in
/-- Applies a function at the slots of some routes. -/
noncomputable def convertAt (f : Payload → Payload) (A : Route → Prop) : Payload → Payload :=
  mapSlots fun route value => if A route then f value else value

theorem mapSlots_leaf (g : Route → Payload → Payload) {v : Payload} (h : v.isContainer = false) :
    mapSlots g v = g [] v := by
  cases v <;> first | rfl | simp [isContainer] at h

theorem getElem?_mapItems (g : Route → Payload → Payload) :
    ∀ (items : List Payload) (index i : Nat),
    (mapItems g index items)[i]? = items[i]?.map (mapSlots fun route => g ((index + i) :: route))
  | [], _, _ => by simp [mapItems]
  | item :: rest, index, 0 => by simp [mapItems]
  | item :: rest, index, i + 1 => by
    rw [mapItems, List.getElem?_cons_succ, List.getElem?_cons_succ,
      getElem?_mapItems g rest (index + 1) i, show index + 1 + i = index + (i + 1) by omega]

theorem getElem?_mapMembers (g : Route → Payload → Payload) :
    ∀ (members : List (String × Payload)) (index i : Nat), (mapMembers g index members)[i]? =
      members[i]?.map fun m => (m.1, mapSlots (fun route => g ((index + i) :: route)) m.2)
  | [], _, _ => by simp [mapMembers]
  | (name, value) :: rest, index, 0 => by simp [mapMembers]
  | (name, value) :: rest, index, i + 1 => by
    rw [mapMembers, List.getElem?_cons_succ, List.getElem?_cons_succ,
      getElem?_mapMembers g rest (index + 1) i, show index + 1 + i = index + (i + 1) by omega]

/-! ### Changes in a row -/

/-- A change of every slot that leaves containers alone and makes none. -/
structure KeepsContainers (g : Route → Payload → Payload) : Prop where
  container : ∀ route v, v.isContainer = true → g route v = v
  leaf : ∀ route v, v.isContainer = false → (g route v).isContainer = false

theorem KeepsContainers.below {g : Route → Payload → Payload} (hg : KeepsContainers g)
    (index : Nat) :
    KeepsContainers fun route => g (index :: route) :=
  ⟨fun _ => hg.container _, fun _ => hg.leaf _⟩

mutual

/-- Two changes in a row are one change. -/
theorem mapSlots_mapSlots (h : Route → Payload → Payload) {g : Route → Payload → Payload}
    (hg : KeepsContainers g) : ∀ v, mapSlots h (mapSlots g v) = mapSlots (fun r x => h r (g r x)) v
  | .array items => by
    rw [mapSlots, mapSlots, hg.container _ _ rfl, mapSlots, mapItems_mapItems h hg items,
      hg.container _ _ rfl]
  | .object members => by
    rw [mapSlots, mapSlots, hg.container _ _ rfl, mapSlots, mapMembers_mapMembers h hg members,
      hg.container _ _ rfl]
  | .null | .bool _ | .number _ | .string _ | .moment _ | .day _ | .octets _ => by
    rw [mapSlots_leaf g rfl, mapSlots_leaf _ (hg.leaf _ _ rfl), mapSlots_leaf _ rfl]

theorem mapItems_mapItems (h : Route → Payload → Payload) {g : Route → Payload → Payload}
    (hg : KeepsContainers g) : ∀ (items : List Payload) {index : Nat},
      mapItems h index (mapItems g index items) = mapItems (fun r x => h r (g r x)) index items
  | [], _ => rfl
  | item :: rest, index => by
    rw [mapItems, mapItems, mapItems, mapSlots_mapSlots _ (hg.below index) item,
      mapItems_mapItems h hg rest]

theorem mapMembers_mapMembers (h : Route → Payload → Payload) {g : Route → Payload → Payload}
    (hg : KeepsContainers g) : ∀ (members : List (String × Payload)) {index : Nat},
      mapMembers h index (mapMembers g index members) =
        mapMembers (fun r x => h r (g r x)) index members
  | [], _ => rfl
  | (name, value) :: rest, index => by
    rw [mapMembers, mapMembers, mapMembers, mapSlots_mapSlots _ (hg.below index) value,
      mapMembers_mapMembers h hg rest]

end

mutual

theorem mapSlots_id : ∀ v, mapSlots (fun _ x => x) v = v
  | .array items => by rw [mapSlots, mapItems_id items]
  | .object members => by rw [mapSlots, mapMembers_id members]
  | .null | .bool _ | .number _ | .string _ | .moment _ | .day _ | .octets _ => mapSlots_leaf _ rfl

theorem mapItems_id : ∀ (items : List Payload) {index : Nat},
    mapItems (fun _ x => x) index items = items
  | [], _ => rfl
  | item :: rest, _ => by rw [mapItems, mapSlots_id item, mapItems_id rest]

theorem mapMembers_id : ∀ (members : List (String × Payload)) {index : Nat},
    mapMembers (fun _ x => x) index members = members
  | [], _ => rfl
  | (_, value) :: rest, _ => by rw [mapMembers, mapSlots_id value, mapMembers_id rest]

end

/-! ### Shapes -/

mutual

/-- The containers of a payload with the names of members, every leaf taken for null. -/
def shape : Payload → Payload
  | .array items => .array (shapeItems items)
  | .object members => .object (shapeMembers members)
  | _ => .null

/-- The shape of each item. -/
def shapeItems : List Payload → List Payload
  | [] => []
  | item :: rest => shape item :: shapeItems rest

/-- The shape of each member. -/
def shapeMembers : List (String × Payload) → List (String × Payload)
  | [] => []
  | (name, value) :: rest => (name, shape value) :: shapeMembers rest

end

theorem shape_leaf {v : Payload} (h : v.isContainer = false) : shape v = .null := by
  cases v <;> first | rfl | simp [isContainer] at h

theorem shapeItems_eq_map (items : List Payload) : shapeItems items = items.map shape := by
  induction items with
  | nil => rfl
  | cons item rest ih => rw [shapeItems, ih, List.map_cons]

theorem shapeMembers_eq_map (members : List (String × Payload)) :
    shapeMembers members = members.map fun m => (m.1, shape m.2) := by
  induction members with
  | nil => rfl
  | cons m rest ih => rw [shapeMembers, ih, List.map_cons]

mutual

/-- Changing leaves keeps the shape. -/
theorem shape_mapSlots {g : Route → Payload → Payload} (hg : KeepsContainers g) :
    ∀ v, shape (mapSlots g v) = shape v
  | .array items => by
    rw [mapSlots, hg.container _ _ rfl, shape, shape, shapeItems_mapItems hg items]
  | .object members => by
    rw [mapSlots, hg.container _ _ rfl, shape, shape, shapeMembers_mapMembers hg members]
  | .null | .bool _ | .number _ | .string _ | .moment _ | .day _ | .octets _ => by
    rw [mapSlots_leaf g rfl, shape_leaf (hg.leaf _ _ rfl), shape_leaf rfl]

theorem shapeItems_mapItems {g : Route → Payload → Payload} (hg : KeepsContainers g) :
    ∀ (items : List Payload) {index : Nat}, shapeItems (mapItems g index items) = shapeItems items
  | [], _ => rfl
  | item :: rest, index => by
    rw [mapItems, shapeItems, shapeItems, shape_mapSlots (hg.below index) item,
      shapeItems_mapItems hg rest]

theorem shapeMembers_mapMembers {g : Route → Payload → Payload} (hg : KeepsContainers g) :
    ∀ (members : List (String × Payload)) {index : Nat},
      shapeMembers (mapMembers g index members) = shapeMembers members
  | [], _ => rfl
  | (_, value) :: rest, index => by
    rw [mapMembers, shapeMembers, shapeMembers, shape_mapSlots (hg.below index) value,
      shapeMembers_mapMembers hg rest]

end

/-- A payload with the shape of an array is an array, with items of the same shapes. -/
theorem exists_of_shape_array {v : Payload} {items : List Payload}
    (h : shape (.array items) = shape v) :
    ∃ items', v = .array items' ∧ ∀ (i : Nat) (item : Payload), items[i]? = some item →
      ∃ item', items'[i]? = some item' ∧ shape item = shape item' := by
  cases v with
  | array items' =>
    refine ⟨items', rfl, fun i item hi => ?_⟩
    simp only [shape, shapeItems_eq_map, Payload.array.injEq] at h
    have hg : (items.map shape)[i]? = (items'.map shape)[i]? := by rw [h]
    rw [List.getElem?_map, List.getElem?_map, hi] at hg
    obtain ⟨item', hi', hs⟩ := Option.map_eq_some_iff.mp hg.symm
    exact ⟨item', hi', hs.symm⟩
  | _ => simp [shape] at h

/-- A payload of the shape of an object is one, with members of the same names and shapes. -/
theorem exists_of_shape_object {v : Payload} {members : List (String × Payload)}
    (h : shape (.object members) = shape v) :
    ∃ members', v = .object members' ∧ members.map Prod.fst = members'.map Prod.fst ∧
      ∀ (i : Nat) (name : String) (child : Payload), members[i]? = some (name, child) →
        ∃ child', members'[i]? = some (name, child') ∧ shape child = shape child' := by
  cases v with
  | object members' =>
    simp only [shape, shapeMembers_eq_map, Payload.object.injEq] at h
    refine ⟨members', rfl, ?_, fun i name child hi => ?_⟩
    · have hf := congrArg (List.map Prod.fst) h
      simpa [Function.comp_def] using hf
    · have hg : (members.map fun m => (m.1, shape m.2))[i]? =
          (members'.map fun m => (m.1, shape m.2))[i]? := by rw [h]
      rw [List.getElem?_map, List.getElem?_map, hi] at hg
      obtain ⟨⟨name', child'⟩, hi', hs⟩ := Option.map_eq_some_iff.mp hg.symm
      obtain ⟨rfl, hs⟩ := Prod.mk.inj hs
      exact ⟨child', hi', hs.symm⟩
  | _ => simp [shape] at h

/-! ### Leafwise conversions -/

namespace Leafwise

variable {f : Payload → Payload} (hf : Leafwise f)
include hf

/-- A container is not changed, and a leaf becomes a leaf, so nothing gets deeper. -/
theorem depth_le (v : Payload) : (f v).depth ≤ v.depth := by
  cases h : v.isContainer with
  | true => exact Nat.le_of_eq (congrArg Payload.depth (hf.container v h))
  | false =>
    have hl := hf.leaf v h
    cases hv : f v <;> first | exact Nat.zero_le _ | simp [hv, isContainer] at hl

theorem level : (Handler.ofFunction f).Level := Handler.level_ofFunction hf.depth_le

open Classical in
theorem keepsContainers (A : Route → Prop) :
    KeepsContainers fun route value => if A route then f value else value := by
  refine ⟨fun route v hv => ?_, fun route v hv => ?_⟩
  · split_ifs
    · exact hf.container v hv
    · rfl
  · split_ifs
    · exact hf.leaf v hv
    · exact hv

/-- **Converting at some routes and then at others is converting at both.** -/
theorem convertAt_convertAt (A B : Route → Prop) (v : Payload) :
    convertAt f B (convertAt f A v) = convertAt f (fun route => A route ∨ B route) v := by
  unfold convertAt
  rw [mapSlots_mapSlots _ (hf.keepsContainers A)]
  congr 1
  funext route x
  by_cases ha : A route
  · by_cases hb : B route
    · rw [if_pos ha, if_pos hb, if_pos (Or.inl ha), hf.idem]
    · rw [if_pos ha, if_neg hb, if_pos (Or.inl ha)]
  · rw [if_neg ha]
    by_cases hb : B route
    · rw [if_pos hb, if_pos (Or.inr hb)]
    · rw [if_neg hb, if_neg (not_or.mpr ⟨ha, hb⟩)]

theorem shape_convertAt (A : Route → Prop) (v : Payload) : shape (convertAt f A v) = shape v :=
  shape_mapSlots (hf.keepsContainers A) v

end Leafwise

theorem convertAt_congr {A B : Route → Prop} (h : ∀ route, A route ↔ B route)
    (f : Payload → Payload) (v : Payload) : convertAt f A v = convertAt f B v := by
  rw [show A = B from funext fun route => propext (h route)]

theorem convertAt_false (f : Payload → Payload) (v : Payload) :
    convertAt f (fun _ => False) v = v := by
  unfold convertAt
  simp only [if_false]
  exact mapSlots_id v

theorem convertAt_of_not {A : Route → Prop} (h : ∀ route, ¬ A route) (f : Payload → Payload)
    (v : Payload) : convertAt f A v = v := by
  rw [convertAt_congr fun route => iff_false_intro (h route)]
  exact convertAt_false f v

section Containers

variable {f : Payload → Payload} (hf : Leafwise f) {A : Route → Prop}
include hf

theorem convertAt_array (A : Route → Prop) (items : List Payload) :
    ∃ items', convertAt f A (.array items) = .array items' ∧ ∀ i : Nat,
      items'[i]? = items[i]?.map (convertAt f fun route => A (i :: route)) := by
  classical
  refine ⟨mapItems (fun route value => if A route then f value else value) 0 items, ?_, fun i => ?_⟩
  · rw [convertAt, mapSlots, (hf.keepsContainers A).container _ _ rfl]
  · rw [getElem?_mapItems]
    simp only [Nat.zero_add]
    rfl

theorem convertAt_object (A : Route → Prop) (members : List (String × Payload)) :
    ∃ members', convertAt f A (.object members) = .object members' ∧ ∀ i : Nat,
      members'[i]? = members[i]?.map fun m =>
        (m.1, convertAt f (fun route => A (i :: route)) m.2) := by
  classical
  refine ⟨mapMembers (fun route value => if A route then f value else value) 0 members, ?_,
    fun i => ?_⟩
  · rw [convertAt, mapSlots, (hf.keepsContainers A).container _ _ rfl]
  · rw [getElem?_mapMembers]
    simp only [Nat.zero_add]
    rfl

/-- An array is converted item by item. -/
theorem convertAt_items {B : Payload → Route → Prop} {items : List Payload}
    (h : ∀ (i : Nat) (item : Payload), items[i]? = some item →
      ∀ route, A (i :: route) ↔ B item route) :
    convertAt f A (.array items) = .array (items.map fun item => item.convertAt f (B item)) := by
  obtain ⟨items', he, hm⟩ := convertAt_array hf A items
  rw [he]
  refine congrArg Payload.array (List.ext_getElem? fun i => ?_)
  rw [hm, List.getElem?_map]
  cases hi : items[i]? with
  | none => rfl
  | some item => exact congrArg some (convertAt_congr (h i item hi) f item)

/-- An object is converted member by member. -/
theorem convertAt_members {B : Payload → Route → Prop} {members : List (String × Payload)}
    (h : ∀ (i : Nat) (name : String) (child : Payload), members[i]? = some (name, child) →
      ∀ route, A (i :: route) ↔ B child route) :
    convertAt f A (.object members) =
      .object (members.map fun m => (m.1, m.2.convertAt f (B m.2))) := by
  obtain ⟨members', he, hm⟩ := convertAt_object hf A members
  rw [he]
  refine congrArg Payload.object (List.ext_getElem? fun i => ?_)
  rw [hm, List.getElem?_map]
  cases hi : members[i]? with
  | none => rfl
  | some m => exact congrArg (fun x => some (m.1, x)) (convertAt_congr (h i m.1 m.2 hi) f m.2)

/-- Of an object, the first member of a name is converted. -/
theorem convertAt_member {B : Route → Prop} {name : String} {child : Payload}
    {members : List (String × Payload)} (hl : Member.lookup name members = some child)
    (h : ∀ i route, A (i :: route) ↔ i = Member.position name members ∧ B route) :
    convertAt f A (.object members) = .object (Member.put name (child.convertAt f B) members) := by
  obtain ⟨members', he, hm⟩ := convertAt_object hf A members
  rw [he]
  refine congrArg Payload.object (List.ext_getElem? fun i => ?_)
  rw [hm, Member.getElem?_put hl]
  split_ifs with hi
  · rw [hi, Member.lookup_eq_some_iff.mp hl]
    refine congrArg (fun x => some (name, x)) (convertAt_congr (fun route => ?_) f child)
    rw [h]
    exact and_iff_right rfl
  · cases members[i]? with
    | none => rfl
    | some m =>
      rw [Option.map_some, convertAt_of_not fun route => ?_]
      rw [h]
      exact fun ha => hi ha.1

end Containers

/-- The slot with the empty route is the payload itself. -/
theorem convertAt_root {f : Payload → Payload} (hf : Leafwise f) (v : Payload) :
    convertAt f (· = []) v = f v := by
  cases v with
  | array items =>
    obtain ⟨items', h, hi⟩ := convertAt_array hf (· = []) items
    rw [h, hf.container _ rfl]
    congr 1
    refine List.ext_getElem? fun i => ?_
    rw [hi i]
    cases items[i]? <;> simp [convertAt_false]
  | object members =>
    obtain ⟨members', h, hi⟩ := convertAt_object hf (· = []) members
    rw [h, hf.container _ rfl]
    congr 1
    refine List.ext_getElem? fun i => ?_
    rw [hi i]
    cases members[i]? <;> simp [convertAt_false]
  | _ => simp [convertAt, mapSlots]

theorem parseDate_cases (v : Payload) :
    parseDate v = v ∨ (∃ t, parseDate v = .moment t) ∨ ∃ d, parseDate v = .day d := by
  cases v with
  | string text =>
    cases ht : DateTime.parse text.toList with
    | some t => exact Or.inr (Or.inl ⟨t, by simp [parseDate, ht]⟩)
    | none =>
      cases hd : Day.parse text.toList with
      | some d => exact Or.inr (Or.inr ⟨d, by simp [parseDate, ht, hd]⟩)
      | none => left; simp [parseDate, ht, hd]
  | _ => exact Or.inl rfl

theorem decodeBinary_cases (v : Payload) :
    decodeBinary v = v ∨ ∃ octets, decodeBinary v = .octets octets := by
  cases v with
  | string text =>
    cases hs : Base64.decode Base64.standard text with
    | some octets => exact Or.inr ⟨octets, by simp [decodeBinary, hs]⟩
    | none =>
      cases hu : Base64.decode Base64.urlSafe text with
      | some octets => exact Or.inr ⟨octets, by simp [decodeBinary, hs, hu]⟩
      | none => left; simp [decodeBinary, hs, hu]
  | _ => exact Or.inl rfl

theorem leafwise_parseDate : Leafwise parseDate := by
  refine ⟨fun v => ?_, fun v hv => ?_, fun v hv => ?_⟩
  · rcases parseDate_cases v with h | ⟨t, h⟩ | ⟨d, h⟩
    · rw [h, h]
    · rw [h]; rfl
    · rw [h]; rfl
  · cases v <;> first | rfl | simp [isContainer] at hv
  · rcases parseDate_cases v with h | ⟨t, h⟩ | ⟨d, h⟩
    · rw [h]; exact hv
    · rw [h]; rfl
    · rw [h]; rfl

theorem leafwise_decodeBinary : Leafwise decodeBinary := by
  refine ⟨fun v => ?_, fun v hv => ?_, fun v hv => ?_⟩
  · rcases decodeBinary_cases v with h | ⟨octets, h⟩
    · rw [h, h]
    · rw [h]; rfl
  · cases v <;> first | rfl | simp [isContainer] at hv
  · rcases decodeBinary_cases v with h | ⟨octets, h⟩
    · rw [h]; exact hv
    · rw [h]; rfl

/-- The conversions of every kind and direction are leafwise. -/
theorem leafwise_conversion : ∀ (kind : Kind) (direction : Direction),
    Leafwise (kind.conversion direction)
  | .date, .inbound => leafwise_parseDate
  | .binary, .inbound => leafwise_decodeBinary
  | .date, .outbound | .binary, .outbound => by
    refine ⟨fun v => ?_, fun v hv => ?_, fun v hv => ?_⟩
    · cases v <;> rfl
    · cases v <;> first | rfl | simp [isContainer] at hv
    · cases v <;> first | rfl | simp [isContainer] at hv

end Payload

end ApiDecl
