import ApiDecl.Proofs.Transform.Denotation
import ApiDecl.Proofs.Transform.Pruning
import ApiDecl.Types.Programs

/-!
# Walking a type over a payload

`Reaches` walks a type over a payload, with named types read through their declarations: it tells
the slots where the type asks for a conversion.  The programs of the type address the same slots
(`addressedBy_programs_iff`), if a section holds for each name the programs of the type declared.

* `Offers`: what a program of a type begins with and what it goes on with, whatever unions and
  intersections the type is made of (`Ty.Holds`, `offers_of_mem`);
* `addressedBy_behind`: programs put behind a step address below the step what they address;
* `allStopLast_programs`: in programs of a type, `this`, `select` and `ref` stand last.
-/

namespace ApiDecl

open Payload

/-- The string formats that a kind of conversion is for. -/
def Kind.formats : Kind → List String
  | .date => ["date", "date-time"]
  | .binary => ["byte", "binary"]

theorem Kind.mem_formats_iff {kind : Kind} {format : String} :
    format ∈ kind.formats ↔ Kind.ofFormat? format = some kind := by
  unfold Kind.ofFormat?
  cases kind with
  | date =>
    simp only [formats, List.mem_cons, List.not_mem_nil, or_false]
    split_ifs with h1 h2
    · simpa [or_comm] using h1
    · simp only [Option.some.injEq, reduceCtorEq, iff_false]
      exact fun h => h1 h.symm
    · simp only [iff_false]
      exact fun h => h1 h.symm
  | binary =>
    simp only [formats, List.mem_cons, List.not_mem_nil, or_false]
    split_ifs with h1 h2
    · rcases h1 with rfl | rfl <;> decide
    · simpa using h2
    · simpa using h2

/-- A walk of the type over the payload reaches, at the slot of a route, a string with a format of
the kind.  A named type is the one declared. -/
inductive Reaches (types : String → Option Ty) (kind : Kind) : Ty → Payload → Route → Prop
  | string {format : String} {v : Payload} : format ∈ kind.formats →
      Reaches types kind (.scalar .string (some format)) v []
  | element {element : Ty} {items : List Payload} {i : Nat} {item : Payload} {route : Route} :
      items[i]? = some item → Reaches types kind element item route →
        Reaches types kind (.array element) (.array items) (i :: route)
  | field {fields : List (FieldOf Ty)} {additional : Option Ty} {field : FieldOf Ty}
      {members : List (String × Payload)} {child : Payload} {route : Route} : field ∈ fields →
      members[Member.position field.wireName members]? = some (field.wireName, child) →
      Reaches types kind field.ty child route →
        Reaches types kind (.object fields additional) (.object members)
          (Member.position field.wireName members :: route)
  | additional {fields : List (FieldOf Ty)} {ty : Ty} {members : List (String × Payload)} {i : Nat}
      {name : String} {child : Payload} {route : Route} : members[i]? = some (name, child) →
      Reaches types kind ty child route →
        Reaches types kind (.object fields (some ty)) (.object members) (i :: route)
  | union {members : List Ty} {discriminator : Option Discriminator} {member : Ty} {v : Payload}
      {route : Route} : member ∈ members → Reaches types kind member v route →
        Reaches types kind (.union members discriminator) v route
  | intersection {members : List Ty} {member : Ty} {v : Payload} {route : Route} :
      member ∈ members → Reaches types kind member v route →
        Reaches types kind (.intersection members) v route
  | reference {name : String} {ty : Ty} {v : Payload} {route : Route} : types name = some ty →
      Reaches types kind ty v route → Reaches types kind (.reference name) v route

/-- A section holds for each name the programs of the type declared. -/
def Section.DerivedFrom (s : Section) (types : String → Option Ty) (kind : Kind) : Prop :=
  ∀ name, s.programs name = ((types name).map (Ty.programs kind)).getD []

variable {s : Section} {types : String → Option Ty} {kind : Kind} {program rest : Program}
  {ps : List Program} {step : Step} {v child : Payload} {route inner : Route}

/-! ### Programs behind a step -/

theorem mem_distinct {α : Type} [DecidableEq α] {x : α} {l : List α} : x ∈ distinct l ↔ x ∈ l := by
  have fold (l kept : List α) : x ∈ l.foldl (fun kept x =>
      if kept.any (fun a => decide (a = x)) then kept else kept ++ [x]) kept ↔
        x ∈ kept ∨ x ∈ l := by
    induction l generalizing kept with
    | nil => simp
    | cons a l ih =>
      rw [List.foldl_cons, ih, List.mem_cons]
      split_ifs with h
      · obtain ⟨b, hb, he⟩ := List.any_eq_true.mp h
        obtain rfl : b = a := by simpa using he
        constructor
        · rintro (h | h)
          · exact Or.inl h
          · exact Or.inr (Or.inr h)
        · rintro (h | rfl | h)
          · exact Or.inl h
          · exact Or.inl hb
          · exact Or.inr h
      · simp [or_assoc]
  unfold distinct distinctBy
  rw [fold]
  simp

/-- A program behind a step goes on with one of the programs, or with a choice among all. -/
theorem mem_behind (h : program ∈ behind step ps) :
    ∃ rest, program = step :: rest ∧ (rest ∈ ps ∨ rest = [.select ps]) := by
  unfold behind at h
  split at h
  · cases h
  · obtain rfl := List.mem_singleton.mp h
    exact ⟨_, rfl, Or.inl (by simp)⟩
  · obtain rfl := List.mem_singleton.mp h
    exact ⟨_, rfl, Or.inr rfl⟩

/-- Programs behind a step address below the step what they address. -/
theorem addressedBy_behind
    (hstep : ∀ {rest}, Addresses s rest child inner → Addresses s (step :: rest) v route)
    (h : AddressedBy s ps child inner) : AddressedBy s (behind step ps) v route := by
  obtain ⟨program, hp, ha⟩ := h
  unfold behind
  split
  · cases hp
  · obtain rfl := List.mem_singleton.mp hp
    exact ⟨_, by simp, hstep ha⟩
  · exact ⟨_, List.mem_singleton.mpr rfl, hstep (.select hp ha)⟩

/-! ### Programs of a type -/

theorem mem_fieldPrograms : ∀ {fields : List (FieldOf Ty)}, program ∈ Ty.fieldPrograms kind fields ↔
    ∃ field ∈ fields, program ∈ behind (.access field.wireName) (field.ty.programs kind)
  | [] => by simp [Ty.fieldPrograms]
  | ⟨_, _, _, _, _, _⟩ :: fields => by
    rw [Ty.fieldPrograms, List.mem_append, mem_fieldPrograms]
    simp

theorem mem_memberPrograms : ∀ {members : List Ty}, program ∈ Ty.memberPrograms kind members ↔
    ∃ member ∈ members, program ∈ member.programs kind
  | [] => by simp [Ty.memberPrograms]
  | ty :: members => by
    rw [Ty.memberPrograms, List.mem_append, mem_memberPrograms]
    simp

theorem mem_programs_of_field {fields : List (FieldOf Ty)} {additional : Option Ty}
    {field : FieldOf Ty} (hf : field ∈ fields)
    (h : program ∈ behind (.access field.wireName) (field.ty.programs kind)) :
    program ∈ (Ty.object fields additional).programs kind := by
  have hp := mem_fieldPrograms.mpr ⟨field, hf, h⟩
  cases additional with
  | none => rw [Ty.programs]; exact List.mem_append_left _ hp
  | some ty => rw [Ty.programs]; exact List.mem_append_left _ hp

/-- A type holds itself, and what a member of a union or an intersection holds. -/
inductive Ty.Holds : Ty → Ty → Prop
  | self {ty : Ty} : Holds ty ty
  | union {members : List Ty} {discriminator : Option Discriminator} {member inner : Ty} :
      member ∈ members → Holds member inner → Holds (.union members discriminator) inner
  | intersection {members : List Ty} {member inner : Ty} :
      member ∈ members → Holds member inner → Holds (.intersection members) inner

/-- What a type held reaches, the type reaches. -/
theorem Ty.Holds.reaches {ty inner : Ty} (h : ty.Holds inner)
    (hr : Reaches types kind inner v route) : Reaches types kind ty v route := by
  induction h with
  | self => exact hr
  | union hm _ ih => exact .union hm (ih hr)
  | intersection hm _ ih => exact .intersection hm (ih hr)

/-- A program of a type that is no union and no intersection.  Below its first step it goes on with
a program of the type there, or with a choice among all of them. -/
inductive Begins (kind : Kind) : Ty → Program → Prop
  | string {format : String} : format ∈ kind.formats →
      Begins kind (.scalar .string (some format)) [.this]
  | element {element : Ty} {rest : Program} :
      rest ∈ element.programs kind ∨ rest = [.select (element.programs kind)] →
        Begins kind (.array element) (.loop :: rest)
  | field {fields : List (FieldOf Ty)} {additional : Option Ty} {field : FieldOf Ty}
      {rest : Program} : field ∈ fields →
      rest ∈ field.ty.programs kind ∨ rest = [.select (field.ty.programs kind)] →
        Begins kind (.object fields additional) (.access field.wireName :: rest)
  | additional {fields : List (FieldOf Ty)} {ty : Ty} {rest : Program} :
      rest ∈ ty.programs kind ∨ rest = [.select (ty.programs kind)] →
        Begins kind (.object fields (some ty)) (.entries :: rest)
  | reference {name : String} : Begins kind (.reference name) [.ref name]

/-- The type holds one that the program belongs to. -/
def Offers (kind : Kind) (ty : Ty) (program : Program) : Prop :=
  ∃ inner, ty.Holds inner ∧ Begins kind inner program

theorem Begins.offers {ty : Ty} (h : Begins kind ty program) : Offers kind ty program :=
  ⟨ty, .self, h⟩

theorem offers_of_mem : ∀ ty : Ty, program ∈ ty.programs kind → Offers kind ty program
  | .scalar .string (some format), h => by
    rw [Ty.programs] at h
    split_ifs at h with hf
    · obtain rfl := List.mem_singleton.mp h
      exact Begins.offers (.string (Kind.mem_formats_iff.mpr hf))
    · cases h
  | .scalar .string none, h | .scalar .number _, h | .scalar .integer _, h | .scalar .boolean _, h
  | .scalar .null _, h | .scalar .any _, h => by simp [Ty.programs] at h
  | .enumeration _, h | .literal _, h => by simp [Ty.programs] at h
  | .array element, h => by
    rw [Ty.programs] at h
    obtain ⟨rest, rfl, hr⟩ := mem_behind h
    exact Begins.offers (.element hr)
  | .object fields none, h => by
    rw [Ty.programs, List.append_nil, mem_fieldPrograms] at h
    obtain ⟨field, hf, h⟩ := h
    obtain ⟨rest, rfl, hr⟩ := mem_behind h
    exact Begins.offers (.field hf hr)
  | .object fields (some ty), h => by
    rw [Ty.programs, List.mem_append, mem_fieldPrograms] at h
    rcases h with ⟨field, hf, h⟩ | h
    · obtain ⟨rest, rfl, hr⟩ := mem_behind h
      exact Begins.offers (.field hf hr)
    · obtain ⟨rest, rfl, hr⟩ := mem_behind h
      exact Begins.offers (.additional hr)
  | .union members _, h => by
    rw [Ty.programs, mem_distinct, mem_memberPrograms] at h
    obtain ⟨member, hm, h⟩ := h
    obtain ⟨inner, hi, hb⟩ := offers_of_mem member h
    exact ⟨inner, .union hm hi, hb⟩
  | .intersection members, h => by
    rw [Ty.programs, mem_distinct, mem_memberPrograms] at h
    obtain ⟨member, hm, h⟩ := h
    obtain ⟨inner, hi, hb⟩ := offers_of_mem member h
    exact ⟨inner, .intersection hm hi, hb⟩
  | .reference name, h => by
    rw [Ty.programs, List.mem_singleton] at h
    rw [h]
    exact Begins.offers .reference

/-! ### Programs and the walk -/

/-- What a program of a type addresses, or a choice among all of them, is reached by the walk. -/
theorem reaches_of_addresses (hs : s.DerivedFrom types kind) (ha : Addresses s program v route) :
    ∀ ty, Offers kind ty program ∨ program = [.select (ty.programs kind)] →
      Reaches types kind ty v route := by
  induction ha with
  | this =>
    rintro ty (⟨inner, hi, h⟩ | h)
    · cases h with
      | string hf => exact hi.reaches (.string hf)
    · cases h
  | access hat _ ih =>
    rintro ty (⟨inner, hi, h⟩ | h)
    · cases h with
      | field hf hr => exact hi.reaches (.field hf hat (ih _ (hr.imp_left (offers_of_mem _))))
    · cases h
  | loop hat _ ih =>
    rintro ty (⟨inner, hi, h⟩ | h)
    · cases h with
      | element hr => exact hi.reaches (.element hat (ih _ (hr.imp_left (offers_of_mem _))))
    · cases h
  | entries hat _ ih =>
    rintro ty (⟨inner, hi, h⟩ | h)
    · cases h with
      | additional hr => exact hi.reaches (.additional hat (ih _ (hr.imp_left (offers_of_mem _))))
    · cases h
  | select harm _ ih =>
    rintro ty (⟨inner, hi, h⟩ | h)
    · cases h
    · cases h
      exact ih ty (Or.inl (offers_of_mem ty harm))
  | @ref name _ _ _ _ hq _ ih =>
    rintro ty (⟨inner, hi, h⟩ | h)
    · cases h with
      | reference =>
        rw [hs name] at hq
        cases ht : types name with
        | none => rw [ht] at hq; cases hq
        | some declared =>
          rw [ht] at hq
          exact hi.reaches (.reference ht (ih declared (Or.inl (offers_of_mem declared hq))))
    · cases h

/-- What the walk reaches is addressed by some program of the type. -/
theorem addressedBy_of_reaches (hs : s.DerivedFrom types kind) {ty : Ty}
    (h : Reaches types kind ty v route) : AddressedBy s (ty.programs kind) v route := by
  induction h with
  | string hf =>
    rw [Ty.programs, if_pos (Kind.mem_formats_iff.mp hf)]
    exact ⟨_, List.mem_singleton.mpr rfl, .this⟩
  | element hi _ ih =>
    rw [Ty.programs]
    exact addressedBy_behind (.loop hi) ih
  | field hf hi _ ih =>
    obtain ⟨program, hp, ha⟩ := addressedBy_behind (.access hi) ih
    exact ⟨program, mem_programs_of_field hf hp, ha⟩
  | additional hi _ ih =>
    obtain ⟨program, hp, ha⟩ := addressedBy_behind (.entries hi) ih
    rw [Ty.programs]
    exact ⟨program, List.mem_append_right _ hp, ha⟩
  | union hm _ ih =>
    obtain ⟨program, hp, ha⟩ := ih
    rw [Ty.programs]
    exact ⟨program, mem_distinct.mpr (mem_memberPrograms.mpr ⟨_, hm, hp⟩), ha⟩
  | intersection hm _ ih =>
    obtain ⟨program, hp, ha⟩ := ih
    rw [Ty.programs]
    exact ⟨program, mem_distinct.mpr (mem_memberPrograms.mpr ⟨_, hm, hp⟩), ha⟩
  | @reference name ty v route ht _ ih =>
    obtain ⟨program, hp, ha⟩ := ih
    have hq : program ∈ s.programs name := by rw [hs name, ht]; exact hp
    exact ⟨[.ref name], by simp [Ty.programs], .ref hq ha⟩

/-- **The programs of a type** address exactly the slots that the walk reaches. -/
theorem addressedBy_programs_iff (hs : s.DerivedFrom types kind) (ty : Ty) :
    AddressedBy s (ty.programs kind) v route ↔ Reaches types kind ty v route :=
  ⟨fun ⟨_, hp, ha⟩ => reaches_of_addresses hs ha ty (Or.inl (offers_of_mem ty hp)),
    addressedBy_of_reaches hs⟩

/-! ### The form of the programs -/

theorem stopsLast_cons {step : Step} (hd : step.descends = true) (hr : stopsLast rest = true) :
    stopsLast (step :: rest) = true := by
  cases rest with
  | nil => cases step <;> first | rfl | cases hd
  | cons next rest => rw [stopsLast, hd, hr]; rfl

theorem allStopLast_behind (hd : step.descends = true) (h : allStopLast ps = true) :
    ∀ program ∈ behind step ps, stopsLast program = true := by
  intro program hp
  obtain ⟨rest, rfl, hr⟩ := mem_behind hp
  refine stopsLast_cons hd ?_
  rcases hr with hr | rfl
  · exact allStopLast_iff.mp h rest hr
  · simpa [stopsLast, stepStopsLast] using h

mutual

/-- In the programs of a type, `this`, `select` and `ref` stand last. -/
theorem allStopLast_programs (kind : Kind) : ∀ ty : Ty, allStopLast (ty.programs kind) = true
  | .scalar .string (some format) => by rw [Ty.programs]; split_ifs <;> rfl
  | .scalar .string none | .scalar .number _ | .scalar .integer _ | .scalar .boolean _
  | .scalar .null _ | .scalar .any _ => by simp [Ty.programs, allStopLast]
  | .enumeration _ | .literal _ | .reference _ => by
    simp [Ty.programs, allStopLast, stopsLast, stepStopsLast]
  | .array element => by
    rw [Ty.programs]
    exact allStopLast_iff.mpr (allStopLast_behind rfl (allStopLast_programs kind element))
  | .object fields none => by
    rw [Ty.programs, List.append_nil]
    exact allStopLast_fieldPrograms kind fields
  | .object fields (some ty) => by
    rw [Ty.programs, allStopLast_iff]
    intro program hp
    rcases List.mem_append.mp hp with hp | hp
    · exact allStopLast_iff.mp (allStopLast_fieldPrograms kind fields) program hp
    · exact allStopLast_behind rfl (allStopLast_programs kind ty) program hp
  | .union members _ | .intersection members => by
    rw [Ty.programs, allStopLast_iff]
    intro program hp
    exact allStopLast_iff.mp (allStopLast_memberPrograms kind members) program (mem_distinct.mp hp)

theorem allStopLast_fieldPrograms (kind : Kind) :
    ∀ fields : List (FieldOf Ty), allStopLast (Ty.fieldPrograms kind fields) = true
  | [] => rfl
  | ⟨_, _, ty, _, _, _⟩ :: fields => by
    rw [Ty.fieldPrograms, allStopLast_iff]
    intro program hp
    rcases List.mem_append.mp hp with hp | hp
    · exact allStopLast_behind rfl (allStopLast_programs kind ty) program hp
    · exact allStopLast_iff.mp (allStopLast_fieldPrograms kind fields) program hp

theorem allStopLast_memberPrograms (kind : Kind) :
    ∀ members : List Ty, allStopLast (Ty.memberPrograms kind members) = true
  | [] => rfl
  | ty :: members => by
    rw [Ty.memberPrograms, allStopLast_iff]
    intro program hp
    rcases List.mem_append.mp hp with hp | hp
    · exact allStopLast_iff.mp (allStopLast_programs kind ty) program hp
    · exact allStopLast_iff.mp (allStopLast_memberPrograms kind members) program hp

end

end ApiDecl
