import ApiDecl.Transform.Program

/-!
# Transform tables

A table holds, for each kind of conversion, the programs of each name.  Names keep the order in which they
were first given; a list of programs that is empty is not taken.

* `Section`, `Table`: the programs of one kind, and of both kinds;
* `Table.programs`: the programs of a kind and name, none if there are none
  (`programs_insert_self`, `programs_insert_of_ne`);
* `Table.toJson`, `Table.ofJson?`: tables as JSON.
-/

namespace ApiDecl

/-- The programs of each name. -/
abbrev Section := List (String × List Program)

/-- The programs of a name. -/
def Section.programs (s : Section) (name : String) : List Program := (Member.lookup name s).getD []

/-- The sections of each kind; a section may be absent. -/
structure Table where
  date : Option Section
  binary : Option Section
  deriving DecidableEq

namespace Table

/-- The table without sections. -/
def empty : Table := ⟨none, none⟩

/-- The section of a kind, if there is one. -/
def section? (t : Table) : Kind → Option Section
  | .date => t.date
  | .binary => t.binary

/-- The section of a kind. -/
def entries (t : Table) (kind : Kind) : Section := (t.section? kind).getD []

/-- Replaces the section of a kind. -/
def setSection (t : Table) (kind : Kind) (s : Option Section) : Table :=
  match kind with
  | .date => { t with date := s }
  | .binary => { t with binary := s }

/-- The programs of a kind and name. -/
def programs (t : Table) (kind : Kind) (name : String) : List Program := (t.entries kind).programs name

/-- Registers the programs of a kind and name, unless there are none. -/
def insert (t : Table) (kind : Kind) (name : String) (programs : List Program) : Table :=
  if programs.isEmpty then t
  else t.setSection kind (some (Member.put name programs (t.entries kind)))

/-- The names registered for a kind. -/
def names (t : Table) (kind : Kind) : List String := (t.entries kind).map Prod.fst

/-- A name is registered for a kind. -/
def contains (t : Table) (kind : Kind) (name : String) : Bool := Member.has name (t.entries kind)

/-- No name is registered. -/
def isEmpty (t : Table) : Bool := Kind.all.all fun kind => (t.entries kind).isEmpty

theorem entries_setSection_self (t : Table) (kind : Kind) (s : Section) :
    (t.setSection kind (some s)).entries kind = s := by
  cases kind <;> rfl

theorem entries_setSection_of_ne (t : Table) {kind other : Kind} (h : other ≠ kind)
    (s : Option Section) : (t.setSection kind s).entries other = t.entries other := by
  cases kind <;> cases other <;> first | rfl | exact absurd rfl h

/-- Programs just registered are there. -/
theorem programs_insert_self (t : Table) (kind : Kind) (name : String) {programs : List Program}
    (h : programs ≠ []) : (t.insert kind name programs).programs kind name = programs := by
  have he : programs.isEmpty = false := by simpa using h
  simp [insert, he, Table.programs, entries_setSection_self, Section.programs,
    Member.lookup_put_self]

/-- Registering programs leaves those of other names and kinds alone. -/
theorem programs_insert_of_ne (t : Table) {kind other : Kind} {name rival : String}
    (h : other ≠ kind ∨ rival ≠ name) (programs : List Program) :
    (t.insert kind name programs).programs other rival = t.programs other rival := by
  unfold insert
  split
  · rfl
  · by_cases hk : other = kind
    · subst hk
      have hn : rival ≠ name := h.resolve_left (fun hne => hne rfl)
      simp [Table.programs, entries_setSection_self, Section.programs,
        Member.lookup_put_of_ne hn]
    · simp [Table.programs, entries_setSection_of_ne t hk]

/-! ### Tables as JSON -/

/-- A section as JSON. -/
def sectionToJson (s : Section) : Json :=
  .object (s.map fun (name, programs) => (name, Program.listToJson programs))

/-- A table as JSON: the sections that are present, dates first. -/
def toJson (t : Table) : Json :=
  .object [("kinds", .object (Kind.all.filterMap fun kind =>
    (t.section? kind).map fun s => (kind.name, sectionToJson s)))]

/-- Reads the programs of each name. -/
def sectionOfMembers? : List (String × Json) → Option Section
  | [] => some []
  | (name, value) :: rest =>
    match Program.listOfJson? false value, sectionOfMembers? rest with
    | some programs, some s => some ((name, programs) :: s)
    | _, _ => none

/-- Reads the sections of each kind into a table. -/
def addSections? (t : Table) : List (String × Json) → Option Table
  | [] => some t
  | (name, value) :: rest =>
    match Kind.ofName? name, value with
    | some kind, .object members =>
      match sectionOfMembers? members with
      | some s => addSections? (t.setSection kind (some s)) rest
      | none => none
    | _, _ => none

/-- Reads a table: an object with the member `kinds`, or a list of its value alone. -/
def ofJson? : Json → Option Table
  | .object members =>
    match Member.lookup "kinds" members with
    | some (.object kinds) => addSections? empty kinds
    | _ => none
  | .array [.object kinds] => addSections? empty kinds
  | _ => none

end Table

end ApiDecl
