import ApiDecl.Declarations
import ApiDecl.Proofs.Json.RoundTrip

/-!
# Programs and tables read back

Reading accepts several spellings of a step: the object with its members in either order, the pair,
and numbers for tags within an argument that stands before its tag.  Writing uses one of them, an
object whose tag stands first.  It is read back as the step that was written, whether tags may be
counted or not (`stepOfJson_stepToJson`), and so are programs (`ofItems_toItems`), lists of programs
(`listOfJson_listToJson`) and sections in their order (`sectionOfMembers_map`).

Declarations are read back from their text (`Declarations.parse_text`), and the table with them.
-/

namespace ApiDecl

namespace Program

mutual

/-- **A step** is read back, whatever tags are accepted. -/
theorem stepOfJson_stepToJson (counted : Bool) :
    ∀ step : Step, stepOfJson? counted (stepToJson step) = some step
  | .this | .loop | .entries => by
    simp [stepToJson, stepOfJson?, Member.lookup, Tag.ofJson?, Tag.ofName?, plain]
  | .access name | .ref name => by
    simp [stepToJson, stepOfJson?, Member.lookup, Tag.ofJson?, Tag.ofName?, named]
  | .select arms => by
    -- the tag stands before the argument, so it is only counted in the arms if it was before
    have harms := listOfItems_listToItems counted arms
    simp [stepToJson, stepOfJson?, Member.lookup, Tag.ofJson?, Tag.ofName?, armsOfMembers?,
      precedes, listOfJson?, harms]

/-- A program is read back step by step. -/
theorem ofItems_toItems (counted : Bool) :
    ∀ program : Program, ofItems? counted (toItems program) = some program
  | [] => by rw [toItems, ofItems?]
  | step :: rest => by
    rw [toItems, ofItems?, stepOfJson_stepToJson counted step, ofItems_toItems counted rest]

/-- Programs are read back one by one. -/
theorem listOfItems_listToItems (counted : Bool) :
    ∀ programs : List Program, listOfItems? counted (listToItems programs) = some programs
  | [] => by rw [listToItems, listOfItems?]
  | program :: rest => by
    rw [listToItems, listOfItems?, ofItems_toItems counted program,
      listOfItems_listToItems counted rest]

end

theorem listOfJson_listToJson (counted : Bool) (programs : List Program) :
    listOfJson? counted (listToJson programs) = some programs := by
  rw [listToJson, listOfJson?, listOfItems_listToItems]

end Program

namespace Table

theorem sectionOfMembers_map (s : Section) :
    sectionOfMembers? (s.map fun (name, programs) => (name, Program.listToJson programs)) =
      some s := by
  induction s with
  | nil => rfl
  | cons entry rest ih =>
    rw [List.map_cons, sectionOfMembers?, Program.listOfJson_listToJson, ih]

theorem ofName_name (kind : Kind) : Kind.ofName? kind.name = some kind := by
  cases kind <;> rfl

/-- The section of a kind is read into its place. -/
theorem addSections_cons (t : Table) (kind : Kind) (s : Section) (rest : List (String × Json)) :
    addSections? t ((kind.name, sectionToJson s) :: rest) =
      addSections? (t.setSection kind (some s)) rest := by
  simp only [addSections?, ofName_name, sectionToJson, sectionOfMembers_map]

/-- **A table** is read back, with the kinds that have a section, names and programs in order. -/
theorem ofJson_toJson (t : Table) : ofJson? t.toJson = some t := by
  obtain ⟨date, binary⟩ := t
  have hread : ofJson? (toJson ⟨date, binary⟩) = addSections? empty
      (Kind.all.filterMap fun kind =>
        (section? ⟨date, binary⟩ kind).map fun s => (kind.name, sectionToJson s)) := rfl
  rw [hread]
  cases date <;> cases binary <;>
    simp only [Kind.all, List.filterMap_cons, List.filterMap_nil, section?, Option.map_some,
      Option.map_none, addSections_cons] <;> rfl

end Table

/-- **Tables survive the wire.**  Every table is read back from its JSON value, with the same names
and programs in the same order, and so are programs by themselves, be it one or many.  So whoever
reads the transforms of declarations has the programs that were registered for each kind and
name. -/
theorem table_round_trip :
    (∀ t : Table, Table.ofJson? t.toJson = some t) ∧
    (∀ programs : List Program,
      Program.listOfJson? false (Program.listToJson programs) = some programs) ∧
    (∀ program : Program, Program.ofJson? program.toJson = some program) ∧
    ∀ l : Declarations, ∃ members value t, l.toJson = .object members ∧
      Member.lookup "transforms" members = some value ∧ Table.ofJson? value = some t ∧
      ∀ kind name, t.programs kind name = l.table.programs kind name := by
  refine ⟨Table.ofJson_toJson, Program.listOfJson_listToJson false,
    Program.ofItems_toItems false, fun l => ?_⟩
  exact ⟨_, l.table.toJson, l.table, rfl, by simp [Member.lookup], l.table.ofJson_toJson,
    fun _ _ => rfl⟩

namespace Declarations

variable {l : Declarations}

/-- **Declarations are read back from their text**, as far as the reader goes down. -/
theorem parse_text (hk : l.toJson.Keyed) (hr : l.toJson.ReadsWithin depthLimit) :
    Json.parse l.text = some l.toJson :=
  Json.parse_pretty hk hr

/-- So whoever reads the text has the table. -/
theorem table_of_parse_text (hk : l.toJson.Keyed) (hr : l.toJson.ReadsWithin depthLimit) :
    ((Json.parse l.text).bind (Json.member? "transforms")).bind Table.ofJson? = some l.table := by
  have hmember : l.toJson.member? "transforms" = some l.table.toJson := by
    simp [toJson, Json.member?, Member.lookup]
  rw [parse_text hk hr, Option.bind_some, hmember, Option.bind_some, Table.ofJson_toJson]

end Declarations

end ApiDecl
