import ApiDecl.Proofs.Names
import ApiDecl.Proofs.Payload.RoundTrip

/-!
# Members of an object

An object type may have fields and a type of further members.  Its programs convert a member first as the
fields of its name ask for, and then as the type of further members asks for, whether the member is
declared or not (`lookup_convertKind_object`): `entries` goes to every member.  So a declared member is
converted on its own account alone just if the type of further members leaves it alone, and a member that
is not declared is converted as that type asks for and no field does (`convertKind_object_shown`).

* `convertKind_append`: programs in a row convert one after the other;
* `convertKind_access`, `convertKind_entries`: what programs behind a step convert in an object.
-/

namespace ApiDecl

open Payload

namespace Table

variable (t : Table) (kind : Kind) (direction : Direction)

/-- Programs in a row convert one after the other. -/
theorem convertKind_append (ps qs : List Program) (v : Payload) :
    t.convertKind kind direction (ps ++ qs) v =
      t.convertKind kind direction qs (t.convertKind kind direction ps v) := by
  have hf := leafwise_conversion kind direction
  have hs := hf.shape_convertAt (AddressedBy (t.entries kind) ps v) v
  rw [convertKind_eq, convertKind_eq, convertKind_eq]
  calc
    _ = v.convertAt (kind.conversion direction) (fun route =>
          AddressedBy (t.entries kind) ps v route ∨ AddressedBy (t.entries kind) qs v route) := by
        refine convertAt_congr (fun route => ?_) _ v
        unfold AddressedBy
        simp only [List.mem_append, or_and_right, exists_or]
    _ = (v.convertAt (kind.conversion direction) (AddressedBy (t.entries kind) ps v)).convertAt
          (kind.conversion direction) (AddressedBy (t.entries kind) qs v) :=
        (hf.convertAt_convertAt _ _ v).symm
    _ = _ := by
        refine convertAt_congr (fun route => ?_) _ _
        exact exists_congr fun program => and_congr_right fun _ =>
          ⟨fun h => ApiDecl.addresses_of_shape h hs.symm, fun h => ApiDecl.addresses_of_shape h hs⟩

@[simp] theorem convertKind_nil (v : Payload) : t.convertKind kind direction [] v = v := by
  rw [convertKind_eq, convertAt_of_not (by simp [AddressedBy])]

end Table

/-- Programs behind a step address what they address where the step leads. -/
theorem addressedBy_behind_iff {s : Section} {step : Step} {ps : List Program} {v : Payload}
    {route : Route} {leads : Payload → Route → Prop}
    (hstep : ∀ rest, Addresses s (step :: rest) v route ↔
      ∃ child inner, leads child inner ∧ Addresses s rest child inner) :
    AddressedBy s (behind step ps) v route ↔
      ∃ child inner, leads child inner ∧ AddressedBy s ps child inner := by
  constructor
  · rintro ⟨program, hp, ha⟩
    obtain ⟨rest, rfl, hr⟩ := mem_behind hp
    obtain ⟨child, inner, hl, ha⟩ := (hstep rest).mp ha
    refine ⟨child, inner, hl, ?_⟩
    rcases hr with hr | rfl
    · exact ⟨rest, hr, ha⟩
    · cases ha with
      | select harm ha => exact ⟨_, harm, ha⟩
  · rintro ⟨child, inner, hl, ha⟩
    exact addressedBy_behind (fun ha => (hstep _).mpr ⟨child, inner, hl, ha⟩) ha

/-- The programs that fields ask for at a member of a name. -/
def Ty.ownPrograms (kind : Kind) (fields : List (FieldOf Ty)) (name : String) : List Program :=
  (fields.filter (·.wireName = name)).flatMap fun field => field.ty.programs kind

theorem Ty.ownPrograms_cons (kind : Kind) (field : FieldOf Ty) (fields : List (FieldOf Ty))
    (name : String) : ownPrograms kind (field :: fields) name =
      (if field.wireName = name then field.ty.programs kind else []) ++
        ownPrograms kind fields name := by
  by_cases h : field.wireName = name <;> simp [ownPrograms, h]

theorem Ty.ownPrograms_of_not_mem {kind : Kind} {fields : List (FieldOf Ty)} {name : String}
    (hn : name ∉ fields.map FieldOf.wireName) : ownPrograms kind fields name = [] := by
  induction fields with
  | nil => rfl
  | cons field fields ih =>
    rw [List.map_cons, List.mem_cons, not_or] at hn
    rw [ownPrograms_cons, if_neg (Ne.symm hn.1), ih hn.2, List.append_nil]

/-- Of fields with distinct names, one alone asks for something at its member. -/
theorem Ty.ownPrograms_of_mem {kind : Kind} {fields : List (FieldOf Ty)}
    (hd : (fields.map FieldOf.wireName).Nodup) {field : FieldOf Ty} (hf : field ∈ fields) :
    ownPrograms kind fields field.wireName = field.ty.programs kind := by
  induction fields with
  | nil => cases hf
  | cons first fields ih =>
    rw [List.map_cons, List.nodup_cons] at hd
    rw [ownPrograms_cons]
    rcases List.mem_cons.mp hf with rfl | hf
    · rw [if_pos rfl, ownPrograms_of_not_mem hd.1, List.append_nil]
    · have hne : first.wireName ≠ field.wireName := by
        intro he
        exact hd.1 (List.mem_map.mpr ⟨field, hf, he.symm⟩)
      rw [if_neg hne, ih hd.2 hf, List.nil_append]

section

variable (t : Table) (kind : Kind) (direction : Direction) (ps : List Program)
  (members : List (String × Payload))

/-- Behind `access`, the first member of the name is converted. -/
theorem convertKind_access (name : String) :
    t.convertKind kind direction (behind (.access name) ps) (.object members) =
      .object (Member.modify name (t.convertKind kind direction ps) members) := by
  have hf := leafwise_conversion kind direction
  have hbehind (route : Route) :
      AddressedBy (t.entries kind) (behind (.access name) ps) (.object members) route ↔
        ∃ child inner, (Member.lookup name members = some child ∧
          route = Member.position name members :: inner) ∧
            AddressedBy (t.entries kind) ps child inner := by
    refine addressedBy_behind_iff fun rest => ?_
    constructor
    · intro ha
      cases ha with
      | access hi ha => exact ⟨_, _, ⟨Member.lookup_eq_some_iff.mpr hi, rfl⟩, ha⟩
    · rintro ⟨child, inner, ⟨hl, rfl⟩, ha⟩
      exact .access (Member.lookup_eq_some_iff.mp hl) ha
  rw [Table.convertKind_eq, Member.modify_eq]
  cases hl : Member.lookup name members with
  | none =>
    refine convertAt_of_not (fun route ha => ?_) _ _
    obtain ⟨child, _, ⟨hl', -⟩, -⟩ := (hbehind route).mp ha
    rw [hl] at hl'
    cases hl'
  | some child =>
    simp only [Table.convertKind_eq]
    refine convertAt_member hf hl fun i route => ?_
    rw [hbehind]
    constructor
    · rintro ⟨child', inner, ⟨hl', he⟩, ha⟩
      obtain rfl := Option.some.inj (hl.symm.trans hl')
      obtain ⟨rfl, rfl⟩ := List.cons.inj he
      exact ⟨rfl, ha⟩
    · rintro ⟨rfl, ha⟩
      exact ⟨child, route, ⟨hl, rfl⟩, ha⟩

/-- Behind `entries`, every member is converted. -/
theorem convertKind_entries :
    t.convertKind kind direction (behind .entries ps) (.object members) =
      .object (members.map fun m => (m.1, t.convertKind kind direction ps m.2)) := by
  have hf := leafwise_conversion kind direction
  have hbehind (route : Route) :
      AddressedBy (t.entries kind) (behind .entries ps) (.object members) route ↔
        ∃ child inner, (∃ i name, members[i]? = some (name, child) ∧ route = i :: inner) ∧
          AddressedBy (t.entries kind) ps child inner := by
    refine addressedBy_behind_iff fun rest => ?_
    constructor
    · intro ha
      cases ha with
      | entries hi ha => exact ⟨_, _, ⟨_, _, hi, rfl⟩, ha⟩
    · rintro ⟨child, inner, ⟨i, name, hi, rfl⟩, ha⟩
      exact .entries hi ha
  simp only [Table.convertKind_eq]
  refine convertAt_members hf fun i name child hi route => ?_
  rw [hbehind]
  constructor
  · rintro ⟨child', inner, ⟨j, name', hj, he⟩, ha⟩
    obtain ⟨rfl, rfl⟩ := List.cons.inj he
    obtain ⟨-, rfl⟩ := Prod.mk.inj (Option.some.inj (hi.symm.trans hj))
    exact ha
  · exact fun ha => ⟨child, route, ⟨i, name, hi, rfl⟩, ha⟩

/-- The programs of fields convert each member as the fields of its name ask for. -/
theorem convertKind_fieldPrograms : ∀ (fields : List (FieldOf Ty)) (members : List (String × Payload)),
    ∃ members', t.convertKind kind direction (Ty.fieldPrograms kind fields) (.object members) =
        .object members' ∧
      members'.map Prod.fst = members.map Prod.fst ∧
      ∀ name, Member.lookup name members' =
        (Member.lookup name members).map
          (t.convertKind kind direction (Ty.ownPrograms kind fields name))
  | [], members => by
    refine ⟨members, t.convertKind_nil kind direction _, rfl, fun name => ?_⟩
    have hnone : Ty.ownPrograms kind [] name = [] := Ty.ownPrograms_of_not_mem List.not_mem_nil
    rw [hnone, funext (t.convertKind_nil kind direction)]
    exact Option.map_id'.symm
  | ⟨_, wireName, ty, _, _, _⟩ :: fields, members => by
    obtain ⟨members', hm, hn, hl⟩ := convertKind_fieldPrograms fields
      (Member.modify wireName (t.convertKind kind direction (ty.programs kind)) members)
    refine ⟨members', ?_, hn.trans (Member.map_fst_modify ..), fun name => ?_⟩
    · rw [Ty.fieldPrograms, Table.convertKind_append, convertKind_access, hm]
    · rw [hl, Ty.ownPrograms_cons]
      by_cases hname : wireName = name
      · subst hname
        rw [Member.lookup_modify_self, Option.map_map, if_pos rfl,
          funext (t.convertKind_append kind direction _ _)]
        rfl
      · rw [Member.lookup_modify_of_ne (Ne.symm hname), if_neg hname, List.nil_append]

/-- **The programs of an object type** convert each member first as the fields of its name ask for and
then as the type of further members asks for. -/
theorem lookup_convertKind_object (fields : List (FieldOf Ty)) (additional : Ty) :
    ∃ members', t.convertKind kind direction ((Ty.object fields (some additional)).programs kind)
        (.object members) = .object members' ∧
      members'.map Prod.fst = members.map Prod.fst ∧
      ∀ name, Member.lookup name members' = (Member.lookup name members).map fun v =>
        t.convertKind kind direction (additional.programs kind)
          (t.convertKind kind direction (Ty.ownPrograms kind fields name) v) := by
  obtain ⟨members', hm, hn, hl⟩ := convertKind_fieldPrograms t kind direction fields members
  refine ⟨_, by rw [Ty.programs, Table.convertKind_append, hm, convertKind_entries], ?_, fun name => ?_⟩
  · rw [← hn]
    simp
  · rw [Member.lookup_map_snd, hl, Option.map_map]
    rfl

end

/-- **Declared members are converted on their own account, and on that of the type of further members.**
In an object type that has been compiled, the programs convert a declared member as those of its field do
and then as those of the type of further members do, which alone govern the members not declared. -/
theorem convertKind_object_shown {d : Document} {options : CasedOptions} {l : Declarations} (hd : d.Keyed)
    (hl : d.compile options = .ok l) {ty : Ty} (hs : l.Shows ty) {fields : List (FieldOf Ty)}
    {additional : Ty} (hc : ty.Contains (.object fields (some additional))) (t : Table) (kind : Kind)
    (direction : Direction) (members : List (String × Payload)) :
    ∃ members', t.convertKind kind direction ((Ty.object fields (some additional)).programs kind)
        (.object members) = .object members' ∧
      members'.map Prod.fst = members.map Prod.fst ∧
      (∀ field ∈ fields, Member.lookup field.wireName members' =
        (Member.lookup field.wireName members).map fun v =>
          t.convertKind kind direction (additional.programs kind)
            (t.convertKind kind direction (field.ty.programs kind) v)) ∧
      ∀ name ∉ fields.map FieldOf.wireName, Member.lookup name members' =
        (Member.lookup name members).map (t.convertKind kind direction (additional.programs kind)) := by
  obtain ⟨-, hdistinct, -⟩ := (names_wellFormed hd hl).2.2.1 ty hs fields (some additional) hc
  obtain ⟨members', hm, hn, hlookup⟩ :=
    lookup_convertKind_object t kind direction members fields additional
  refine ⟨members', hm, hn, fun field hf => ?_, fun name hname => ?_⟩
  · rw [hlookup, Ty.ownPrograms_of_mem hdistinct hf]
  · rw [hlookup, Ty.ownPrograms_of_not_mem hname]
    simp only [Table.convertKind_nil]

/-! ### A document with a label -/

/-- A day. -/
def dayNode : Node := .schema ⟨{ Facets.empty with types := some (.one "string"), format := some "date" },
  ⟨[], none, none, none, none, none⟩⟩

/-- A text, and days by other names. -/
def labelNode : Node :=
  .schema ⟨.empty, ⟨[("text", textNode)], none, some dayNode, none, none, none⟩⟩

/-- Labels alone. -/
def labelDocument : Document where
  format := some "3.0.0"
  info := ⟨"Labels", "1", none⟩
  servers := []
  paths := []
  components := ⟨[("Label", labelNode)], [], [], [], []⟩
  security := none

/-- The fields of a label. -/
def labelFields : List (FieldOf Ty) := [⟨"text", "text", .scalar .string none, false, none, false⟩]

/-- The type of a label. -/
def labelType : Ty := .object labelFields (some (.scalar .string (some "date")))

/-- The declarations of the document. -/
def labelDeclarations : Declarations where
  title := "Labels"
  version := "1"
  types := [⟨⟨"Label", "Label", labelType, none, false⟩, false⟩]
  operations := []
  auth := []
  context := ⟨none, []⟩
  table := ⟨some [("Label", [[.entries, .this]])], none⟩

set_option maxRecDepth 10000 in
theorem compile_labelDocument : labelDocument.compile .default = .ok labelDeclarations := by
  cbv

theorem labelDeclarations_shows : labelDeclarations.Shows labelType :=
  .declared (t := ⟨⟨"Label", "Label", labelType, none, false⟩, false⟩) (List.mem_singleton.mpr rfl)

theorem eq_of_labelDocument_contains {node : Node} (h : labelDocument.Contains node) :
    node = labelNode ∨ node = textNode ∨ node = dayNode := by
  induction h with
  | component h =>
    have he := List.mem_singleton.mp h
    exact Or.inl (Prod.mk.inj he).2
  | parameter h => simp [labelDocument, Document.parameters] at h
  | body h => simp [labelDocument, Document.bodies] at h
  | response h => simp [labelDocument, Document.responses] at h
  | part _ hp ih =>
    rcases ih with he | he | he
    · cases he
      rcases hp with hm | hm | hm | hm | hm | hm
      · have he := List.mem_singleton.mp hm
        exact Or.inr (Or.inl (Prod.mk.inj he).2)
      · cases hm
      · exact Or.inr (Or.inr (Option.some.inj hm).symm)
      all_goals cases hm
    · cases he
      rcases hp with hm | hm | hm | hm | hm | hm <;> cases hm
    · cases he
      rcases hp with hm | hm | hm | hm | hm | hm <;> cases hm

theorem keyed_labelDocument : labelDocument.Keyed := by
  intro s hs
  rcases eq_of_labelDocument_contains hs with he | he | he
  · cases he
    decide
  · cases he
    decide
  · cases he
    decide

/-- The text and a day of a label. -/
theorem convertKind_object_shown_label :
    labelDocument.Keyed ∧ labelDocument.compile .default = .ok labelDeclarations ∧
      labelDeclarations.Shows labelType ∧
      labelType.Contains (.object labelFields (some (.scalar .string (some "date")))) ∧
      ∃ members', labelDeclarations.table.convertKind .date .inbound (labelType.programs .date)
          (.object [("text", .string "a"), ("since", .string "2020-01-02")]) = .object members' ∧
        members'.map Prod.fst = ["text", "since"] ∧
        (∀ field ∈ labelFields, Member.lookup field.wireName members' =
          (Member.lookup field.wireName
            [("text", .string "a"), ("since", .string "2020-01-02")]).map fun v =>
              labelDeclarations.table.convertKind .date .inbound [[.this]]
                (labelDeclarations.table.convertKind .date .inbound (field.ty.programs .date) v)) ∧
        ∀ name ∉ labelFields.map FieldOf.wireName, Member.lookup name members' =
          (Member.lookup name [("text", .string "a"), ("since", .string "2020-01-02")]).map
            (labelDeclarations.table.convertKind .date .inbound [[.this]]) :=
  ⟨keyed_labelDocument, compile_labelDocument, labelDeclarations_shows, .self,
    convertKind_object_shown keyed_labelDocument compile_labelDocument labelDeclarations_shows .self
      labelDeclarations.table .date .inbound
      [("text", .string "a"), ("since", .string "2020-01-02")]⟩

/-- A text that looks like a day becomes one, though its field asks for nothing. -/
theorem convertKind_label :
    labelDocument.compile .default = .ok labelDeclarations ∧ labelDeclarations.Shows labelType ∧
      ⟨"text", "text", .scalar .string none, false, none, false⟩ ∈ labelFields ∧
      (Ty.scalar .string none).programs .date = [] ∧
      labelDeclarations.table.convertKind .date .inbound [] (.string "2020-01-02") =
        .string "2020-01-02" ∧
      labelDeclarations.table.convertKind .date .inbound (labelType.programs .date)
          (.object [("text", .string "2020-01-02")]) =
        .object [("text", .day ⟨2020, 1, 2, by decide, by decide, by decide⟩)] := by
  refine ⟨compile_labelDocument, labelDeclarations_shows, List.mem_singleton.mpr rfl, ?_,
    Table.convertKind_nil .., ?_⟩
  · simp [Ty.programs]
  · cbv

end ApiDecl
