import ApiDecl.Proofs.Payload.Conversion
import ApiDecl.Proofs.Types.Ways

/-!
# How often declarations convert a slot

What an operation carries is converted at a slot once for each way that its programs lead there, and
never more often (`calls_le_ways`).  The programs lead to a slot in no more ways than the type does, so a
slot that the type leads to in one way is converted once at most, and a slot that it leads to in none is
left alone.  Two ways do lead to a member that is declared and falls under the type of further members as
well, and such a member is converted twice (`calls_diary`).
-/

namespace ApiDecl

/-- The number of ways in which a type of the declarations leads to a conversion of the slot of a
path. -/
def Declarations.ways (l : Declarations) (kind : Kind) (ty : Ty) (path : List Place) : Nat :=
  Ty.ways l.declared (l.types.map fun t => t.named.name) kind path [ty]

theorem Declarations.mem_names_of_declared {l : Declarations} {name : String} {ty : Ty}
    (h : l.declared name = some ty) : name ∈ l.types.map fun t => t.named.name := by
  obtain ⟨t, ht, -⟩ := Option.map_eq_some_iff.mp h
  unfold type? at ht
  have hname : t.named.name = name := by simpa using List.find?_some ht
  exact List.mem_map.mpr ⟨t, List.mem_of_find?_eq_some ht, hname⟩

/-- **No slot is converted more often than the type asks for it.**  Running what an operation carries
calls the conversion at the slot of a path at most as often as the programs lead there, and so at most
as often as the type does, whatever the payload and the conversion. -/
theorem calls_le_ways {d : Document} {options : CasedOptions} {l : Declarations}
    (hl : d.compile options = .ok l) {o : OperationDeclaration} (ho : o ∈ l.operations) {ty : Ty}
    {links : Links} (hc : o.Carries ty links) (kind : Kind) {σ : Type} {h : Handler σ}
    {slot r : σ × Payload} {trace : List (List Place)}
    (hx : Executes (l.table.entries kind) h [] (.programs [] (links.programs kind)) slot trace r)
    (path : List Place) :
    trace.count path ≤ (l.table.entries kind).programWays (links.programs kind) path ∧
      (l.table.entries kind).programWays (links.programs kind) path ≤ l.ways kind ty path := by
  refine ⟨hx.count_le path, ?_⟩
  obtain ⟨t, ht, rfl, hderived⟩ := Declarations.exists_table_of_carries hl ho hc
  obtain ⟨hnames, hs⟩ := hderived kind
  have hfollowed : (t.entries kind).FollowedBy l.declared (l.types.map fun t => t.named.name) :=
    fun _ _ hty _ => Declarations.mem_names_of_declared hty
  rw [ht, Ty.programs_prune_links, Table.entries_prune, Table.names_prune,
    Section.programWays_pruned (Section.prunedOf_prune hnames _) (Section.closedUnder_liveNames _)
      hs.stopsLast (allStopLast_programs kind ty)]
  exact programWays_le hs hfollowed ty path

/-- An item with an item behind it. -/
def itemPayload : Payload :=
  .object [("at", .string "2020-01-02"), ("next", .object [("at", .string "2020-01-03")])]

/-- The days of both items are converted, one after the other. -/
theorem executes_itemPayload : ∃ r, Executes (itemDeclarations.table.entries .date)
    (.ofFunction Payload.parseDate) [] (.programs [] [[.ref "Item"]]) ((), itemPayload)
    [[.member 0 "at"], [.member 1 "next", .member 0 "at"]] r := by
  have hx : ∃ trace r, Executes (itemDeclarations.table.entries .date)
      (.ofFunction Payload.parseDate) [] (.programs [] [[.ref "Item"]]) ((), itemPayload) trace r ∧
      trace = [[.member 0 "at"], [.member 1 "next", .member 0 "at"]] :=
    ⟨_, _, .cons (.ref List.not_mem_nil (.cons (.access rfl .this) (.cons (.access rfl
      (.ref List.not_mem_nil (.cons (.access rfl .this) (.cons (.absent rfl) .nil)))) .nil))) .nil,
      by rfl⟩
  obtain ⟨trace, r, hx, rfl⟩ := hx
  exact ⟨r, hx⟩

theorem calls_le_ways_item :
    itemDocument.compile .default = .ok itemDeclarations ∧
      itemOperation ∈ itemDeclarations.operations ∧
      itemOperation.Carries (.reference "Item") ⟨[[.ref "Item"]], []⟩ ∧
      ∃ r, Executes (itemDeclarations.table.entries .date) (.ofFunction Payload.parseDate) []
          (.programs [] [[.ref "Item"]]) ((), itemPayload)
          [[.member 0 "at"], [.member 1 "next", .member 0 "at"]] r ∧
        ∀ path, [[.member 0 "at"], [.member 1 "next", Place.member 0 "at"]].count path ≤
            (itemDeclarations.table.entries .date).programWays [[.ref "Item"]] path ∧
          (itemDeclarations.table.entries .date).programWays [[.ref "Item"]] path ≤
            itemDeclarations.ways .date (.reference "Item") path := by
  have ho : itemOperation ∈ itemDeclarations.operations := List.mem_singleton.mpr rfl
  have hc : itemOperation.Carries (.reference "Item") ⟨[[.ref "Item"]], []⟩ :=
    Or.inr ⟨_, List.mem_singleton.mpr rfl, _, rfl, rfl, rfl⟩
  obtain ⟨r, hx⟩ := executes_itemPayload
  exact ⟨compile_itemDocument, ho, hc, r, hx, calls_le_ways compile_itemDocument ho hc .date hx⟩

/-! ### A member that is led to in two ways -/

/-- Diaries with a day, and with more days by other names. -/
def diaryNode : Node := .schema ⟨.empty, ⟨[
  ("at", .schema ⟨{ Facets.empty with types := some (.one "string"), format := some "date" },
    ⟨[], none, none, none, none, none⟩⟩)], none,
  some (.schema ⟨{ Facets.empty with types := some (.one "string"), format := some "date" },
    ⟨[], none, none, none, none, none⟩⟩), none, none, none⟩⟩

/-- One operation that responds with a diary. -/
def diaryDocument : Document where
  format := some "3.0.0"
  info := ⟨"Diaries", "1", none⟩
  servers := []
  paths := [("/", ⟨[(.get, ⟨some "diary", none, none, false, [], [], none, [("200", .inline ⟨none,
    [("application/json", ⟨some (.schema ⟨{ Facets.empty with
      reference := some "#/components/schemas/Diary" }, ⟨[], none, none, none, none, none⟩⟩)⟩)]⟩)],
    none⟩)], []⟩)]
  components := ⟨[("Diary", diaryNode)], [], [], [], []⟩
  security := none

/-- The type of a diary. -/
def diaryType : Ty :=
  .object [⟨"at", "at", .scalar .string (some "date"), false, none, false⟩]
    (some (.scalar .string (some "date")))

/-- The declaration of the operation. -/
def diaryOperation : OperationDeclaration :=
  ⟨"diary", .get, "/", [], none, [⟨"200", some ⟨"application/json", .json, .reference "Diary",
    ⟨[[.ref "Diary"]], []⟩⟩⟩], [], none, none, false⟩

/-- The declarations of the document. -/
def diaryDeclarations : Declarations where
  title := "Diaries"
  version := "1"
  types := [⟨⟨"Diary", "Diary", diaryType, none, false⟩, false⟩]
  operations := [diaryOperation]
  auth := []
  context := ⟨none, []⟩
  table := ⟨some [("Diary", [[.access "at", .this], [.entries, .this]])], none⟩

set_option maxRecDepth 10000 in
theorem compile_diaryDocument : diaryDocument.compile .default = .ok diaryDeclarations := by
  cbv

/-- Puts a string in brackets. -/
def markString : Payload → Payload
  | .string text => .string ("<" ++ text ++ ">")
  | value => value

/-- The day of a diary is converted on its own account and as one of the members. -/
theorem calls_diary :
    diaryDocument.compile .default = .ok diaryDeclarations ∧
      diaryOperation ∈ diaryDeclarations.operations ∧
      diaryOperation.Carries (.reference "Diary") ⟨[[.ref "Diary"]], []⟩ ∧
      ∃ trace, Executes (diaryDeclarations.table.entries .date) (.ofFunction markString) []
          (.programs [] [[.ref "Diary"]]) ((), .object [("at", .string "x")]) trace
          ((), .object [("at", .string "<<x>>")]) ∧
        trace.count [.member 0 "at"] = 2 := by
  refine ⟨compile_diaryDocument, List.mem_singleton.mpr rfl,
    Or.inr ⟨_, List.mem_singleton.mpr rfl, _, rfl, rfl, rfl⟩, ?_⟩
  have hx : ∃ trace r, Executes (diaryDeclarations.table.entries .date) (.ofFunction markString) []
      (.programs [] [[.ref "Diary"]]) ((), .object [("at", .string "x")]) trace r ∧
      r = ((), .object [("at", .string "<<x>>")]) ∧
      trace = [[.member 0 "at"], [.member 0 "at"]] :=
    ⟨_, _, .cons (.ref List.not_mem_nil (.cons (.access rfl .this)
      (.cons (.entries (.member rfl .this (.noMember rfl))) .nil))) .nil, by rfl, by rfl⟩
  obtain ⟨_, _, hx, rfl, rfl⟩ := hx
  exact ⟨_, hx, by decide⟩

end ApiDecl
