import ApiDecl.Proofs.Declarations

/-!
# What declarations convert

The programs that a body or a response carries are those of its type, pruned, and the table declared
is that of the types compiled, pruned.  So what they convert in a payload is what the type reaches
in it: moments and days where it has a string of such a format, octets where it has base64, and
nothing else (`convert_reached`).

* `Table.convertKind_pruned`: pruned programs over the pruned table convert what the programs
  address;
* `reaches_of_shape`: which slots a type reaches depends on the shape of the payload only, so the
  second kind of conversion finds the slots that it would have found in the original payload.
-/

namespace ApiDecl

open Payload

/-! ### One kind -/

theorem Section.DerivedFrom.stopsLast {s : Section} {types : String → Option Ty} {kind : Kind}
    (h : s.DerivedFrom types kind) : s.StopsLast := by
  intro name programs hl
  have hp : programs = s.programs name := by rw [Section.programs, hl]; rfl
  rw [hp, h name]
  cases types name with
  | none => rfl
  | some ty => exact allStopLast_programs kind ty

/-- Pruned programs over the pruned table convert what the programs address. -/
theorem Table.convertKind_pruned {t : Table} {kind : Kind} (hd : (t.names kind).Nodup)
    (hs : (t.entries kind).StopsLast) {programs : List Program} (hp : allStopLast programs = true)
    (direction : Direction) (v : Payload) :
    t.prune.1.convertKind kind direction (prunedAll (t.prune.2.names kind) programs) v =
      v.convertAt (kind.conversion direction) (AddressedBy (t.entries kind) programs v) := by
  have hf := leafwise_conversion kind direction
  obtain ⟨_, hr⟩ := runPrograms_converts (s := t.entries kind) hf
    (performs_ofFunction (kind.conversion direction)) hf.level programs () (Nat.le_refl v.depth)
  have hr' := runPrograms_pruned (Section.prunedOf_prune hd _) (Section.closedUnder_liveNames _) hs
    (fun _ _ _ _ => rfl) hp hr
  unfold convertKind
  rw [Option.get_of_eq_some _ (by rw [Table.entries_prune, Table.names_prune]; exact hr')]

theorem reaches_of_shape {types : String → Option Ty} {kind : Kind} {ty : Ty} {v w : Payload}
    {route : Route} (h : Reaches types kind ty v route) (hs : shape v = shape w) :
    Reaches types kind ty w route := by
  induction h generalizing w with
  | string hf => exact .string hf
  | element hi _ ih =>
    obtain ⟨items', rfl, hm⟩ := exists_of_shape_array hs
    obtain ⟨item', hi', hc⟩ := hm _ _ hi
    exact .element hi' (ih hc)
  | field hf hi _ ih =>
    obtain ⟨members', rfl, hn, hm⟩ := exists_of_shape_object hs
    obtain ⟨child', hi', hc⟩ := hm _ _ _ hi
    rw [Member.position_congr hn] at hi' ⊢
    exact .field hf hi' (ih hc)
  | additional hi _ ih =>
    obtain ⟨members', rfl, -, hm⟩ := exists_of_shape_object hs
    obtain ⟨child', hi', hc⟩ := hm _ _ _ hi
    exact .additional hi' (ih hc)
  | union hm _ ih => exact .union hm (ih hs)
  | intersection hm _ ih => exact .intersection hm (ih hs)
  | reference ht _ ih => exact .reference ht (ih hs)

/-! ### What operations carry -/

/-- The operation carries payloads of a type, in its body or a response, with programs for them. -/
def OperationDeclaration.Carries (o : OperationDeclaration) (ty : Ty) (links : Links) : Prop :=
  (∃ b, o.body = some b ∧ b.ty = ty ∧ b.links = links) ∨
    ∃ r ∈ o.responses, ∃ content, r.content = some content ∧ content.ty = ty ∧ content.links = links

theorem OperationDeclaration.carries_prune {o : OperationDeclaration} {live : LiveNames} {ty : Ty}
    {links : Links} (h : (o.prune live).Carries ty links) :
    ∃ own, o.Carries ty own ∧ links = own.prune live := by
  rcases h with ⟨b, hb, rfl, rfl⟩ | ⟨r, hr, content, hc, rfl, rfl⟩
  · obtain ⟨own, ho, rfl⟩ := Option.map_eq_some_iff.mp hb
    exact ⟨own.links, Or.inl ⟨own, ho, rfl, rfl⟩, rfl⟩
  · obtain ⟨own, ho, rfl⟩ := List.mem_map.mp hr
    obtain ⟨inner, hi, rfl⟩ := Option.map_eq_some_iff.mp hc
    exact ⟨inner.links, Or.inr ⟨own, ho, inner, hi, rfl, rfl⟩, rfl⟩

/-- An operation that has been drafted carries the programs of the type itself. -/
theorem OperationDeclaration.DraftedFrom.links_eq {scope : Scope} {d : Document}
    {P : Mention → Prop} {source : String × PathItem × Method × Operation}
    {o : OperationDeclaration} (h : o.DraftedFrom scope d P source) {ty : Ty} {links : Links}
    (hc : o.Carries ty links) :
    links = ty.links := by
  obtain ⟨name, hy⟩ := h
  obtain ⟨-, hb, hr⟩ := draftOperation_yields hy
  rcases hc with ⟨b, ho, rfl, rfl⟩ | ⟨r, hm, content, hcontent, rfl, rfl⟩
  · rw [ho] at hb
    obtain ⟨_, _, _, _, _, -, -, -, -, hl⟩ := draftBody_yields hb
    exact hl
  · obtain ⟨_, -, _, _, -, hall⟩ := exists_of_forall₂_right (draftResponses_yields hr) hm
    obtain ⟨_, _, -, -, hl⟩ := hall content hcontent
    exact hl

/-- Behind what an operation carries stand the programs of its type and the table of the types
declared, both pruned by the names that are live there. -/
theorem Declarations.exists_table_of_carries {d : Document} {options : CasedOptions} {l : Declarations}
    (hl : d.compile options = .ok l) {o : OperationDeclaration} (ho : o ∈ l.operations) {ty : Ty}
    {links : Links} (hc : o.Carries ty links) :
    ∃ t : Table, l.table = t.prune.1 ∧ links = ty.links.prune t.prune.2 ∧
      ∀ kind, (t.names kind).Nodup ∧ (t.entries kind).DerivedFrom l.declared kind := by
  obtain ⟨p, operations, hm⟩ := Declarations.exists_of_compile_eq_ok hl
  rw [hm.operations] at ho
  obtain ⟨o', ho', rfl⟩ := List.mem_map.mp ho
  obtain ⟨own, hown, rfl⟩ := OperationDeclaration.carries_prune hc
  have hd := hm.drafted
  split_ifs at hd with ht
  · rw [hd] at ho'
    cases ho'
  · obtain ⟨source, -, hs⟩ := exists_of_forall₂_right (draftOperations_yields hd) ho'
    obtain rfl := hs.links_eq hown
    refine ⟨p.table, hm.table, rfl, fun kind => ⟨hm.sound.names kind, ?_⟩⟩
    rw [show l.declared = p.declared from funext hm.declared_eq]
    exact hm.sound.derived kind

theorem Ty.programs_prune_links (ty : Ty) (live : LiveNames) (kind : Kind) :
    (ty.links.prune live).programs kind = prunedAll (live.names kind) (ty.programs kind) := by
  cases kind <;> rfl

/-! ### Both kinds -/

open Classical in
/-- **Conversion is exact.**  What an operation carries is converted where the walk of its type
reaches a string of a fitting format: first to a moment or a day, then to octets.  Nothing else
changes. -/
theorem convert_reached {d : Document} {options : CasedOptions} {l : Declarations}
    (hl : d.compile options = .ok l) {o : OperationDeclaration} (ho : o ∈ l.operations) {ty : Ty}
    {links : Links} (hc : o.Carries ty links) (payload : Payload) :
    l.table.convert links .inbound payload = payload.mapSlots fun route v =>
      let dated := if Reaches l.declared .date ty payload route then v.parseDate else v
      if Reaches l.declared .binary ty payload route then dated.decodeBinary else dated := by
  obtain ⟨p, operations, hm⟩ := Declarations.exists_of_compile_eq_ok hl
  rw [hm.operations] at ho
  obtain ⟨o', ho', rfl⟩ := List.mem_map.mp ho
  obtain ⟨own, hown, rfl⟩ := OperationDeclaration.carries_prune hc
  have hd := hm.drafted
  split_ifs at hd with ht
  · rw [hd] at ho'
    cases ho'
  · obtain ⟨source, -, hs⟩ := exists_of_forall₂_right (draftOperations_yields hd) ho'
    obtain rfl := hs.links_eq hown
    -- one kind converts what the type reaches, whatever the payload
    have hkind (kind : Kind) (v : Payload) :
        l.table.convertKind kind .inbound ((ty.links.prune p.table.prune.2).programs kind) v =
          v.convertAt (kind.conversion .inbound) (Reaches l.declared kind ty v) := by
      have hderived : (p.table.entries kind).DerivedFrom l.declared kind := by
        rw [show l.declared = p.declared from funext hm.declared_eq]
        exact hm.sound.derived kind
      have hp : (ty.links.prune p.table.prune.2).programs kind =
          prunedAll (p.table.prune.2.names kind) (ty.programs kind) := by
        cases kind <;> rfl
      rw [hm.table, hp, Table.convertKind_pruned (hm.sound.names kind) hderived.stopsLast
        (allStopLast_programs kind ty)]
      exact convertAt_congr (fun route => addressedBy_programs_iff hderived ty) _ v
    have hshape := leafwise_parseDate.shape_convertAt (Reaches l.declared .date ty payload) payload
    have hbinary (route : Route) :
        Reaches l.declared .binary ty
          (payload.convertAt parseDate (Reaches l.declared .date ty payload)) route ↔
          Reaches l.declared .binary ty payload route :=
      ⟨fun h => reaches_of_shape h hshape, fun h => reaches_of_shape h hshape.symm⟩
    calc
      _ = l.table.convertKind .binary .inbound ((ty.links.prune p.table.prune.2).programs .binary)
            (l.table.convertKind .date .inbound
              ((ty.links.prune p.table.prune.2).programs .date) payload) := rfl
      _ = (payload.convertAt parseDate (Reaches l.declared .date ty payload)).convertAt decodeBinary
            (Reaches l.declared .binary ty payload) := by
          rw [hkind, hkind]
          exact convertAt_congr hbinary _ _
      _ = _ := mapSlots_mapSlots _ (leafwise_parseDate.keepsContainers _) payload

open Classical in
/-- The days of an item and of the item behind it are reached through one cyclic schema. -/
theorem convert_reached_item :
    itemDocument.compile .default = .ok itemDeclarations ∧
      itemOperation ∈ itemDeclarations.operations ∧
      itemOperation.Carries (.reference "Item") ⟨[[.ref "Item"]], []⟩ ∧
      itemDeclarations.table.convert ⟨[[.ref "Item"]], []⟩ .inbound
          (.object [("at", .string "2020-01-02"),
            ("next", .object [("at", .string "2020-01-03")])]) =
        (Payload.object [("at", .string "2020-01-02"),
          ("next", .object [("at", .string "2020-01-03")])]).mapSlots fun route v =>
            let dated := if Reaches itemDeclarations.declared .date (.reference "Item")
              (.object [("at", .string "2020-01-02"),
                ("next", .object [("at", .string "2020-01-03")])])
              route then v.parseDate else v
            if Reaches itemDeclarations.declared .binary (.reference "Item")
              (.object [("at", .string "2020-01-02"),
                ("next", .object [("at", .string "2020-01-03")])])
              route then dated.decodeBinary else dated :=
  have ho : itemOperation ∈ itemDeclarations.operations := List.mem_singleton.mpr rfl
  have hc : itemOperation.Carries (.reference "Item") ⟨[[.ref "Item"]], []⟩ :=
    Or.inr ⟨_, List.mem_singleton.mpr rfl, _, rfl, rfl, rfl⟩
  ⟨compile_itemDocument, ho, hc, convert_reached compile_itemDocument ho hc _⟩

end ApiDecl
