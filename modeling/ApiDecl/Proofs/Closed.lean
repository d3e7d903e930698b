import ApiDecl.Proofs.Operation.Contents
import ApiDecl.Proofs.Transform.References

/-!
# Declarations are closed

Nothing that declarations show leads out of them (`references_closed`).  Each reference in a type
names a type declared, because the compilation ends well only if every type mentioned has been
compiled.  Each `ref` of a program names an entry of the table, because the table and the programs
that operations carry are pruned by the same live names.  A value of a discriminator is the name of
a type without being mentioned, so it needs the component to have been mentioned by its own pointer
(`Progress.Covers`), and that pointer to lead back to the component.
-/

namespace ApiDecl

/-- The pointer of a component leads to it, if pointers of components do. -/
theorem Scope.component_eq_of_resolve_pointer {d : Document} {options : CasedOptions}
    (hself : ∀ entry ∈ d.components.schemas, ∃ node,
      Pool.schema.find d.components.schemas (Pool.schema.pointer entry.1) = .ok (entry.1, node))
    {component : String} (hc : component ∈ d.components.schemas.map Prod.fst) {m : Mention}
    (hm : (ofDocument d options).resolve (Pool.schema.pointer component) = .ok m) :
    m.component = component := by
  obtain ⟨entry, he, rfl⟩ := List.mem_map.mp hc
  obtain ⟨node, hf⟩ := hself entry he
  obtain ⟨_, hfind, -⟩ := find_of_resolve hm
  exact congrArg Prod.fst (Except.ok.inj (hfind.symm.trans hf))

/-- A component that its own pointer finds has one type name, by whatever pointer it is reached. -/
theorem Scope.name_eq_of_resolve_pointer {d : Document} {options : CasedOptions}
    (hself : ∀ entry ∈ d.components.schemas, ∃ node,
      Pool.schema.find d.components.schemas (Pool.schema.pointer entry.1) = .ok (entry.1, node))
    {pointer : String} {m own : Mention} (hm : (ofDocument d options).resolve pointer = .ok m)
    (hown : (ofDocument d options).resolve (Pool.schema.pointer m.component) = .ok own) :
    own.name = m.name := by
  obtain ⟨node, hf, -⟩ := find_of_resolve hm
  have hcomponent : own.component = m.component := component_eq_of_resolve_pointer hself
    (List.mem_map_of_mem (Member.mem_of_lookup (Pool.lookup_of_find hf))) hown
  have hlookup := lookup_of_resolve hown
  rw [hcomponent, lookup_of_resolve hm] at hlookup
  exact (Option.some.inj hlookup).symm

namespace Declarations

/-- The declarations show the type: it is declared, or an operation shows it. -/
inductive Shows (l : Declarations) : Ty → Prop
  | declared {t : TypeDeclaration} : t ∈ l.types → Shows l t.named.ty
  | operation {o : OperationDeclaration} {ty : Ty} : o ∈ l.operations → o.Shows ty → Shows l ty

/-- The declarations hold the program of a kind: in the table, or for a payload of an operation. -/
inductive HoldsProgram (l : Declarations) (kind : Kind) : Program → Prop
  | table {name : String} {programs : List Program} {program : Program} :
      (name, programs) ∈ l.table.entries kind → program ∈ programs → HoldsProgram l kind program
  | payload {o : OperationDeclaration} {ty : Ty} {links : Links} {program : Program} :
      o ∈ l.operations → o.Carries ty links → program ∈ links.programs kind →
        HoldsProgram l kind program

variable {d : Document} {options : CasedOptions} {l : Declarations} {p : Progress}
  {operations : List OperationDeclaration}

namespace MadeOf

variable (h : l.MadeOf d options p operations)
include h

/-- What has been referred to is declared. -/
theorem exists_declared {m : Mention} (hr : p.Referred m) :
    ∃ t ∈ l.types, t.named.name = m.name := by
  obtain ⟨named, ht⟩ := Option.isSome_iff_exists.mp (h.closed m hr)
  obtain ⟨hm, hn⟩ := Progress.mem_of_type? ht
  have hentry := (h.sound.types named hm).1
  rw [hn] at hentry
  rw [h.types]
  exact ⟨_, List.mem_map_of_mem (List.mem_filterMap.mpr ⟨_, hentry, ht⟩), hn⟩

/-- An operation declared has been drafted, and then pruned. -/
theorem exists_drafted {o : OperationDeclaration} (ho : o ∈ l.operations) :
    ∃ source ∈ operationsOf d.paths, ∃ own : OperationDeclaration,
      own.DraftedFrom (Scope.ofDocument d options) d p.Referred source ∧
        o = own.prune p.table.prune.2 := by
  rw [h.operations] at ho
  obtain ⟨own, hown, rfl⟩ := List.mem_map.mp ho
  have hd := h.drafted
  split_ifs at hd
  · rw [hd] at hown
    cases hown
  · obtain ⟨source, hsource, hs⟩ := exists_of_forall₂_right (draftOperations_yields hd) hown
    exact ⟨source, hsource, own, hs, rfl⟩

/-- The types shown have the properties that drafts give. -/
theorem each {R : Node → Prop} {Q : Ty → Prop}
    (hQ : Ty.MadeWith (Scope.ofDocument d options) p.Referred R Q)
    (hR : ∀ node, d.Contains node → R node) {ty : Ty} (hs : l.Shows ty) : ty.Each Q := by
  cases hs with
  | declared ht =>
    rw [h.types] at ht
    obtain ⟨named, hn, rfl⟩ := List.mem_map.mp ht
    obtain ⟨entry, -, he⟩ := List.mem_filterMap.mp hn
    obtain ⟨-, node, hl, hy⟩ := h.sound.types named (Progress.mem_of_type? he).1
    have hd : Drafted (Scope.ofDocument d options) p.Referred node named.ty := ⟨_, hy⟩
    exact hd.each hQ node (hR node (.component (Member.mem_of_lookup hl)))
  | operation ho hs =>
    obtain ⟨source, hsource, own, hdrafted, rfl⟩ := h.exists_drafted ho
    exact hdrafted.each hQ hR hsource (OperationDeclaration.shows_prune hs)

/-- The types shown are linked by what has been referred to. -/
theorem linked {ty : Ty} (hs : l.Shows ty) :
    ty.Each (Ty.LinkedBy (Scope.ofDocument d options) p.Referred) :=
  h.each (madeWith_linkedBy _ _) (fun _ _ => trivial) hs

/-- The programs held are what is left of programs in which references stand last. -/
theorem exists_of_holdsProgram {kind : Kind} {program : Program}
    (hp : l.HoldsProgram kind program) :
    ∃ programs, allStopLast programs = true ∧
      program ∈ prunedAll (p.table.prune.2.names kind) programs := by
  cases hp with
  | table he hp =>
    rw [h.table, Table.entries_prune, Section.prune] at he
    obtain ⟨entry, hentry, he⟩ := List.mem_map.mp (List.mem_filter.mp he).1
    obtain ⟨rfl, rfl⟩ := Prod.mk.inj he
    rw [← Table.names_prune] at hp
    exact ⟨entry.2, (h.sound.derived kind).stopsLast entry.1 entry.2
      (Member.lookup_of_mem (h.sound.names kind) hentry), hp⟩
  | payload ho hc hp =>
    obtain ⟨source, -, own, hdrafted, rfl⟩ := h.exists_drafted ho
    obtain ⟨links, hlinks, rfl⟩ := OperationDeclaration.carries_prune hc
    obtain rfl := hdrafted.links_eq hlinks
    exact ⟨_, allStopLast_programs kind _, by cases kind <;> exact hp⟩

/-- A type that some pointer leads to is declared, if its component has a pointer of its own. -/
theorem exists_declared_of_resolve
    (hself : ∀ entry ∈ d.components.schemas, ∃ node,
      Pool.schema.find d.components.schemas (Pool.schema.pointer entry.1) = .ok (entry.1, node))
    {pointer : String} {m : Mention}
    (hm : (Scope.ofDocument d options).resolve pointer = .ok m) :
    ∃ t ∈ l.types, t.named.name = m.name := by
  obtain ⟨-, -, hnamed⟩ := Scope.find_of_resolve hm
  obtain ⟨own, hown, hr⟩ := h.covers _ hnamed
  rw [← Scope.name_eq_of_resolve_pointer hself hm hown]
  exact h.exists_declared hr

end MadeOf

end Declarations

/-- **Declarations are closed** under references of types and of programs.  They are so under
discriminators, too, when the pointer of every component leads to that component. -/
theorem references_closed {d : Document} {options : CasedOptions} {l : Declarations}
    (hl : d.compile options = .ok l) :
    (∀ ty, l.Shows ty → ∀ name, ty.Contains (.reference name) →
      ∃ t ∈ l.types, t.named.name = name) ∧
    (∀ kind program, l.HoldsProgram kind program → ∀ name, RefersTo name program →
      ∃ programs, Member.lookup name (l.table.entries kind) = some programs ∧ programs ≠ []) ∧
    ((∀ entry ∈ d.components.schemas, ∃ node,
        Pool.schema.find d.components.schemas (Pool.schema.pointer entry.1) =
          .ok (entry.1, node)) →
      ∀ ty, l.Shows ty → ∀ members discriminator,
        ty.Contains (.union members (some discriminator)) →
          ∀ entry ∈ discriminator.mapping, ∃ t ∈ l.types, t.named.name = entry.2) := by
  obtain ⟨p, operations, hm⟩ := Declarations.exists_of_compile_eq_ok hl
  refine ⟨fun ty hs name hc => ?_, fun kind program hp name hr => ?_,
    fun hself ty hs members discriminator hc entry he => ?_⟩
  · obtain ⟨m, hr, rfl⟩ := hm.linked hs _ hc
    exact hm.exists_declared hr
  · obtain ⟨programs, hstop, hleft⟩ := hm.exists_of_holdsProgram hp
    rw [hm.table]
    exact Table.exists_of_mem_names_prune (hm.sound.names kind)
      (mem_of_refersTo_prunedAll hstop hleft hr)
  · obtain ⟨pointer, m, hresolve, hname⟩ := hm.linked hs _ hc entry he
    rw [← hname]
    exact hm.exists_declared_of_resolve hself hresolve

/-! ### A document with a discriminator -/

/-- Entries that are items, told by the name of the component. -/
def entryNode : Node := .schema ⟨{ Facets.empty with discriminator := some ⟨"kind", []⟩ },
  ⟨[], none, none, some [.schema ⟨{ Facets.empty with
    reference := some "#/components/schemas/Item" }, ⟨[], none, none, none, none, none⟩⟩],
    none, none⟩⟩

/-- Items and entries, without operations. -/
def entryDocument : Document :=
  { itemDocument with
    paths := []
    components := ⟨[("Item", itemNode), ("Entry", entryNode)], [], [], [], []⟩ }

/-- The type of an entry. -/
def entryType : Ty := .union [.reference "Item"] (some ⟨"kind", [("Item", "Item")]⟩)

/-- The declarations of the document. -/
def entryDeclarations : Declarations :=
  { itemDeclarations with
    types := [⟨⟨"Item", "Item", itemType, none, false⟩, false⟩,
      ⟨⟨"Entry", "Entry", entryType, none, false⟩, false⟩]
    operations := []
    table := ⟨some [("Item", [[.access "at", .this], [.access "next", .ref "Item"]]),
      ("Entry", [[.ref "Item"]])], none⟩ }

set_option maxRecDepth 10000 in
theorem compile_entryDocument : entryDocument.compile .default = .ok entryDeclarations := by
  cbv

/-- Items are declared for entries and their discriminator, and registered for the programs. -/
theorem references_closed_entry :
    entryDocument.compile .default = .ok entryDeclarations ∧
      (∃ t ∈ entryDeclarations.types, t.named.name = "Item") ∧
      (∃ programs, Member.lookup "Item" (entryDeclarations.table.entries .date) = some programs ∧
        programs ≠ []) ∧
      (∀ entry ∈ entryDocument.components.schemas, ∃ node,
        Pool.schema.find entryDocument.components.schemas (Pool.schema.pointer entry.1) =
          .ok (entry.1, node)) ∧
      ∀ entry ∈ [("Item", "Item")], ∃ t ∈ entryDeclarations.types, t.named.name = entry.2 :=
  have hshows : entryDeclarations.Shows entryType :=
    .declared (t := ⟨⟨"Entry", "Entry", entryType, none, false⟩, false⟩)
      (List.mem_cons_of_mem _ (List.mem_singleton.mpr rfl))
  have hmember : entryType.Contains (.reference "Item") := .union (List.mem_singleton.mpr rfl) .self
  have hprogram : entryDeclarations.HoldsProgram .date [.ref "Item"] :=
    .table (List.mem_cons_of_mem _ (List.mem_singleton.mpr rfl)) (List.mem_singleton.mpr rfl)
  have hself : ∀ entry ∈ entryDocument.components.schemas, ∃ node,
      Pool.schema.find entryDocument.components.schemas (Pool.schema.pointer entry.1) =
        .ok (entry.1, node) := by
    rintro entry (_ | ⟨_, _ | ⟨_, ⟨⟩⟩⟩)
    · exact ⟨itemNode, by rfl⟩
    · exact ⟨entryNode, by rfl⟩
  have hclosed := references_closed compile_entryDocument
  ⟨compile_entryDocument, hclosed.1 _ hshows _ hmember, hclosed.2.1 _ _ hprogram _ .here, hself,
    hclosed.2.2 hself _ hshows _ _ .self⟩

end ApiDecl
