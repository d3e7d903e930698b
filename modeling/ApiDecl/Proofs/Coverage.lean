import ApiDecl.Proofs.Closed
import ApiDecl.Proofs.Description.Reading
import ApiDecl.Proofs.Types.Entering

/-!
# Every component once

Compiling the components of a document is finite and enters no component twice, whatever refers to
whatever (`CompilesComponents`, `components_covered`).  The types are declared in the order of the
components, which is not that of their completion: the type name of each component is looked up
among the types compiled.  None is missing if the pointer of every component leads back to it,
because every component is mentioned by its pointer
(`Declarations.MadeOf.exists_type_of_mem_names`).
-/

namespace ApiDecl

/-- All components of the scope are compiled in a finite run: to the components entered, by the
mentions that led into them, and to what comes of it. -/
def CompilesComponents (scope : Scope) (p : Progress) (entered : List Mention)
    (r : Progress × Except Error Unit) : Prop :=
  ∃ q types, Progress.Settles scope p
    (Draft.all (scope.names.map fun entry => draftReference scope (Pool.schema.pointer entry.1)))
      entered (q, types) ∧ r = (q, types.map fun _ => ())

section Components

variable {scope : Scope} {p : Progress} {entered : List Mention} {r : Progress × Except Error Unit}

/-- Behind components that are compiled stand mentions of components that are followed. -/
theorem CompilesComponents.exists_follows (h : CompilesComponents scope p entered r) :
    ∃ mentions followed, (∀ m ∈ mentions, scope.Resolves m) ∧
      Progress.Follows scope p mentions entered (r.1, followed) := by
  obtain ⟨q, types, ⟨q', followed, hf, he⟩, rfl⟩ := h
  obtain ⟨rfl, -⟩ := Prod.mk.inj he
  refine ⟨_, followed, Draft.only_all fun draft hd => ?_, hf⟩
  obtain ⟨entry, -, rfl⟩ := List.mem_map.mp hd
  exact only_draftReference scope _

/-- **Compiling components is finite** and has one result, the one that is computed. -/
theorem exists_compilesComponents_iff (scope : Scope) (p : Progress) :
    ∃ entered, ∀ entered' r,
      CompilesComponents scope p entered' r ↔ entered' = entered ∧ r = p.components scope := by
  obtain ⟨entered, h⟩ := Progress.exists_settles_iff scope p
    (Draft.all (scope.names.map fun entry => draftReference scope (Pool.schema.pointer entry.1)))
  refine ⟨entered, fun entered' r => ⟨?_, ?_⟩⟩
  · rintro ⟨q, types, hs, rfl⟩
    obtain ⟨rfl, he⟩ := (h _ _).mp hs
    refine ⟨rfl, ?_⟩
    unfold Progress.components
    rw [← he]
  · rintro ⟨rfl, rfl⟩
    exact ⟨_, _, (h _ _).mpr ⟨rfl, rfl⟩, rfl⟩

end Components

namespace Declarations.MadeOf

variable {d : Document} {options : CasedOptions} {l : Declarations} {p : Progress}
  {operations : List OperationDeclaration} (h : l.MadeOf d options p operations)
include h

/-- A component that its own pointer leads to has been compiled, under its name. -/
theorem exists_type_of_mem_names (hd : d.Named)
    (hself : ∀ entry ∈ d.components.schemas, ∃ node,
      Pool.schema.find d.components.schemas (Pool.schema.pointer entry.1) = .ok (entry.1, node))
    {entry : String × String} (he : entry ∈ (Scope.ofDocument d options).names) :
    ∃ t, p.type? entry.2 = some t ∧ t.wireName = entry.1 := by
  obtain ⟨m, hm, hr⟩ := h.covers entry he
  have hcomponent : m.component = entry.1 := by
    refine Scope.component_eq_of_resolve_pointer hself ?_ hm
    rw [← Scope.map_fst_names d options]
    exact List.mem_map_of_mem he
  have hname : m.name = entry.2 := by
    have hlookup := Scope.lookup_of_resolve hm
    rw [hcomponent, Member.lookup_of_mem (by rwa [Scope.map_fst_names]) he] at hlookup
    exact (Option.some.inj hlookup).symm
  obtain ⟨t, ht⟩ := Option.isSome_iff_exists.mp (h.closed m hr)
  obtain ⟨hmem, hn⟩ := Progress.mem_of_type? ht
  rw [hname] at ht hn
  refine ⟨t, ht, Scope.eq_of_mem_names (h.sound.types t hmem).1 ?_⟩
  rw [hn]
  exact he

/-- **One type for each component** is declared, in the order of the components. -/
theorem map_wireName_types (hd : d.Named)
    (hself : ∀ entry ∈ d.components.schemas, ∃ node,
      Pool.schema.find d.components.schemas (Pool.schema.pointer entry.1) = .ok (entry.1, node)) :
    l.types.map (fun t => t.named.wireName) = d.components.schemas.map Prod.fst := by
  rw [h.types, List.map_map, List.map_filterMap, ← Scope.map_fst_names d options,
    ← List.filterMap_eq_map]
  refine List.filterMap_congr fun entry he => ?_
  obtain ⟨t, ht, hw⟩ := h.exists_type_of_mem_names hd hself he
  rw [ht]
  exact congrArg some hw

/-- A type declared is what the schema of its component compiles to. -/
theorem exists_schema_of_mem_types {t : TypeDeclaration} (ht : t ∈ l.types) :
    ∃ node, (t.named.wireName, node) ∈ d.components.schemas ∧
      (draftNode (Scope.ofDocument d options) (Pool.schema.pointer t.named.wireName)
        node).result = .ok t.named.ty := by
  rw [h.types] at ht
  obtain ⟨named, hn, rfl⟩ := List.mem_map.mp ht
  obtain ⟨entry, -, he⟩ := List.mem_filterMap.mp hn
  obtain ⟨-, node, hl, hy⟩ := h.sound.types named (Progress.mem_of_type? he).1
  exact ⟨node, Member.mem_of_lookup hl, hy.1⟩

end Declarations.MadeOf

/-- **Every component is compiled once.**  Whatever has been compiled before, compiling the
components is finite, and those entered are distinct components not entered before.  Declarations of
a document hold one type for each component, in the order of the components and under their names,
if the pointer of every component leads back to it. -/
theorem components_covered (d : Document) (options : CasedOptions) :
    (∀ p : Progress, ∃ entered,
      (∀ entered' r, CompilesComponents (Scope.ofDocument d options) p entered' r ↔
        entered' = entered ∧ r = p.components (Scope.ofDocument d options)) ∧
      (p.components (Scope.ofDocument d options)).1.entered =
        (entered.map Mention.name).reverse ++ p.entered ∧
      (entered.map Mention.component).Nodup ∧
      ∀ m ∈ entered, m.component ∈ d.components.schemas.map Prod.fst ∧ m.name ∉ p.entered) ∧
    ∀ l, d.compile options = .ok l → d.Named →
      (∀ entry ∈ d.components.schemas, ∃ node,
        Pool.schema.find d.components.schemas (Pool.schema.pointer entry.1) =
          .ok (entry.1, node)) →
      l.types.map (fun t => t.named.wireName) = d.components.schemas.map Prod.fst ∧
      ∀ t ∈ l.types, ∃ node, (t.named.wireName, node) ∈ d.components.schemas ∧
        (draftNode (Scope.ofDocument d options) (Pool.schema.pointer t.named.wireName)
          node).result = .ok t.named.ty := by
  constructor
  · intro p
    obtain ⟨entered, h⟩ := exists_compilesComponents_iff (Scope.ofDocument d options) p
    obtain ⟨mentions, followed, hm, hf⟩ := ((h _ _).mpr ⟨rfl, rfl⟩).exists_follows
    refine ⟨entered, h, hf.entered_eq, hf.nodup_components hm, fun m hmem => ⟨?_, hf.fresh m hmem⟩⟩
    obtain ⟨pointer, hp⟩ := hf.resolves hm m hmem
    rw [← Scope.map_fst_names d options]
    exact List.mem_map_of_mem (Member.mem_of_lookup (Scope.lookup_of_resolve hp))
  · intro l hl hd hself
    obtain ⟨p, operations, hm⟩ := Declarations.exists_of_compile_eq_ok hl
    exact ⟨hm.map_wireName_types hd hself, fun t ht => hm.exists_schema_of_mem_types ht⟩

/-! ### A document whose components complete in another order -/

/-- Folders of files, each of which leads back to its folder. -/
def folderDocument : Document :=
  { itemDocument with
    paths := []
    components := ⟨[
      ("Folder", .schema ⟨.empty, ⟨[("files", .schema ⟨.empty, ⟨[], some (.schema
        ⟨{ Facets.empty with reference := some "#/components/schemas/File" },
          ⟨[], none, none, none, none, none⟩⟩), none, none, none, none⟩⟩)],
        none, none, none, none, none⟩⟩),
      ("File", .schema ⟨.empty, ⟨[("folder", .schema
        ⟨{ Facets.empty with reference := some "#/components/schemas/Folder" },
          ⟨[], none, none, none, none, none⟩⟩)], none, none, none, none, none⟩⟩)], [], [], [], []⟩ }

/-- The declarations of the document. -/
def folderDeclarations : Declarations :=
  { itemDeclarations with
    types := [
      ⟨⟨"Folder", "Folder", .object [⟨"files", "files", .array (.reference "File"), false, none,
        false⟩] none, none, false⟩, false⟩,
      ⟨⟨"File", "File", .object [⟨"folder", "folder", .reference "Folder", false, none, false⟩]
        none, none, false⟩, false⟩]
    operations := []
    table := .empty }

set_option maxRecDepth 10000 in
theorem compile_folderDocument : folderDocument.compile .default = .ok folderDeclarations := by
  cbv

/-- Folders are declared first, though files are compiled within them. -/
theorem components_covered_folder :
    folderDocument.compile .default = .ok folderDeclarations ∧
      folderDocument.Named ∧
      (∀ entry ∈ folderDocument.components.schemas, ∃ node,
        Pool.schema.find folderDocument.components.schemas (Pool.schema.pointer entry.1) =
          .ok (entry.1, node)) ∧
      (Progress.start.components (Scope.ofDocument folderDocument .default)).1.types.map
        NamedType.wireName = ["File", "Folder"] ∧
      folderDeclarations.types.map (fun t => t.named.wireName) = ["Folder", "File"] :=
  have hd : folderDocument.Named := by
    unfold Document.Named Components.Named
    decide
  have hself : ∀ entry ∈ folderDocument.components.schemas, ∃ node,
      Pool.schema.find folderDocument.components.schemas (Pool.schema.pointer entry.1) =
        .ok (entry.1, node) := by
    rintro entry (_ | ⟨_, _ | ⟨_, ⟨⟩⟩⟩)
    · exact ⟨_, by rfl⟩
    · exact ⟨_, by rfl⟩
  ⟨compile_folderDocument, hd, hself, by cbv,
    ((components_covered folderDocument .default).2 _ compile_folderDocument hd hself).1⟩

end ApiDecl
