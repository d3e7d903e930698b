import ApiDecl.Declarations
import ApiDecl.Proofs.Description.Component
import ApiDecl.Proofs.Operation.OfDocument
import ApiDecl.Proofs.Text.Identifier
import ApiDecl.Proofs.Types.Closure
import Mathlib

/-!
# What declarations are made of

Behind declarations stands a compilation of named schemas that has come to its end, and operations
drafted from the document (`MadeOf`, `exists_of_compile_eq_ok`).  The types declared are the types
compiled, by the same names (`MadeOf.declared_eq`), and a type of a name belongs to one component
only (`MadeOf.exists_of_resolve`).
-/

namespace ApiDecl

/-! ### Names of types -/

namespace Scope

variable {d : Document} {options : CasedOptions}

theorem options_ofDocument (d : Document) (options : CasedOptions) :
    (Scope.ofDocument d options).options = options :=
  rfl

/-- Each component takes the free name nearest to its own. -/
theorem map_snd_names (d : Document) (options : CasedOptions) :
    (Scope.ofDocument d options).names.map Prod.snd =
      claimAll [] ((d.components.schemas.map Prod.fst).map sanitize) := by
  unfold ofDocument typeNames
  exact List.map_snd_zip (by rw [length_claimAll, List.length_map])

/-- No two components have one type name. -/
theorem nodup_names (d : Document) (options : CasedOptions) :
    ((Scope.ofDocument d options).names.map Prod.snd).Nodup := by
  rw [map_snd_names]
  exact nodup_claimAll _ _

theorem map_fst_names (d : Document) (options : CasedOptions) :
    (Scope.ofDocument d options).names.map Prod.fst = d.components.schemas.map Prod.fst := by
  unfold ofDocument typeNames
  exact List.map_fst_zip (by simp [length_claimAll])

/-- Every component has a type name. -/
theorem exists_mem_names {component : String} (h : component ∈ d.components.schemas.map Prod.fst) :
    ∃ name, (component, name) ∈ (Scope.ofDocument d options).names := by
  rw [← map_fst_names d options] at h
  obtain ⟨⟨_, name⟩, hm, rfl⟩ := List.mem_map.mp h
  exact ⟨name, hm⟩

theorem eq_of_mem_names {component other name : String}
    (h : (component, name) ∈ (Scope.ofDocument d options).names)
    (ho : (other, name) ∈ (Scope.ofDocument d options).names) : component = other :=
  congrArg Prod.fst (List.inj_on_of_nodup_map (nodup_names d options) h ho rfl)

theorem lookup_of_resolve {scope : Scope} {pointer : String} {m : Mention}
    (h : scope.resolve pointer = .ok m) : Member.lookup m.component scope.names = some m.name := by
  simp only [resolve, bind_eq_ok] at h
  obtain ⟨_, -, h⟩ := h
  split at h
  · next name hl =>
    obtain rfl := Except.ok.inj h
    exact hl
  · cases h

/-- A pointer that is resolved leads to a component, with its type name. -/
theorem find_of_resolve {scope : Scope} {pointer : String} {m : Mention}
    (h : scope.resolve pointer = .ok m) :
    ∃ node, Pool.schema.find scope.schemas pointer = .ok (m.component, node) ∧
      (m.component, m.name) ∈ scope.names := by
  simp only [resolve, bind_eq_ok] at h
  obtain ⟨⟨component, node⟩, hf, h⟩ := h
  split at h
  · next name hl =>
    obtain rfl := Except.ok.inj h
    exact ⟨node, hf, Member.mem_of_lookup hl⟩
  · cases h

end Scope

/-! ### Declarations -/

/-- Every component has been mentioned by its own pointer. -/
def Progress.Covers (p : Progress) (scope : Scope) : Prop :=
  ∀ entry ∈ scope.names, ∃ m, scope.resolve (Pool.schema.pointer entry.1) = .ok m ∧ p.Referred m

theorem Progress.Sound.components {scope : Scope} {p : Progress} (h : p.Sound scope []) :
    (p.components scope).1.Sound scope [] := by
  unfold Progress.components
  exact h.draft _

/-- The compilation of every component mentions each of them, if there is no error. -/
theorem Progress.covers_components {scope : Scope} {p : Progress}
    (hr : (p.components scope).2 = .ok ()) : (p.components scope).1.Covers scope := by
  unfold Progress.components at hr ⊢
  cases hd : p.draft scope
      (Draft.all (scope.names.map fun entry =>
        draftReference scope (Pool.schema.pointer entry.1))) with
  | mk p' result =>
    rw [hd] at hr
    cases result with
    | error error => cases hr
    | ok tys =>
      intro entry he
      obtain ⟨ty, -, ht⟩ := exists_of_forall₂_left
        (Draft.yields_all.mp (Progress.yields_of_draft hd)) (List.mem_map_of_mem he)
      simp only [draftReference, Draft.yields_bind, Draft.yields_ofExcept,
        Draft.yields_mention] at ht
      obtain ⟨m, hm, -, hp, -⟩ := ht
      exact ⟨m, hm, hp⟩

namespace Declarations

/-- The type that a name is declared for. -/
def declared (l : Declarations) (name : String) : Option Ty :=
  (l.type? name).map fun t => t.named.ty

/-- Declarations of a document, made of types compiled to the end and of operations drafted. -/
structure MadeOf (l : Declarations) (d : Document) (options : CasedOptions) (p : Progress)
    (operations : List OperationDeclaration) : Prop where
  sound : p.Sound (Scope.ofDocument d options) []
  covers : p.Covers (Scope.ofDocument d options)
  /-- Every type referred to has been compiled. -/
  closed : ∀ m, p.Referred m → (p.type? m.name).isSome
  drafted : if options.onlyTypes then operations = []
    else (draftOperations (Scope.ofDocument d options) d).Yields p.Referred operations
  types : l.types = ((Scope.ofDocument d options).names.filterMap fun entry => p.type? entry.2).map
    fun named => ⟨named, options.generateEnums && named.ty.isEnumeration⟩
  table : l.table = p.table.prune.1
  operations : l.operations = operations.map fun o => o.prune p.table.prune.2

variable {d : Document} {options : CasedOptions} {l : Declarations} {p : Progress}
  {operations : List OperationDeclaration}

/-- Operations and security schemes have been compiled, or only types are wanted. -/
theorem compileOperations_eq_ok {scope : Scope} {d : Document} {p q : Progress}
    {operations : List OperationDeclaration} {auth : AuthConfiguration} :
    compileOperations scope d p = (q, .ok (operations, auth)) ↔
      if scope.options.onlyTypes then q = p ∧ operations = [] ∧ auth = []
      else p.draft scope (draftOperations scope d) = (q, .ok operations) ∧
        AuthConfiguration.ofDocument d = .ok auth := by
  unfold compileOperations
  split_ifs
  · rw [Prod.mk.injEq, Except.ok.injEq, Prod.mk.injEq, eq_comm, @eq_comm _ operations,
      @eq_comm _ auth]
  · rcases p.draft scope (draftOperations scope d) with ⟨q', error | operations'⟩
    · simp
    · cases AuthConfiguration.ofDocument d <;> simp [Except.map, and_assoc]

/-- The declarations that the results of a compilation make. -/
def assemble (d : Document) (options : CasedOptions) (compiled : Progress.Compiled)
    (operations : List OperationDeclaration) (auth : AuthConfiguration) : Declarations where
  title := d.info.title
  version := d.info.version
  types := compiled.types.map fun named => ⟨named, options.generateEnums && named.ty.isEnumeration⟩
  operations := operations.map fun o => o.prune compiled.live
  auth := auth
  context := ⟨d.servers.head?.map Server.url, auth.names⟩
  table := compiled.table

/-- A document is compiled stage by stage. -/
theorem compile_eq_ok : d.compile options = .ok l ↔ checkVersion d.format = .ok () ∧
    ∃ p q operations auth compiled,
      Progress.start.components (Scope.ofDocument d options) = (p, .ok ()) ∧
      compileOperations (Scope.ofDocument d options) d p = (q, .ok (operations, auth)) ∧
      q.finish (Scope.ofDocument d options) = .ok compiled ∧
      assemble d options compiled operations auth = l := by
  simp only [Document.compile, bind_eq_ok]
  constructor
  · rintro ⟨⟨⟩, hv, ⟨⟩, hc, ⟨operations, auth⟩, ho, compiled, hf, h⟩
    exact ⟨hv, _, _, operations, auth, compiled, Prod.ext rfl hc, Prod.ext rfl ho, hf,
      Except.ok.inj h⟩
  · rintro ⟨hv, p, q, operations, auth, compiled, hc, ho, hf, rfl⟩
    refine ⟨(), hv, (), ?_, (operations, auth), ?_, compiled, ?_, rfl⟩
    · rw [hc]
    · rw [hc, ho]
    · rw [hc, ho]
      exact hf

/-- What declarations take from the document as it is, and the security schemes. -/
theorem head_of_compile (hl : d.compile options = .ok l) :
    l.title = d.info.title ∧ l.version = d.info.version ∧
      l.context = ⟨d.servers.head?.map Server.url, l.auth.names⟩ ∧
      if options.onlyTypes then l.auth = [] else AuthConfiguration.ofDocument d = .ok l.auth := by
  obtain ⟨-, p, q, operations, auth, compiled, hc, ho, hf, rfl⟩ := compile_eq_ok.mp hl
  refine ⟨rfl, rfl, rfl, ?_⟩
  rw [compileOperations_eq_ok, Scope.options_ofDocument] at ho
  split_ifs at ho ⊢
  · exact ho.2.2
  · exact ho.2

/-- The security schemes are those of the document, unless only types are compiled. -/
theorem ofDocument_of_compile (hl : d.compile options = .ok l) (hall : options.onlyTypes = false) :
    AuthConfiguration.ofDocument d = .ok l.auth := by
  obtain ⟨-, -, -, hauth⟩ := head_of_compile hl
  rwa [hall, if_neg Bool.false_ne_true] at hauth

/-- What stages that succeed assemble is made of their results. -/
theorem madeOf_assemble {q : Progress} {auth : AuthConfiguration} {compiled : Progress.Compiled}
    (hc : Progress.start.components (Scope.ofDocument d options) = (p, .ok ()))
    (ho : compileOperations (Scope.ofDocument d options) d p = (q, .ok (operations, auth)))
    (hf : q.finish (Scope.ofDocument d options) = .ok compiled) :
    (assemble d options compiled operations auth).MadeOf d options q operations := by
  have hsound := (Progress.sound_start (Scope.ofDocument d options)).components
  have hcovers := Progress.covers_components (congrArg Prod.snd hc)
  rw [hc] at hsound hcovers
  obtain ⟨hsound', hmono, hdrafted⟩ : q.Sound (Scope.ofDocument d options) [] ∧
      (∀ m, p.Referred m → q.Referred m) ∧ if options.onlyTypes then operations = []
        else (draftOperations (Scope.ofDocument d options) d).Yields q.Referred operations := by
    rw [compileOperations_eq_ok, Scope.options_ofDocument] at ho
    split_ifs at ho ⊢
    · obtain ⟨rfl, rfl, -⟩ := ho
      exact ⟨hsound, fun _ hm => hm, rfl⟩
    · have hs := hsound.draft (draftOperations (Scope.ofDocument d options) d)
      have hr (m : Mention) (hm : p.Referred m) :=
        hm.draft (Scope.ofDocument d options) (draftOperations (Scope.ofDocument d options) d)
      rw [ho.1] at hs hr
      exact ⟨hs, hr, Progress.yields_of_draft ho.1⟩
  obtain rfl := Progress.eq_of_finish hf
  exact ⟨hsound', fun entry he => (hcovers entry he).imp fun m hm => ⟨hm.1, hmono m hm.2⟩,
    fun m => Progress.isSome_type?_of_finish hf, hdrafted, rfl, rfl, rfl⟩

/-- **Declarations** come of a compilation that has been sound to its end. -/
theorem exists_of_compile_eq_ok (h : d.compile options = .ok l) :
    ∃ p operations, l.MadeOf d options p operations := by
  obtain ⟨-, p, q, operations, auth, compiled, hc, ho, hf, rfl⟩ := compile_eq_ok.mp h
  exact ⟨q, operations, madeOf_assemble hc ho hf⟩

namespace MadeOf

variable (h : l.MadeOf d options p operations)
include h

/-- The types declared are the types compiled. -/
theorem type?_eq (name : String) : l.type? name = (p.type? name).map fun named =>
    ⟨named, options.generateEnums && named.ty.isEnumeration⟩ := by
  suffices hfind : ((Scope.ofDocument d options).names.filterMap fun entry => p.type? entry.2).find?
      (fun t : NamedType => t.name == name) = p.type? name by
    rw [type?, h.types, List.find?_map, ← hfind]
    rfl
  have hname {t : NamedType} (hn : t.name = name) (hm : t ∈
      (Scope.ofDocument d options).names.filterMap fun entry => p.type? entry.2) :
        p.type? name = some t := by
    obtain ⟨entry, -, he⟩ := List.mem_filterMap.mp hm
    rwa [← hn, (Progress.mem_of_type? he).2]
  cases hf : ((Scope.ofDocument d options).names.filterMap fun entry => p.type? entry.2).find?
      fun t : NamedType => t.name == name with
  | some t => exact (hname (by simpa using List.find?_some hf) (List.mem_of_find?_eq_some hf)).symm
  | none =>
    cases ht : p.type? name with
    | none => rfl
    | some t =>
      obtain ⟨hm, hn⟩ := Progress.mem_of_type? ht
      have hentry := (h.sound.types t hm).1
      rw [hn] at hentry
      exact absurd (by simpa using hn)
        (List.find?_eq_none.mp hf t (List.mem_filterMap.mpr ⟨_, hentry, ht⟩))

theorem declared_eq (name : String) : l.declared name = p.declared name := by
  rw [declared, h.type?_eq, Option.map_map]
  rfl

/-- A reference that is resolved and has been followed leads to a component whose type is declared
by the name of the reference. -/
theorem exists_of_resolve {pointer : String} {m : Mention}
    (hm : (Scope.ofDocument d options).resolve pointer = .ok m) (hr : p.Referred m) :
    ∃ node ty, Pool.schema.find d.components.schemas pointer = .ok (m.component, node) ∧
      l.declared m.name = some ty ∧
      (draftNode (Scope.ofDocument d options) (Pool.schema.pointer m.component)
        node).Yields p.Referred ty := by
  obtain ⟨node, hf, hmem⟩ := Scope.find_of_resolve hm
  obtain ⟨t, ht⟩ := Option.isSome_iff_exists.mp (h.closed m hr)
  obtain ⟨hmt, hn⟩ := Progress.mem_of_type? ht
  obtain ⟨hentry, node', hl, hy⟩ := h.sound.types t hmt
  rw [hn] at hentry
  rw [Scope.eq_of_mem_names hentry hmem] at hl hy
  have hnode : Member.lookup m.component d.components.schemas = some node := Pool.lookup_of_find hf
  obtain rfl : node' = node := Option.some.inj (hl.symm.trans hnode)
  exact ⟨node', t.ty, hf, by rw [h.declared_eq, Progress.declared, ht]; rfl, hy⟩

end MadeOf

end Declarations

/-! ### A document with a cyclic schema -/

/-- Items with a day, each of which may lead to a next item. -/
def itemNode : Node := .schema ⟨.empty, ⟨[
  ("at", .schema ⟨{ Facets.empty with types := some (.one "string"), format := some "date" },
    ⟨[], none, none, none, none, none⟩⟩),
  ("next", .schema ⟨{ Facets.empty with reference := some "#/components/schemas/Item" },
    ⟨[], none, none, none, none, none⟩⟩)], none, none, none, none, none⟩⟩

/-- One operation that responds with an item. -/
def itemDocument : Document where
  format := some "3.0.0"
  info := ⟨"Items", "1", none⟩
  servers := []
  paths := [("/", ⟨[(.get, ⟨some "list", none, none, false, [], [], none, [("200", .inline ⟨none,
    [("application/json", ⟨some (.schema ⟨{ Facets.empty with
      reference := some "#/components/schemas/Item" }, ⟨[], none, none, none, none, none⟩⟩)⟩)]⟩)],
    none⟩)], []⟩)]
  components := ⟨[("Item", itemNode)], [], [], [], []⟩
  security := none

/-- The type of an item. -/
def itemType : Ty :=
  .object [⟨"at", "at", .scalar .string (some "date"), false, none, false⟩,
    ⟨"next", "next", .reference "Item", false, none, false⟩] none

/-- The declaration of the operation. -/
def itemOperation : OperationDeclaration :=
  ⟨"list", .get, "/", [], none, [⟨"200", some ⟨"application/json", .json, .reference "Item",
    ⟨[[.ref "Item"]], []⟩⟩⟩], [], none, none, false⟩

/-- The declarations of the document. -/
def itemDeclarations : Declarations where
  title := "Items"
  version := "1"
  types := [⟨⟨"Item", "Item", itemType, none, false⟩, false⟩]
  operations := [itemOperation]
  auth := []
  context := ⟨none, []⟩
  table := ⟨some [("Item", [[.access "at", .this], [.access "next", .ref "Item"]])], none⟩

set_option maxRecDepth 10000 in
theorem compile_itemDocument : itemDocument.compile .default = .ok itemDeclarations := by
  cbv

end ApiDecl
