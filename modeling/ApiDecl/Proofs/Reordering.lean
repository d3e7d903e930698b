import ApiDecl.Proofs.Compilation
import ApiDecl.Proofs.Inlining
import ApiDecl.Proofs.Transform.Reordering

/-!
# Components in another order

A component is entered by its own pointer or from a component that mentions it, whichever comes
first, so cycles of components are entered at other places when the components come in another
order.  The declarations do not show it, if the names of the components are told apart once they are
sanitized: they are the same but for the order of the types and of the table (`compile_reordersTo`).

What is reached is the same, so the same types are compiled; the same types have the same programs,
and the same names of these are live.
-/

namespace ApiDecl

/-! ### Scopes -/

/-- The names of the components sanitize to distinct identifiers. -/
def Document.Distinct (d : Document) : Prop :=
  (d.components.schemas.map fun entry => sanitize entry.1).Nodup

/-- The other document has the schemas of its components in another order. -/
structure Document.ReordersTo (d d' : Document) : Prop where
  schemas : d.components.schemas.Perm d'.components.schemas
  rest : d' = { d with components := { d.components with schemas := d'.components.schemas } }

namespace Document

/-- Names that sanitize to distinct identifiers are only sanitized. -/
theorem Distinct.names_eq {d : Document} (hd : d.Distinct) (options : CasedOptions) :
    (Scope.ofDocument d options).names =
      d.components.schemas.map fun entry => (entry.1, sanitize entry.1) := by
  have hclaim : claimAll [] ((d.components.schemas.map Prod.fst).map sanitize) =
      d.components.schemas.map fun entry => sanitize entry.1 := by
    rw [List.map_map]
    exact claimAll_eq_self hd fun _ _ => List.not_mem_nil
  simp only [Scope.ofDocument, Scope.typeNames, hclaim, List.zip_map']

theorem Distinct.nodup {d : Document} (hd : d.Distinct) :
    (d.components.schemas.map Prod.fst).Nodup := by
  rw [Distinct, ← Function.comp_def sanitize Prod.fst, ← List.map_map] at hd
  exact List.Nodup.of_map _ hd

namespace ReordersTo

variable {d d' : Document} (h : d.ReordersTo d')
include h

theorem symm : d'.ReordersTo d where
  schemas := h.schemas.symm
  rest := by rw [h.rest]

theorem distinct (hd : d.Distinct) : d'.Distinct :=
  (h.schemas.map _).nodup_iff.mp hd

/-- The same security schemes are declared. -/
theorem ofDocument_eq_ok_iff {auth : AuthConfiguration} :
    AuthConfiguration.ofDocument d = .ok auth ↔ AuthConfiguration.ofDocument d' = .ok auth := by
  rw [h.rest]
  exact ofSchemes_eq_ok_iff (List.forall₂_same.mpr fun _ _ => ⟨rfl, RefOr.SameLeads.refl _ _ _⟩)

variable (hd : d.Distinct) (options : CasedOptions)
include hd

theorem perm_names :
    (Scope.ofDocument d options).names.Perm (Scope.ofDocument d' options).names := by
  rw [hd.names_eq, (h.distinct hd).names_eq]
  exact h.schemas.map _

/-- Both scopes have the same components. -/
theorem scope_matches : (Scope.ofDocument d options).Matches (Scope.ofDocument d' options) where
  options := rfl
  schemas := Member.lookup_of_perm hd.nodup h.schemas
  names := by
    refine Member.lookup_of_perm ?_ (h.perm_names hd options)
    rw [Scope.map_fst_names]
    exact hd.nodup

/-- The operations have the same drafts. -/
theorem same_draftOperations : (draftOperations (Scope.ofDocument d options) d).Same
    (draftOperations (Scope.ofDocument d' options) d') := by
  have hrelated := (h.scope_matches hd options).alike.related
  refine related_draftOperations hrelated (by rw [h.rest]) ?_
  rw [h.rest]
  exact forall₂_sourceAgrees d.components _ _

theorem begins_iff (m : Mention) : d.Begins options m ↔ d'.Begins options m := by
  unfold Begins
  rw [(h.scope_matches hd options).alike.resolve, (h.same_draftOperations hd options).1]
  simp only [(h.perm_names hd options).mem_iff]

/-- **The same components are reached.** -/
theorem reaches_iff (m : Mention) : d.Reaches options m ↔ d'.Reaches options m :=
  (h.scope_matches hd options).reached_iff (h.begins_iff hd options) m

theorem flawless (hf : d.Flawless options) : d'.Flawless options := by
  have hscope := h.scope_matches hd options
  constructor
  case version => rw [h.rest]; exact hf.version
  case pointers =>
    intro entry he
    rw [← hscope.alike.resolve]
    exact hf.pointers entry ((h.perm_names hd options).mem_iff.mpr he)
  case components =>
    exact fun m hm => (hscope.drafts_iff m).mp
      (hf.components m ((h.reaches_iff hd options m).mpr hm))
  case operations =>
    exact fun hall => (hf.operations hall).imp fun operations =>
      ((h.same_draftOperations hd options).2 operations).mp
  case auth =>
    exact fun hall => (hf.auth hall).imp fun auth => h.ofDocument_eq_ok_iff.mp

end ReordersTo

end Document

/-! ### Declarations -/

/-- Both have the same declarations, but for the order of the types and of the table. -/
structure Declarations.SameButOrder (l l' : Declarations) : Prop where
  title : l.title = l'.title
  version : l.version = l'.version
  types : l.types.Perm l'.types
  /-- Each name declares the same type. -/
  type? : ∀ name, l.type? name = l'.type? name
  operations : l.operations = l'.operations
  auth : l.auth = l'.auth
  context : l.context = l'.context
  table : ∀ kind, Option.Rel List.Perm (l.table.section? kind) (l'.table.section? kind)
  /-- Each name has the same programs. -/
  programs : ∀ kind name, l.table.programs kind name = l'.table.programs kind name

namespace Document.ReordersTo

variable {d d' : Document} {options : CasedOptions} {l l' : Declarations} {p p' : Progress}
  {operations operations' : List OperationDeclaration} (h : d.ReordersTo d') (hd : d.Distinct)
  (hm : l.MadeOf d options p operations) (hm' : l'.MadeOf d' options p' operations')
include h hd hm hm'

/-- The operations are drafted to the same. -/
theorem operations_eq : operations = operations' := by
  have hdrafted := hm.drafted
  have hdrafted' := hm'.drafted
  split_ifs at hdrafted hdrafted'
  · rw [hdrafted, hdrafted']
  · have hresult := ((h.same_draftOperations hd options).2 operations).mp hdrafted.1
    exact Except.ok.inj (hresult.symm.trans hdrafted'.1)

variable (ht : p.Traced (Scope.ofDocument d options) (d.Begins options) [])
  (ht' : p'.Traced (Scope.ofDocument d' options) (d'.Begins options) [])
include ht ht'

/-- The same types are compiled. -/
theorem type?_eq (name : String) : p.type? name = p'.type? name := by
  have hmem (t : NamedType) : t ∈ p.types ↔ t ∈ p'.types := by
    rw [hm.mem_types_iff ht, hm'.mem_types_iff ht']
    exact exists_congr fun m => and_congr (h.reaches_iff hd options m)
      ((h.scope_matches hd options).makes_iff m t)
  refine Option.ext fun t => ?_
  rw [hm.sound.type?_eq_some_iff, hm'.sound.type?_eq_some_iff, hmem]

/-- The tables have the same programs. -/
theorem table_matches : p.table.Matches p'.table := by
  intro kind
  refine ⟨hm.sound.names kind, hm'.sound.names kind, fun name => ?_⟩
  rw [hm.sound.derived kind name, hm'.sound.derived kind name, Progress.declared,
    Progress.declared, h.type?_eq hd hm hm' ht ht']

/-- **What is compiled of both documents** is the same but for the order. -/
theorem sameButOrder (hl : d.compile options = .ok l) (hl' : d'.compile options = .ok l') :
    l.SameButOrder l' := by
  have htypes := funext (h.type?_eq hd hm hm' ht ht')
  have htable := h.table_matches hd hm hm' ht ht'
  obtain ⟨htitle, hversion, hcontext, hauth⟩ := Declarations.head_of_compile hl
  obtain ⟨htitle', hversion', hcontext', hauth'⟩ := Declarations.head_of_compile hl'
  have hsame : l.auth = l'.auth := by
    split_ifs at hauth hauth'
    · rw [hauth, hauth']
    · exact Except.ok.inj ((h.ofDocument_eq_ok_iff.mp hauth).symm.trans hauth')
  constructor
  case title => rw [htitle, htitle', h.rest]
  case version => rw [hversion, hversion', h.rest]
  case auth => exact hsame
  case context => rw [hcontext, hcontext', hsame, h.rest]
  case types =>
    rw [hm.types, hm'.types, htypes]
    exact ((h.perm_names hd options).filterMap _).map _
  case type? => exact fun name => by rw [hm.type?_eq, hm'.type?_eq, htypes]
  case operations =>
    rw [hm.operations, hm'.operations, h.operations_eq hd hm hm']
    exact List.map_congr_left fun o _ => htable.prune_operation o
  case table =>
    intro kind
    rw [hm.table, hm'.table]
    exact htable.perm_prune kind
  case programs =>
    intro kind name
    rw [hm.table, hm'.table]
    exact htable.programs_prune kind name

end Document.ReordersTo

/-- **Components in another order**, whose names sanitize to distinct identifiers, make a document
compile just if it did before, and then to the same declarations but for the order of the types and
of the table. -/
theorem compile_reordersTo {d d' : Document} (hd : d.Distinct) (h : d.ReordersTo d')
    (options : CasedOptions) :
    ((∃ l, d.compile options = .ok l) ↔ ∃ l', d'.compile options = .ok l') ∧
      ∀ l l', d.compile options = .ok l → d'.compile options = .ok l' → l.SameButOrder l' := by
  constructor
  · rw [Document.exists_compile_iff, Document.exists_compile_iff]
    exact ⟨h.flawless hd options, h.symm.flawless (h.distinct hd) options⟩
  · intro l l' hl hl'
    obtain ⟨p, operations, hm, ht⟩ := Declarations.exists_traced_of_compile hl
    obtain ⟨p', operations', hm', ht'⟩ := Declarations.exists_traced_of_compile hl'
    exact h.sameButOrder hd hm hm' ht ht' hl hl'

/-! ### Two components that mention each other -/

/-- The left component, with a day and a right one. -/
def leftNode : Node := .schema ⟨.empty, ⟨[
  ("at", .schema ⟨{ Facets.empty with types := some (.one "string"), format := some "date" },
    ⟨[], none, none, none, none, none⟩⟩),
  ("right", referenceNode "#/components/schemas/Right")], none, none, none, none, none⟩⟩

/-- The right component, with a left one. -/
def rightNode : Node := .schema ⟨.empty,
  ⟨[("left", referenceNode "#/components/schemas/Left")], none, none, none, none, none⟩⟩

/-- One operation that responds with a right one. -/
def pairDocumentOf (schemas : List (String × Node)) : Document where
  format := some "3.0.0"
  info := ⟨"Pair", "1", none⟩
  servers := []
  paths := [("/", ⟨[(.get, ⟨some "pair", none, none, false, [], [], none, [("200", .inline ⟨none,
    [("application/json", ⟨some (referenceNode "#/components/schemas/Right")⟩)]⟩)], none⟩)], []⟩)]
  components := ⟨schemas, [], [], [], []⟩
  security := none

/-- The left component first. -/
def pairDocument : Document := pairDocumentOf [("Left", leftNode), ("Right", rightNode)]

/-- The right component first. -/
def swappedDocument : Document := pairDocumentOf [("Right", rightNode), ("Left", leftNode)]

/-- The declaration of the left component. -/
def leftDeclaration : TypeDeclaration :=
  ⟨⟨"Left", "Left", .object [⟨"at", "at", .scalar .string (some "date"), false, none, false⟩,
    ⟨"right", "right", .reference "Right", false, none, false⟩] none, none, false⟩, false⟩

/-- The declaration of the right component. -/
def rightDeclaration : TypeDeclaration :=
  ⟨⟨"Right", "Right", .object [⟨"left", "left", .reference "Left", false, none, false⟩] none, none,
    false⟩, false⟩

/-- The declarations with types and a table in the orders given. -/
def pairDeclarationsOf (types : List TypeDeclaration) (dates : Section) : Declarations where
  title := "Pair"
  version := "1"
  types := types
  operations := [⟨"pair", .get, "/", [], none, [⟨"200", some ⟨"application/json", .json,
    .reference "Right", ⟨[[.ref "Right"]], []⟩⟩⟩], [], none, none, false⟩]
  auth := []
  context := ⟨none, []⟩
  table := ⟨some dates, none⟩

/-- The declarations with the left component first, which is completed last. -/
def pairDeclarations : Declarations :=
  pairDeclarationsOf [leftDeclaration, rightDeclaration]
    [("Right", [[.access "left", .ref "Left"]]),
      ("Left", [[.access "at", .this], [.access "right", .ref "Right"]])]

/-- The declarations with the right component first. -/
def swappedDeclarations : Declarations :=
  pairDeclarationsOf [rightDeclaration, leftDeclaration]
    [("Left", [[.access "at", .this], [.access "right", .ref "Right"]]),
      ("Right", [[.access "left", .ref "Left"]])]

set_option maxRecDepth 10000 in
theorem compile_reordersTo_pair : pairDocument.Distinct ∧ pairDocument.ReordersTo swappedDocument ∧
    pairDocument.compile .default = .ok pairDeclarations ∧
    swappedDocument.compile .default = .ok swappedDeclarations ∧
    pairDeclarations.SameButOrder swappedDeclarations := by
  have hd : pairDocument.Distinct := by
    unfold Document.Distinct
    decide
  have h : pairDocument.ReordersTo swappedDocument := ⟨.swap _ _ _, rfl⟩
  have hl : pairDocument.compile .default = .ok pairDeclarations := by cbv
  have hl' : swappedDocument.compile .default = .ok swappedDeclarations := by cbv
  exact ⟨hd, h, hl, hl', (compile_reordersTo hd h .default).2 _ _ hl hl'⟩

end ApiDecl
