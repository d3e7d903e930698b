import ApiDecl.Proofs.Operation.Agreement
import ApiDecl.Proofs.Resolved

/-!
# Copies in place of references

A parameter, a body, a response or a security scheme may be given by a reference or by a copy of the
definition that the reference leads to: the declarations are the same (`compile_inlinesTo_iff`).

References are followed once.  So a reference that leads to another reference is refused, and a copy
in place of the second makes a document compile that did not before (`chainDocument`).
-/

namespace ApiDecl

/-! ### Copies -/

section Copies

variable {α : Type} {pool : Pool} {definitions definitions' : List (String × RefOr α)}
  {entry entry' : RefOr α}

/-- The other entry is the same, or a copy of the definition that the entry leads to. -/
def RefOr.InlinesTo (pool : Pool) (definitions : List (String × RefOr α))
    (entry entry' : RefOr α) : Prop :=
  entry' = entry ∨ ∃ a, entry.Leads pool definitions a ∧ entry' = .inline a

/-- The same for named entries, with the same names. -/
def InlinesToNamed (pool : Pool) (definitions : List (String × RefOr α))
    (named named' : String × RefOr α) : Prop :=
  named.1 = named'.1 ∧ named.2.InlinesTo pool definitions named'.2

theorem RefOr.InlinesTo.refl (pool : Pool) (definitions : List (String × RefOr α))
    (entry : RefOr α) : entry.InlinesTo pool definitions entry :=
  Or.inl rfl

/-- The entry is no reference that leads to another reference. -/
def RefOr.Direct (pool : Pool) (definitions : List (String × RefOr α)) (entry : RefOr α) : Prop :=
  ∀ pointer, entry = .reference pointer →
    ∀ name other, pool.find definitions pointer ≠ .ok (name, .reference other)

theorem RefOr.Leads.direct {a : α} (h : entry.Leads pool definitions a) :
    entry.Direct pool definitions := by
  rintro pointer rfl name other hf
  obtain ⟨found, hfound⟩ := RefOr.leads_reference.mp h
  rw [hf] at hfound
  cases hfound

/-- A name is looked up to an entry, and to what is put in its place. -/
theorem lookup_inlinesTo (name : String) {named named' : List (String × RefOr α)}
    (h : List.Forall₂ (InlinesToNamed pool definitions) named named') :
    Option.Rel (RefOr.InlinesTo pool definitions) (Member.lookup name named)
      (Member.lookup name named') := by
  induction h with
  | nil => exact .none
  | @cons named named' _ _ hentry _ ih =>
    obtain ⟨key, entry⟩ := named
    obtain ⟨_, entry'⟩ := named'
    obtain ⟨hkey, he⟩ := hentry
    obtain rfl : key = _ := hkey
    rw [Member.lookup, Member.lookup]
    split_ifs
    · exact .some he
    · exact ih

variable (hpool : List.Forall₂ (InlinesToNamed pool definitions) definitions definitions')
  {pointer name : String} {a : α}
include hpool

/-- A definition that a pointer leads to stays where it is. -/
theorem find_inlinesTo (h : pool.find definitions pointer = .ok (name, .inline a)) :
    pool.find definitions' pointer = .ok (name, .inline a) := by
  obtain ⟨hsplit, hl⟩ := Pool.find_eq_ok.mp h
  have hrel := lookup_inlinesTo name hpool
  rw [hl] at hrel
  refine Pool.find_eq_ok.mpr ⟨hsplit, ?_⟩
  generalize Member.lookup name definitions' = found at hrel
  cases hrel with
  | some hi =>
    rcases hi with rfl | ⟨b, hb, rfl⟩
    · rfl
    · rw [RefOr.leads_inline.mp hb]

/-- A definition that a pointer leads to was there before, or is a copy. -/
theorem find_of_inlinesTo (h : pool.find definitions' pointer = .ok (name, .inline a)) :
    pool.find definitions pointer = .ok (name, .inline a) ∨
      ∃ other, pool.find definitions pointer = .ok (name, .reference other) := by
  obtain ⟨hsplit, hl⟩ := Pool.find_eq_ok.mp h
  have hrel := lookup_inlinesTo name hpool
  rw [hl] at hrel
  simp only [Pool.find_eq_ok, hsplit, true_and]
  generalize Member.lookup name definitions = found at hrel
  cases hrel with
  | @some entry _ hi =>
    cases entry with
    | inline definition =>
      rcases hi with he | ⟨b, hb, he⟩
      · exact Or.inl (congrArg some he.symm)
      · rw [RefOr.leads_inline.mp hb, ← he]
        exact Or.inl rfl
    | reference other => exact Or.inr ⟨other, rfl⟩

/-- **An entry and its copy** lead to the same, each in its pool, unless a reference leads to another
reference. -/
theorem RefOr.InlinesTo.sameLeads (h : entry.InlinesTo pool definitions entry')
    (hd : entry.Direct pool definitions) :
    entry.SameLeads pool definitions definitions' entry' := by
  intro a
  rcases h with rfl | ⟨b, hb, rfl⟩
  · cases entry' with
    | inline definition => rw [leads_inline, leads_inline]
    | reference pointer =>
      rw [leads_reference, leads_reference]
      refine exists_congr fun name => ⟨find_inlinesTo hpool, fun hf => ?_⟩
      rcases find_of_inlinesTo hpool hf with hf | ⟨other, hf⟩
      · exact hf
      · exact absurd hf (hd pointer rfl name other)
  · rw [leads_inline]
    constructor
    · intro ha
      obtain ⟨found, hf⟩ := ha.follow ""
      exact (hb.eq_of_follow hf).symm
    · rintro rfl
      exact hb

end Copies

/-! ### Documents -/

/-- Some references of the operation are replaced by copies. -/
structure Operation.InlinesTo (c : Components) (o o' : Operation) : Prop where
  parameters : List.Forall₂ (RefOr.InlinesTo .parameter c.parameters) o.parameters o'.parameters
  body : Option.Rel (RefOr.InlinesTo .body c.bodies) o.body o'.body
  responses : List.Forall₂ (InlinesToNamed .response c.responses) o.responses o'.responses
  rest : o' = { o with parameters := o'.parameters, body := o'.body, responses := o'.responses }

/-- Some references at the path are replaced by copies. -/
structure PathItem.InlinesTo (c : Components) (item item' : PathItem) : Prop where
  parameters : List.Forall₂ (RefOr.InlinesTo .parameter c.parameters)
    item.parameters item'.parameters
  operations : List.Forall₂ (fun entry entry' => entry.1 = entry'.1 ∧
    entry.2.InlinesTo c entry'.2) item.operations item'.operations

/-- Some references to parameters, bodies, responses and security schemes are replaced by copies of
the definitions that they lead to. -/
structure Document.InlinesTo (d d' : Document) : Prop where
  parameters : List.Forall₂ (InlinesToNamed .parameter d.components.parameters)
    d.components.parameters d'.components.parameters
  bodies : List.Forall₂ (InlinesToNamed .body d.components.bodies)
    d.components.bodies d'.components.bodies
  responses : List.Forall₂ (InlinesToNamed .response d.components.responses)
    d.components.responses d'.components.responses
  schemes : List.Forall₂ (InlinesToNamed .scheme d.components.schemes)
    d.components.schemes d'.components.schemes
  paths : List.Forall₂ (fun entry entry' => entry.1 = entry'.1 ∧
    entry.2.InlinesTo d.components entry'.2) d.paths d'.paths
  schemas : d'.components.schemas = d.components.schemas
  rest : d' = { d with paths := d'.paths, components := d'.components }

/-- No reference that is followed leads to another reference. -/
structure Document.Direct (d : Document) : Prop where
  parameters : ∀ entry ∈ d.openedParameters, entry.Direct .parameter d.components.parameters
  bodies : ∀ entry ∈ d.openedBodies, entry.Direct .body d.components.bodies
  responses : ∀ entry ∈ d.openedResponses, entry.Direct .response d.components.responses
  schemes : ∀ entry ∈ d.schemes, entry.Direct .scheme d.components.schemes

section Documents

variable {d d' : Document} {options : CasedOptions} {l : Declarations}

/-- The operations of a document, each with its copy. -/
theorem Document.InlinesTo.operationsOf (h : d.InlinesTo d') : List.Forall₂
    (fun source source' : String × PathItem × Method × Operation => source.1 = source'.1 ∧
      source.2.1.InlinesTo d.components source'.2.1 ∧ source.2.2.1 = source'.2.2.1 ∧
        source.2.2.2.InlinesTo d.components source'.2.2.2)
    (ApiDecl.operationsOf d.paths) (ApiDecl.operationsOf d'.paths) := by
  refine List.rel_flatMap h.paths ?_
  rintro ⟨path, item⟩ ⟨path', item'⟩ ⟨hpath, hitem⟩
  rw [List.forall₂_map_left_iff, List.forall₂_map_right_iff]
  exact hitem.operations.imp fun entry entry' ho => ⟨hpath, hitem, ho⟩

/-- **Operations and their copies** agree, unless a reference leads to another reference. -/
theorem Document.InlinesTo.sourceAgrees (h : d.InlinesTo d') (hd : d.Direct) :
    List.Forall₂ (SourceAgrees d.components d'.components) (ApiDecl.operationsOf d.paths)
      (ApiDecl.operationsOf d'.paths) := by
  refine forall₂_imp_of_mem h.operationsOf ?_
  rintro ⟨path, item, method, o⟩ hm ⟨path', item', method', o'⟩ ⟨hpath, hitem, hmethod, ho⟩
  dsimp only at hpath hitem hmethod ho
  have hparameters (entry : RefOr Parameter) (he : entry ∈ item.parameters ++ o.parameters) :
      entry.Direct .parameter d.components.parameters :=
    hd.parameters entry (List.mem_flatMap.mpr ⟨_, hm, he⟩)
  refine ⟨hpath, hmethod, ?_, ?_⟩
  · exact forall₂_imp_of_mem hitem.parameters fun entry he entry' hi =>
      hi.sameLeads h.parameters (hparameters entry (List.mem_append_left _ he))
  · constructor
    case parameters =>
      exact forall₂_imp_of_mem ho.parameters fun entry he entry' hi =>
        hi.sameLeads h.parameters (hparameters entry (List.mem_append_right _ he))
    case body =>
      have hbody := ho.body
      have hopened (entry : RefOr RequestBody) (he : o.body = some entry) :
          entry.Direct .body d.components.bodies :=
        hd.bodies entry (List.mem_filterMap.mpr ⟨_, hm, he⟩)
      generalize o.body = body, o'.body = body' at hbody hopened ⊢
      cases hbody with
      | none => exact .none
      | some hi => exact .some (hi.sameLeads h.bodies (hopened _ rfl))
    case responses =>
      refine forall₂_imp_of_mem ho.responses fun entry he entry' hi => ⟨hi.1, ?_⟩
      have hopened : entry.2 ∈ d.openedResponses :=
        List.mem_flatMap.mpr ⟨_, hm, List.mem_map_of_mem he⟩
      exact hi.2.sameLeads h.responses (hd.responses entry.2 hopened)
    all_goals rw [ho.rest]

/-- Security schemes that lead to the same make the same configuration. -/
theorem ofSchemes_eq_ok_iff {c c' : Components} : ∀ {entries entries' :
    List (String × RefOr SecurityScheme)} {auth : AuthConfiguration},
    List.Forall₂ (fun entry entry' => entry.1 = entry'.1 ∧
      entry.2.SameLeads .scheme c.schemes c'.schemes entry'.2) entries entries' →
        (AuthConfiguration.ofSchemes c entries = .ok auth ↔
          AuthConfiguration.ofSchemes c' entries' = .ok auth)
  | _, _, _, .nil => Iff.rfl
  | (name, entry) :: _, (_, entry') :: _, auth, .cons ⟨hname, h⟩ rest => by
    obtain rfl : name = _ := hname
    rw [AuthConfiguration.ofSchemes_cons_eq_ok, AuthConfiguration.ofSchemes_cons_eq_ok]
    refine exists_congr fun scheme => and_congr (h scheme) (exists_congr fun kind =>
      exists_congr fun more => and_congr_right fun _ => and_congr_left fun _ => ?_)
    exact ofSchemes_eq_ok_iff rest

theorem Document.InlinesTo.ofDocument_eq_ok_iff (h : d.InlinesTo d') (hd : d.Direct)
    {auth : AuthConfiguration} : AuthConfiguration.ofDocument d = .ok auth ↔
      AuthConfiguration.ofDocument d' = .ok auth :=
  ofSchemes_eq_ok_iff (forall₂_imp_of_mem h.schemes fun entry he _ hi => ⟨hi.1,
    hi.2.sameLeads h.schemes (hd.schemes entry.2 (List.mem_map_of_mem he))⟩)

/-- A compilation goes on from drafts that are the same in the same way. -/
theorem Progress.draft_eq_ok_iff {α : Type} {draft draft' : Draft α} (h : draft.Same draft')
    {scope : Scope} {p q : Progress} {a : α} :
    p.draft scope draft = (q, .ok a) ↔ p.draft scope draft' = (q, .ok a) := by
  unfold Progress.draft
  rw [h.1]
  split
  · rw [Prod.mk.injEq, Prod.mk.injEq, h.2 a]
  · rfl

/-- Operations and security schemes are compiled alike. -/
theorem Document.InlinesTo.compileOperations_eq_ok_iff (h : d.InlinesTo d') (scope : Scope)
    (hd : scope.options.onlyTypes = true ∨ d.Direct) {p q : Progress}
    {result : List OperationDeclaration × AuthConfiguration} :
    compileOperations scope d p = (q, .ok result) ↔
      compileOperations scope d' p = (q, .ok result) := by
  obtain ⟨operations, auth⟩ := result
  rw [Declarations.compileOperations_eq_ok, Declarations.compileOperations_eq_ok]
  split_ifs with honly
  · rfl
  · have hdirect : d.Direct := hd.resolve_left honly
    have hsecurity : d.security = d'.security := by rw [h.rest]
    have halike : scope.Alike scope := ⟨rfl, rfl⟩
    have hsame := related_draftOperations halike.related hsecurity (h.sourceAgrees hdirect)
    rw [Progress.draft_eq_ok_iff hsame, h.ofDocument_eq_ok_iff hdirect]

/-- When a document compiles, no reference that is followed leads to another reference. -/
theorem Declarations.direct_of_compile (hl : d.compile options = .ok l)
    (hall : options.onlyTypes = false) : d.Direct := by
  obtain ⟨p, operations, hm⟩ := exists_of_compile_eq_ok hl
  constructor
  case parameters =>
    intro entry he
    obtain ⟨a, place, found, b, hf, -⟩ := hm.exists_follow_parameter hall he
    exact RefOr.Leads.direct ⟨place, found, hf⟩
  case bodies =>
    intro entry he
    obtain ⟨a, place, found, hf, -⟩ := hm.exists_follow_body hall he
    exact RefOr.Leads.direct ⟨place, found, hf⟩
  case responses =>
    intro entry he
    obtain ⟨a, place, found, hf, -⟩ := hm.exists_follow_response hall he
    exact RefOr.Leads.direct ⟨place, found, hf⟩
  case schemes =>
    intro entry he
    have ha := ofDocument_of_compile hl hall
    obtain ⟨named, hn, rfl⟩ := List.mem_map.mp he
    obtain ⟨scheme, hleads⟩ := AuthConfiguration.exists_leads_of_ofSchemes ha named hn
    exact hleads.direct

end Documents

/-- **Copies in place of references** change no declarations: a document compiles just if it does
with the copies and no reference that it follows leads to another reference. -/
theorem compile_inlinesTo_iff {d d' : Document} (h : d.InlinesTo d') (options : CasedOptions)
    (l : Declarations) : d.compile options = .ok l ↔
      d'.compile options = .ok l ∧ (options.onlyTypes = true ∨ d.Direct) := by
  have hscope : Scope.ofDocument d' options = Scope.ofDocument d options := by
    unfold Scope.ofDocument
    rw [h.schemas]
  have hformat : d'.format = d.format := by rw [h.rest]
  have hassemble (compiled : Progress.Compiled) (operations : List OperationDeclaration)
      (auth : AuthConfiguration) : Declarations.assemble d' options compiled operations auth =
        Declarations.assemble d options compiled operations auth := by
    rw [h.rest]
    rfl
  have hiff (hd : options.onlyTypes = true ∨ d.Direct) :
      d.compile options = .ok l ↔ d'.compile options = .ok l := by
    rw [Declarations.compile_eq_ok, Declarations.compile_eq_ok, hscope, hformat]
    simp only [h.compileOperations_eq_ok_iff (Scope.ofDocument d options) hd, hassemble]
  constructor
  · intro hl
    have hd : options.onlyTypes = true ∨ d.Direct := by
      cases honly : options.onlyTypes with
      | true => exact Or.inl rfl
      | false => exact Or.inr (Declarations.direct_of_compile hl honly)
    exact ⟨(hiff hd).mp hl, hd⟩
  · rintro ⟨hl, hd⟩
    exact (hiff hd).mpr hl

/-! ### A document with references, and its copy -/

/-- A parameter of a query. -/
def pageParameter : Parameter := ⟨"page", .query, false, none, none, false⟩

/-- A body with any value. -/
def anyBody : RequestBody := ⟨true, none, [("application/json", ⟨none⟩)]⟩

/-- A response with any value. -/
def anyResponse : Response := ⟨none, [("application/json", ⟨none⟩)]⟩

/-- Names and passwords. -/
def basicScheme : SecurityScheme := ⟨"http", some "basic", none, none, none, none, none⟩

/-- One operation with a parameter, a body and a response, and a security scheme known by two names. -/
def pagedDocumentOf (parameter : RefOr Parameter) (body : RefOr RequestBody)
    (response : RefOr Response) (scheme : RefOr SecurityScheme) : Document where
  format := some "3.0.0"
  info := ⟨"Pages", "1", none⟩
  servers := []
  paths := [("/", ⟨[(.post, ⟨some "turn", none, none, false, [], [parameter], some body,
    [("200", response)], none⟩)], []⟩)]
  components := ⟨[], [("Page", .inline pageParameter)], [("Any", .inline anyResponse)],
    [("Any", .inline anyBody)], [("basic", .inline basicScheme), ("login", scheme)]⟩
  security := none

/-- All of these given by references. -/
def pagedDocument : Document :=
  pagedDocumentOf (.reference "#/components/parameters/Page")
    (.reference "#/components/requestBodies/Any") (.reference "#/components/responses/Any")
    (.reference "#/components/securitySchemes/basic")

/-- All of these given by copies. -/
def pagedCopy : Document :=
  pagedDocumentOf (.inline pageParameter) (.inline anyBody) (.inline anyResponse)
    (.inline basicScheme)

/-- The declarations of both documents. -/
def pagedDeclarations : Declarations where
  title := "Pages"
  version := "1"
  types := []
  operations := [⟨"turn", .post, "/", [⟨"page", "page", .query, false, .scalar .string none⟩],
    some ⟨"application/json", .json, true, .any, ⟨[], []⟩⟩, [⟨"200", some ⟨"application/json", .json,
      .any, ⟨[], []⟩⟩⟩], [], none, none, false⟩]
  auth := [⟨"basic", .basic, none⟩, ⟨"login", .basic, none⟩]
  context := ⟨none, ["basic", "login"]⟩
  table := ⟨none, none⟩

set_option maxRecDepth 10000 in
theorem compile_pagedDocument : pagedDocument.compile .default = .ok pagedDeclarations := by
  cbv

theorem inlinesTo_pagedCopy : pagedDocument.InlinesTo pagedCopy where
  parameters := .cons ⟨rfl, .refl _ _ _⟩ .nil
  bodies := .cons ⟨rfl, .refl _ _ _⟩ .nil
  responses := .cons ⟨rfl, .refl _ _ _⟩ .nil
  schemes := .cons ⟨rfl, .refl _ _ _⟩
    (.cons ⟨rfl, .inr ⟨_, RefOr.leads_reference.mpr ⟨"basic", by rfl⟩, rfl⟩⟩ .nil)
  paths := .cons ⟨rfl, {
    parameters := .nil
    operations := .cons ⟨rfl, {
      parameters := .cons (.inr ⟨_, RefOr.leads_reference.mpr ⟨"Page", by rfl⟩, rfl⟩) .nil
      body := .some (.inr ⟨_, RefOr.leads_reference.mpr ⟨"Any", by rfl⟩, rfl⟩)
      responses := .cons ⟨rfl, .inr ⟨_, RefOr.leads_reference.mpr ⟨"Any", by rfl⟩, rfl⟩⟩ .nil
      rest := rfl }⟩ .nil }⟩ .nil
  schemas := rfl
  rest := rfl

/-- The copy has the same declarations. -/
theorem compile_inlinesTo_iff_paged : pagedDocument.InlinesTo pagedCopy ∧
    pagedDocument.compile .default = .ok pagedDeclarations ∧
      pagedCopy.compile .default = .ok pagedDeclarations ∧ pagedDocument.Direct := by
  have hiff := compile_inlinesTo_iff inlinesTo_pagedCopy .default pagedDeclarations
  have hcopy := hiff.mp compile_pagedDocument
  have hall : ¬ Options.default.onlyTypes = true := by decide
  exact ⟨inlinesTo_pagedCopy, compile_pagedDocument, hcopy.1, hcopy.2.resolve_left hall⟩

/-! ### A reference to a reference -/

/-- Three security schemes, of which the last leads to the second. -/
def chainDocumentOf (scheme : RefOr SecurityScheme) : Document where
  format := some "3.0.0"
  info := ⟨"Chain", "1", none⟩
  servers := []
  paths := []
  components := ⟨[], [], [], [], [("first", .inline basicScheme), ("second", scheme),
    ("third", .reference "#/components/securitySchemes/second")]⟩
  security := none

/-- The second security scheme leads to the first. -/
def chainDocument : Document := chainDocumentOf (.reference "#/components/securitySchemes/first")

/-- The second security scheme is a copy of the first. -/
def chainCopy : Document := chainDocumentOf (.inline basicScheme)

/-- The declarations of the copy. -/
def chainDeclarations : Declarations where
  title := "Chain"
  version := "1"
  types := []
  operations := []
  auth := [⟨"first", .basic, none⟩, ⟨"second", .basic, none⟩, ⟨"third", .basic, none⟩]
  context := ⟨none, ["first", "second", "third"]⟩
  table := ⟨none, none⟩

/-- A copy makes a document compile that did not before. -/
theorem compile_ne_of_inlinesTo_chain : chainDocument.InlinesTo chainCopy ∧
    chainDocument.compile .default = .error
      (.invalid "#/components/securitySchemes/second" (.chained "security scheme")) ∧
    chainCopy.compile .default = .ok chainDeclarations := by
  refine ⟨⟨.nil, .nil, .nil, ?_, .nil, rfl, rfl⟩, by cbv, by cbv⟩
  exact .cons ⟨rfl, .refl _ _ _⟩ (.cons ⟨rfl, .inr ⟨_, RefOr.leads_reference.mpr
    ⟨"first", by rfl⟩, rfl⟩⟩ (.cons ⟨rfl, .refl _ _ _⟩ .nil))

end ApiDecl
