import ApiDecl.Proofs.Declarations
import ApiDecl.Proofs.Description.Positions

/-!
# References that are followed are resolved

When a document compiles, a type has been drafted for everything that its compilation opens
(`MadeOf.exists_drafted_of_opens`), and every reference followed on the way leads to a component of
the pool where it has to (`resolves_of_follows`).

References at positions that are not opened are not looked at.  A document with such a reference,
to no component at all, compiles (`looseDocument`).
-/

namespace ApiDecl

variable {scope : Scope} {P : Mention → Prop} {s : Schema} {ty : Ty} {node : Node}
  {base pointer : String}

/-! ### Parts of a shape -/

theorem exists_drafted_of_mem_memberParts
    (h : (draftObject scope s (draftParts scope pointer s.parts)).Yields P ty)
    (hn : node ∈ s.memberParts) : ∃ ty, Drafted scope P node ty := by
  simp only [draftObject, Draft.yields_bind] at h
  obtain ⟨fields, hf, additional, ha, -⟩ := h
  rcases List.mem_append.mp hn with hn | hn
  · obtain ⟨entry, he, rfl⟩ := List.mem_map.mp hn
    obtain ⟨field, -, -, -, hd⟩ := exists_of_forall₂_left (draftFields_yields hf) he
    exact ⟨field.ty, hd⟩
  · split at hn
    · cases hn
    · cases hn
    · next schema hnot hs =>
      obtain rfl := List.mem_singleton.mp hn
      rw [draftParts, hs, Option.map_some, draftAdditional, Draft.yields_map] at ha
      · obtain ⟨ty, ht, -⟩ := ha
        exact ⟨ty, _, ht⟩
      · rintro rfl
        exact hnot rfl

theorem exists_drafted_of_mem_items
    (h : (draftArray (draftParts scope pointer s.parts)).Yields P ty)
    (hn : node ∈ s.parts.items.toList) : ∃ ty, Drafted scope P node ty := by
  rw [Option.mem_toList] at hn
  rw [draftArray, draftParts, hn, Option.map_some, Draft.yields_map] at h
  obtain ⟨ty, ht, -⟩ := h
  exact ⟨ty, _, ht⟩

/-- Each type that the keyword `type` names is drafted by itself. -/
theorem exists_yields_draftTyped {name : String} (hn : name ∈ s.facets.declaredTypes)
    (h : (draftTypes scope pointer s (draftParts scope pointer s.parts)).Yields P ty) : ∃ ty,
      (draftTyped scope pointer s (draftParts scope pointer s.parts) name).Yields P ty := by
  unfold draftTypes at h
  split at h
  · next only hone =>
    rw [Facets.declaredTypes, hone] at hn
    dsimp only at hn
    split_ifs at hn
    · cases hn
    · obtain rfl := List.mem_singleton.mp hn
      exact ⟨ty, h⟩
  · split_ifs at h
    · exact absurd h Draft.not_yields_fail
    · split at h
      · next hnil => rw [hnil] at hn; cases hn
      · next only hone =>
        rw [hone, List.mem_singleton] at hn
        exact ⟨ty, hn ▸ h⟩
      · obtain ⟨tys, htys, -⟩ := Draft.yields_map.mp h
        obtain ⟨member, -, hy⟩ := exists_of_forall₂_left (Draft.yields_all.mp htys)
          (List.mem_map_of_mem hn)
        exact ⟨member, hy⟩
  · next hnone =>
    rw [Facets.declaredTypes, hnone] at hn
    cases hn

theorem exists_drafted_of_mem_typeParts
    (h : (draftTypes scope pointer s (draftParts scope pointer s.parts)).Yields P ty)
    (hn : node ∈ s.typeParts) : ∃ ty, Drafted scope P node ty := by
  unfold SchemaOf.typeParts at hn
  split at hn
  · rcases List.mem_append.mp hn with hn | hn
    · split_ifs at hn with ho
      · obtain ⟨ty, ht⟩ := exists_yields_draftTyped ho h
        exact exists_drafted_of_mem_memberParts ht hn
      · cases hn
    · split_ifs at hn with ha
      · obtain ⟨ty, ht⟩ := exists_yields_draftTyped ha h
        exact exists_drafted_of_mem_items ht hn
      · cases hn
  · next hnone =>
    rw [draftTypes, hnone] at h
    dsimp only at h
    split_ifs at h hn with ho hi
    · exact exists_drafted_of_mem_memberParts h hn
    · exact exists_drafted_of_mem_items h hn
    · rw [Option.not_isSome_iff_eq_none] at hi
      rw [hi] at hn
      cases hn

theorem exists_drafted_of_draftAllOf {nodes : List Node} {base : String}
    (h : (draftAllOf scope pointer s nodes (draftParts scope pointer s.parts)
      (draftMembers scope base 0 nodes)).Yields P ty)
    (hn : node ∈ nodes.filter Node.isSubstantial ++
      if s.parts.properties.isEmpty then [] else s.memberParts) :
    ∃ ty, Drafted scope P node ty := by
  unfold draftAllOf at h
  rw [List.mem_append] at hn
  split_ifs at h hn
  · exact absurd h Draft.not_yields_fail
  · exact absurd h Draft.not_yields_fail
  · obtain ⟨tys, htys, -⟩ := Draft.yields_bind.mp h
    rcases hn with hn | hn
    · obtain ⟨ty, -, hd⟩ := exists_of_forall₂_left (substantial_yields htys) hn
      exact ⟨ty, hd⟩
    · cases hn
  · simp only [Draft.yields_bind] at h
    obtain ⟨tys, htys, object, ho, -⟩ := h
    rcases hn with hn | hn
    · obtain ⟨ty, -, hd⟩ := exists_of_forall₂_left (substantial_yields htys) hn
      exact ⟨ty, hd⟩
    · exact exists_drafted_of_mem_memberParts ho hn

theorem exists_drafted_of_draftUnion {nodes : List Node} {base keyword : String}
    (h : (draftUnion scope pointer keyword s nodes (draftMembers scope base 0 nodes)).Yields P ty)
    (hn : node ∈ nodes) : ∃ ty, Drafted scope P node ty := by
  unfold draftUnion at h
  split_ifs at h
  · exact absurd h Draft.not_yields_fail
  · obtain ⟨tys, htys, -⟩ := Draft.yields_bind.mp h
    obtain ⟨ty, -, hd⟩ := exists_of_forall₂_left (draftMembers_yields htys) hn
    exact ⟨ty, hd⟩

/-- What makes the shape of a schema has been drafted when the shape has. -/
theorem exists_drafted_of_mem_shapeParts
    (h : (draftShape scope pointer s (draftParts scope pointer s.parts)).Yields P ty)
    (hn : node ∈ s.shapeParts) : ∃ ty, Drafted scope P node ty := by
  unfold SchemaOf.shapeParts at hn
  unfold draftShape at h
  cases hr : s.facets.reference with
  | some target => rw [hr] at hn; cases hn
  | none =>
    cases hc : s.facets.constant with
    | some value => rw [hr, hc] at hn; cases hn
    | none =>
      rw [hr, hc] at h hn
      dsimp only at h hn
      cases hall : s.parts.allOf with
      | some nodes =>
        simp only [draftParts, hall, Option.map_some] at h hn
        exact exists_drafted_of_draftAllOf h hn
      | none =>
        cases hone : s.parts.oneOf with
        | some nodes =>
          simp only [draftParts, hall, hone, Option.map_some, Option.map_none] at h hn
          exact exists_drafted_of_draftUnion h hn
        | none =>
          cases hany : s.parts.anyOf with
          | some nodes =>
            simp only [draftParts, hall, hone, hany, Option.map_some, Option.map_none] at h hn
            exact exists_drafted_of_draftUnion h hn
          | none =>
            rw [hall, hone, hany] at h hn
            dsimp only at h hn
            split at h
            · next hv => rw [hv] at hn; cases hn
            · next hv =>
              rw [hv] at hn
              exact exists_drafted_of_mem_typeParts h hn

/-- The reference of a schema that has been drafted has been resolved and followed. -/
theorem Drafted.exists_resolve (h : Drafted scope P (.schema s) ty)
    (hr : s.facets.reference = some pointer) : ∃ m, scope.resolve pointer = .ok m ∧ P m := by
  obtain ⟨place, h⟩ := h
  rw [draftNode_schema, Draft.yields_map] at h
  obtain ⟨inner, hi, -⟩ := h
  simp only [draftShape, hr, draftReference, Draft.yields_bind, Draft.yields_ofExcept,
    Draft.yields_mention] at hi
  obtain ⟨m, hm, -, hp, -⟩ := hi
  exact ⟨m, hm, hp⟩

/-! ### What operations open -/

section Operations

variable {c : Components}

theorem drafted_of_draftMedia {mediaType : String} {media : MediaType}
    (h : (draftMedia scope pointer mediaType media).Yields P ty) (hn : media.schema = some node) :
    Drafted scope P node ty := by
  rw [draftMedia, hn] at h
  exact ⟨_, h⟩

theorem exists_drafted_of_draftParameter {p : Parameter} {b : Binding}
    (h : (draftParameter scope pointer p).Yields P b) (hn : p.schema = some node) :
    ∃ ty, Drafted scope P node ty := by
  unfold draftParameter at h
  rw [hn] at h
  obtain ⟨ty, ht, -⟩ := Draft.yields_bind.mp h
  exact ⟨ty, _, ht⟩

/-- The body of an operation is followed, and the media type that counts is drafted. -/
theorem draftBody_follows {o : Operation} {b : Option BodyBinding} {entry : RefOr RequestBody}
    (h : (draftBody scope c o pointer).Yields P b) (ho : o.body = some entry) :
    ∃ body place,
      entry.follow .body c.bodies (Pointer.child pointer "requestBody") = .ok (body, place) ∧
      ∀ mediaType media, bodyMedia? body.content = some (mediaType, media) →
        ∃ ty, (draftMedia scope place mediaType media).Yields P ty := by
  simp only [draftBody, ho, Draft.yields_bind, Draft.yields_ofExcept] at h
  obtain ⟨⟨body, place⟩, hf, h⟩ := h
  refine ⟨body, place, hf, fun mediaType media hm => ?_⟩
  rw [hm] at h
  obtain ⟨ty, ht, -⟩ := Draft.yields_bind.mp h
  exact ⟨ty, ht⟩

/-- Every response is followed, and the media type that counts is drafted. -/
theorem draftResponses_follows : ∀ {sources : List (String × RefOr Response)}
    {rs : List ResponseBinding}, (draftResponses scope c base sources).Yields P rs →
      ∀ source ∈ sources, ∃ response place,
        source.2.follow .response c.responses (Pointer.child base source.1) =
          .ok (response, place) ∧
        ∀ mediaType media, responseMedia? response.content = some (mediaType, media) →
          ∃ ty, (draftMedia scope place mediaType media).Yields P ty
  | [], _, _, _, hs => absurd hs List.not_mem_nil
  | (status, entry) :: rest, rs, h, source, hs => by
    simp only [draftResponses, Draft.yields_bind, Draft.yields_ofExcept] at h
    obtain ⟨⟨response, place⟩, hf, h⟩ := h
    obtain ⟨hmedia, more, hrest⟩ :
        (∀ mediaType media, responseMedia? response.content = some (mediaType, media) →
          ∃ ty, (draftMedia scope place mediaType media).Yields P ty) ∧
        ∃ more, (draftResponses scope c base rest).Yields P more := by
      split at h
      · next hnone =>
        simp only [Draft.yields_bind, Draft.yields_pure] at h
        obtain ⟨_, -, more, hrest, -⟩ := h
        refine ⟨fun mediaType media hm => ?_, more, hrest⟩
        rw [hm] at hnone
        cases hnone
      · next hm =>
        simp only [Draft.yields_bind, Draft.yields_pure] at h
        obtain ⟨ty, ht, _, -, more, hrest, -⟩ := h
        refine ⟨fun mediaType media hm' => ?_, more, hrest⟩
        rw [hm] at hm'
        cases hm'
        exact ⟨ty, ht⟩
    rcases List.mem_cons.mp hs with rfl | hs
    · exact ⟨response, place, hf, hmedia⟩
    · exact draftResponses_follows hrest source hs

/-- Every parameter of a list is followed and drafted. -/
theorem draftParameterList_follows {entries : List (RefOr Parameter)} {bs : List Binding}
    (h : (draftParameterList scope c base [] 0 entries).Yields P bs) {entry : RefOr Parameter}
    (he : entry ∈ entries) : ∃ p place found b,
      entry.follow .parameter c.parameters place = .ok (p, found) ∧
      (draftParameter scope found p).Yields P b := by
  obtain ⟨index, hi⟩ := List.mem_iff_getElem?.mp he
  have hmem : (entry, index) ∈ entries.zipIdx := List.mem_zipIdx_iff_getElem?.mpr hi
  obtain ⟨b, -, p, found, hf, hy⟩ := exists_of_forall₂_left (draftParameterList_yields h).1 hmem
  exact ⟨p, _, found, b, hf, hy⟩

end Operations

/-! ### Security schemes -/

namespace AuthConfiguration

/-- A security scheme is what its entry leads to, if clients can serve it. -/
theorem ofSchemes_cons_eq_ok {c : Components} {name : String} {entry : RefOr SecurityScheme}
    {rest : List (String × RefOr SecurityScheme)} {auth : AuthConfiguration} :
    ofSchemes c ((name, entry) :: rest) = .ok auth ↔ ∃ scheme,
      entry.Leads .scheme c.schemes scheme ∧ ∃ kind more,
        schemeKind? (Pool.scheme.pointer name) scheme = .ok kind ∧ ofSchemes c rest = .ok more ∧
          (kind.map (⟨name, ·, scheme.description⟩ : SchemeKind → SchemeDeclaration)).toList ++ more =
            auth := by
  simp only [ofSchemes, bind_eq_ok]
  constructor
  · rintro ⟨⟨scheme, found⟩, hf, kind, hkind, h⟩
    refine ⟨scheme, ⟨_, found, hf⟩, kind, ?_⟩
    cases kind with
    | none => exact ⟨auth, hkind, h, rfl⟩
    | some kind =>
      obtain ⟨more, hmore, h⟩ := bind_eq_ok.mp h
      exact ⟨more, hkind, hmore, Except.ok.inj h⟩
  · rintro ⟨scheme, hl, kind, more, hkind, hmore, rfl⟩
    obtain ⟨found, hf⟩ := hl.follow (Pool.scheme.pointer name)
    refine ⟨(scheme, found), hf, kind, hkind, ?_⟩
    cases kind with
    | none => exact hmore
    | some kind => exact bind_eq_ok.mpr ⟨more, hmore, rfl⟩

/-- Every security scheme is followed. -/
theorem exists_leads_of_ofSchemes {c : Components} :
    ∀ {entries : List (String × RefOr SecurityScheme)} {auth : AuthConfiguration},
      ofSchemes c entries = .ok auth → ∀ entry ∈ entries,
        ∃ scheme, entry.2.Leads .scheme c.schemes scheme
  | [], _, _, _, he => absurd he List.not_mem_nil
  | (name, entry) :: rest, auth, h, other, he => by
    obtain ⟨scheme, hl, kind, more, -, hrest, -⟩ := ofSchemes_cons_eq_ok.mp h
    rcases List.mem_cons.mp he with rfl | he
    · exact ⟨scheme, hl⟩
    · exact exists_leads_of_ofSchemes hrest other he

end AuthConfiguration

/-! ### Documents -/

namespace Declarations

namespace MadeOf

variable {d : Document} {options : CasedOptions} {l : Declarations} {p : Progress}
  {operations : List OperationDeclaration}

/-- A mention that has been followed has a type drafted for what it leads to. -/
theorem exists_drafted_of_find (h : l.MadeOf d options p operations) {m : Mention}
    (hm : (Scope.ofDocument d options).resolve pointer = .ok m) (hr : p.Referred m) {found : String}
    (hf : Pool.schema.find d.components.schemas pointer = .ok (found, node)) :
    ∃ ty, Drafted (Scope.ofDocument d options) p.Referred node ty := by
  obtain ⟨node', ty, hf', -, hy⟩ := h.exists_of_resolve hm hr
  rw [hf] at hf'
  obtain rfl := congrArg Prod.snd (Except.ok.inj hf')
  exact ⟨ty, _, hy⟩

variable (h : l.MadeOf d options p operations) (hall : options.onlyTypes = false)
include h hall

/-- Every operation of the document has been drafted. -/
theorem exists_draftedFrom {source : String × PathItem × Method × Operation}
    (hs : source ∈ operationsOf d.paths) :
    ∃ o : OperationDeclaration, o.DraftedFrom (Scope.ofDocument d options) d p.Referred source := by
  have hd := h.drafted
  rw [hall, if_neg Bool.false_ne_true] at hd
  obtain ⟨o, -, ho⟩ := exists_of_forall₂_left (draftOperations_yields hd) hs
  exact ⟨o, ho⟩

theorem exists_follow_parameter {entry : RefOr Parameter} (he : entry ∈ d.openedParameters) :
    ∃ a place found b, entry.follow .parameter d.components.parameters place = .ok (a, found) ∧
      (draftParameter (Scope.ofDocument d options) found a).Yields p.Referred b := by
  obtain ⟨⟨path, item, method, op⟩, hs, he⟩ := List.mem_flatMap.mp he
  obtain ⟨o, name, ho⟩ := h.exists_draftedFrom hall hs
  obtain ⟨shared, own, hshared, hown, -⟩ := draftParameters_yields (draftOperation_yields ho).1
  rcases List.mem_append.mp he with he | he
  · exact draftParameterList_follows hshared he
  · exact draftParameterList_follows hown he

theorem exists_follow_body {entry : RefOr RequestBody} (he : entry ∈ d.openedBodies) :
    ∃ body place found, entry.follow .body d.components.bodies place = .ok (body, found) ∧
      ∀ mediaType media, bodyMedia? body.content = some (mediaType, media) → ∃ ty,
        (draftMedia (Scope.ofDocument d options) found mediaType media).Yields p.Referred ty := by
  obtain ⟨⟨path, item, method, op⟩, hs, he⟩ := List.mem_filterMap.mp he
  obtain ⟨o, name, ho⟩ := h.exists_draftedFrom hall hs
  obtain ⟨body, found, hf, hmedia⟩ := draftBody_follows (draftOperation_yields ho).2.1 he
  exact ⟨body, _, found, hf, hmedia⟩

theorem exists_follow_response {entry : RefOr Response} (he : entry ∈ d.openedResponses) :
    ∃ response place found,
      entry.follow .response d.components.responses place = .ok (response, found) ∧
      ∀ mediaType media, responseMedia? response.content = some (mediaType, media) → ∃ ty,
        (draftMedia (Scope.ofDocument d options) found mediaType media).Yields p.Referred ty := by
  obtain ⟨⟨path, item, method, op⟩, hs, he⟩ := List.mem_flatMap.mp he
  obtain ⟨o, name, ho⟩ := h.exists_draftedFrom hall hs
  obtain ⟨source, hm, rfl⟩ := List.mem_map.mp he
  obtain ⟨response, found, hf, hmedia⟩ :=
    draftResponses_follows (draftOperation_yields ho).2.2 source hm
  exact ⟨response, _, found, hf, hmedia⟩

/-- **Everything opened has been drafted.** -/
theorem exists_drafted_of_opens (ho : d.Opens node) :
    ∃ ty, Drafted (Scope.ofDocument d options) p.Referred node ty := by
  induction ho with
  | component hn hf =>
    obtain ⟨type, hmem⟩ := Scope.exists_mem_names hn
    obtain ⟨m, hm, hr⟩ := h.covers _ hmem
    exact h.exists_drafted_of_find hm hr hf
  | target _ hr hf ih =>
    obtain ⟨ty, hd⟩ := ih
    obtain ⟨m, hm, hp⟩ := hd.exists_resolve hr
    exact h.exists_drafted_of_find hm hp hf
  | part _ hn ih =>
    obtain ⟨ty, place, hd⟩ := ih
    rw [draftNode_schema, Draft.yields_map] at hd
    obtain ⟨inner, hi, -⟩ := hd
    exact exists_drafted_of_mem_shapeParts hi hn
  | parameter he hl hn =>
    obtain ⟨a, place, found, b, hf, hy⟩ := h.exists_follow_parameter hall he
    obtain rfl := hl.eq_of_follow hf
    exact exists_drafted_of_draftParameter hy hn
  | body he hl hm hn =>
    obtain ⟨a, place, found, hf, hmedia⟩ := h.exists_follow_body hall he
    obtain rfl := hl.eq_of_follow hf
    obtain ⟨ty, ht⟩ := hmedia _ _ hm
    exact ⟨ty, drafted_of_draftMedia ht hn⟩
  | response he hl hm hn =>
    obtain ⟨a, place, found, hf, hmedia⟩ := h.exists_follow_response hall he
    obtain rfl := hl.eq_of_follow hf
    obtain ⟨ty, ht⟩ := hmedia _ _ hm
    exact ⟨ty, drafted_of_draftMedia ht hn⟩

/-- A reference that is followed to a schema, a parameter, a body or a response is resolved. -/
theorem resolves_of_ne_scheme {pool : Pool} (hf : d.Follows pool pointer) (hp : pool ≠ .scheme) :
    d.Resolves pointer pool := by
  cases hf with
  | schema hs hr =>
    obtain ⟨ty, hd⟩ := h.exists_drafted_of_opens hall hs
    obtain ⟨m, hm, -⟩ := hd.exists_resolve hr
    obtain ⟨node, hfind, -⟩ := Scope.find_of_resolve hm
    exact ⟨_, hfind⟩
  | parameter he =>
    obtain ⟨a, place, found, b, hf, -⟩ := h.exists_follow_parameter hall he
    obtain ⟨-, name, hfind⟩ := RefOr.follow_reference.mp hf
    exact ⟨_, hfind⟩
  | body he =>
    obtain ⟨a, place, found, hf, -⟩ := h.exists_follow_body hall he
    obtain ⟨-, name, hfind⟩ := RefOr.follow_reference.mp hf
    exact ⟨_, hfind⟩
  | response he =>
    obtain ⟨a, place, found, hf, -⟩ := h.exists_follow_response hall he
    obtain ⟨-, name, hfind⟩ := RefOr.follow_reference.mp hf
    exact ⟨_, hfind⟩
  | scheme _ => exact absurd rfl hp

end MadeOf

end Declarations

/-- **References that are followed are resolved**, each in the pool where it has to be. -/
theorem resolves_of_follows {d : Document} {l : Declarations} (hl : d.compile .default = .ok l)
    {pool : Pool} {pointer : String} (hf : d.Follows pool pointer) : d.Resolves pointer pool := by
  by_cases hp : pool = .scheme
  · subst hp
    cases hf with
    | scheme he =>
      have ha := Declarations.ofDocument_of_compile hl rfl
      obtain ⟨⟨name, _⟩, hm, rfl⟩ := List.mem_map.mp he
      obtain ⟨scheme, hl⟩ := AuthConfiguration.exists_leads_of_ofSchemes ha _ hm
      obtain ⟨other, hfind⟩ := RefOr.leads_reference.mp hl
      exact ⟨_, hfind⟩
  · obtain ⟨p, operations, hm⟩ := Declarations.exists_of_compile_eq_ok hl
    exact hm.resolves_of_ne_scheme rfl hf hp

/-! ### A document with references that are not followed -/

/-- A reference to a schema. -/
def referenceNode (pointer : String) : Node :=
  .schema ⟨{ Facets.empty with reference := some pointer }, ⟨[], none, none, none, none, none⟩⟩

/-- A fixed text, of which a keyword for arrays says nothing. -/
def markNode : Node := .schema ⟨{ Facets.empty with constant := some (.string "a") },
  ⟨[], some (referenceNode "#/components/schemas/Gone"), none, none, none, none⟩⟩

/-- One operation that responds with a mark, and components that it does not refer to. -/
def looseDocument : Document where
  format := some "3.0.0"
  info := ⟨"Marks", "1", none⟩
  servers := []
  paths := [("/", ⟨[(.get, ⟨some "mark", none, none, false, [], [], none,
    [("200", .reference "#/components/responses/Mark")], none⟩)], []⟩)]
  components := ⟨[("Mark", markNode)], [("Page", .reference "#/components/parameters/Gone")],
    [("Mark", .inline ⟨none, [("application/json",
      ⟨some (referenceNode "#/components/schemas/Mark")⟩)]⟩),
      ("Other", .reference "#/components/responses/Gone")],
    [("Entry", .reference "#/components/requestBodies/Gone")], []⟩
  security := none

/-- The declarations of the document. -/
def looseDeclarations : Declarations where
  title := "Marks"
  version := "1"
  types := [⟨⟨"Mark", "Mark", .literal (.string "a"), none, false⟩, false⟩]
  operations := [⟨"mark", .get, "/", [], none, [⟨"200", some ⟨"application/json", .json,
    .reference "Mark", ⟨[], []⟩⟩⟩], [], none, none, false⟩]
  auth := []
  context := ⟨none, []⟩
  table := ⟨none, none⟩

set_option maxRecDepth 10000 in
theorem compile_looseDocument : looseDocument.compile .default = .ok looseDeclarations := by
  cbv

/-- The response is found, and through it the schema. -/
theorem resolves_of_follows_loose :
    looseDocument.compile .default = .ok looseDeclarations ∧
      looseDocument.Follows .response "#/components/responses/Mark" ∧
      looseDocument.Resolves "#/components/responses/Mark" .response ∧
      looseDocument.Follows .schema "#/components/schemas/Mark" ∧
      looseDocument.Resolves "#/components/schemas/Mark" .schema :=
  have hresponse : looseDocument.Follows .response "#/components/responses/Mark" :=
    .response (List.mem_singleton.mpr rfl)
  have hschema : looseDocument.Follows .schema "#/components/schemas/Mark" :=
    .schema (.response (List.mem_singleton.mpr rfl)
      (RefOr.leads_reference.mpr ⟨"Mark", by rfl⟩) rfl rfl) rfl
  ⟨compile_looseDocument, hresponse, resolves_of_follows compile_looseDocument hresponse, hschema,
    resolves_of_follows compile_looseDocument hschema⟩

/-- References that are not followed lead nowhere, and the document compiles. -/
theorem not_resolves_of_cites_loose :
    looseDocument.compile .default = .ok looseDeclarations ∧
      (looseDocument.Cites .schema "#/components/schemas/Gone" ∧
        ¬ looseDocument.Resolves "#/components/schemas/Gone" .schema) ∧
      (looseDocument.Cites .parameter "#/components/parameters/Gone" ∧
        ¬ looseDocument.Resolves "#/components/parameters/Gone" .parameter) ∧
      (looseDocument.Cites .body "#/components/requestBodies/Gone" ∧
        ¬ looseDocument.Resolves "#/components/requestBodies/Gone" .body) ∧
      looseDocument.Cites .response "#/components/responses/Gone" ∧
        ¬ looseDocument.Resolves "#/components/responses/Gone" .response := by
  have hmark : looseDocument.Contains markNode := .component (List.mem_singleton.mpr rfl)
  refine ⟨compile_looseDocument, ⟨.schema (.part hmark (.items rfl)) rfl, ?_⟩,
    ⟨.parameter (List.mem_singleton.mpr rfl), ?_⟩, ⟨.body (List.mem_singleton.mpr rfl), ?_⟩,
    .response (List.mem_cons_of_mem _ List.mem_cons_self), ?_⟩
  all_goals
    rintro ⟨found, hf⟩
    cases hf

end ApiDecl
