import ApiDecl.Operation.OfDocument
import ApiDecl.Proofs.Description.Component
import ApiDecl.Proofs.Description.Parts
import ApiDecl.Proofs.Types.Inclusion
import Mathlib.Data.Option.Basic

/-!
# Positions of schemas and references

A definition or a reference to one may stand among the components, at a path or at an operation, and
a schema at each of these and inside another schema.  `Document.Contains` lists the schemas of a
document, wherever they stand, and `Document.Cites` its references, each with the pool that it has
to lead to.

A compilation opens a part of these: of a schema the parts that make its shape
(`SchemaOf.shapeParts`), of a body or a response the media type that counts, and of the components
the schemas, the security schemes, and what is referred to from an operation or from a schema that
is open itself.  `Document.Opens` lists the schemas opened and `Document.Follows` the references;
both are found among the positions of the document (`Opens.contains`, `Follows.cites`).
-/

namespace ApiDecl

/-! ### Definitions that references lead to -/

section Leads

variable {α : Type} {pool : Pool} {definitions : List (String × RefOr α)} {entry : RefOr α} {a b : α}

/-- The entry is the definition, or a reference to it. -/
def RefOr.Leads (pool : Pool) (definitions : List (String × RefOr α)) (entry : RefOr α) (a : α) :
    Prop :=
  ∃ place found, entry.follow pool definitions place = .ok (a, found)

theorem RefOr.leads_inline : (RefOr.inline b).Leads pool definitions a ↔ b = a := by
  constructor
  · rintro ⟨place, found, h⟩
    exact congrArg Prod.fst (Except.ok.inj h)
  · rintro rfl
    exact ⟨"", "", rfl⟩

theorem RefOr.follow_reference {pointer place found : String} :
    (RefOr.reference pointer).follow pool definitions place = .ok (a, found) ↔
      found = pointer ∧ ∃ name, pool.find definitions pointer = .ok (name, .inline a) := by
  rw [follow, bind_eq_ok]
  constructor
  · rintro ⟨⟨name, definition⟩, hf, h⟩
    cases definition with
    | inline definition =>
      obtain ⟨rfl, rfl⟩ := Prod.mk.inj (Except.ok.inj h)
      exact ⟨rfl, name, hf⟩
    | reference other => cases h
  · rintro ⟨rfl, name, hf⟩
    exact ⟨_, hf, rfl⟩

theorem RefOr.leads_reference {pointer : String} :
    (RefOr.reference pointer).Leads pool definitions a ↔
      ∃ name, pool.find definitions pointer = .ok (name, .inline a) := by
  constructor
  · rintro ⟨place, found, h⟩
    exact (follow_reference.mp h).2
  · exact fun h => ⟨"", pointer, follow_reference.mpr ⟨rfl, h⟩⟩

/-- Where a reference stands does not matter for what it leads to. -/
theorem RefOr.Leads.follow (h : entry.Leads pool definitions a) (place : String) :
    ∃ found, entry.follow pool definitions place = .ok (a, found) := by
  cases entry with
  | inline definition =>
    obtain rfl := leads_inline.mp h
    exact ⟨place, rfl⟩
  | reference pointer => exact ⟨pointer, follow_reference.mpr ⟨rfl, leads_reference.mp h⟩⟩

/-- An entry leads to one definition only. -/
theorem RefOr.Leads.eq_of_follow (h : entry.Leads pool definitions a) {place found : String}
    (hf : entry.follow pool definitions place = .ok (b, found)) : b = a := by
  obtain ⟨found', hf'⟩ := h.follow place
  rw [hf] at hf'
  exact congrArg Prod.fst (Except.ok.inj hf')

/-- A definition that an entry leads to is the entry itself or stands in the pool. -/
theorem RefOr.Leads.mem (h : entry.Leads pool definitions a) :
    RefOr.inline a = entry ∨ RefOr.inline a ∈ definitions.map Prod.snd := by
  cases entry with
  | inline definition => exact Or.inl (congrArg RefOr.inline (leads_inline.mp h).symm)
  | reference pointer =>
    obtain ⟨name, hf⟩ := leads_reference.mp h
    exact Or.inr (List.mem_map_of_mem (Member.mem_of_lookup (Pool.lookup_of_find hf)))

end Leads

/-! ### All positions -/

namespace Document

/-- The parameters of a document: components, and those of paths and operations. -/
def parameters (d : Document) : List (RefOr Parameter) :=
  d.components.parameters.map Prod.snd ++ d.paths.flatMap fun (_, item) =>
    item.parameters ++ item.operations.flatMap fun (_, o) => o.parameters

/-- The request bodies of a document. -/
def bodies (d : Document) : List (RefOr RequestBody) :=
  d.components.bodies.map Prod.snd ++ d.paths.flatMap fun (_, item) =>
    item.operations.filterMap fun (_, o) => o.body

/-- The responses of a document. -/
def responses (d : Document) : List (RefOr Response) :=
  d.components.responses.map Prod.snd ++ d.paths.flatMap fun (_, item) =>
    item.operations.flatMap fun (_, o) => o.responses.map Prod.snd

/-- The security schemes of a document. -/
def schemes (d : Document) : List (RefOr SecurityScheme) := d.components.schemes.map Prod.snd

/-- The node stands in the document where a schema is expected. -/
inductive Contains (d : Document) : Node → Prop
  | component {name : String} {node : Node} : (name, node) ∈ d.components.schemas → Contains d node
  | parameter {p : Parameter} {node : Node} :
      .inline p ∈ d.parameters → p.schema = some node → Contains d node
  | body {body : RequestBody} {mediaType : String} {media : MediaType} {node : Node} :
      .inline body ∈ d.bodies → (mediaType, media) ∈ body.content → media.schema = some node →
        Contains d node
  | response {response : Response} {mediaType : String} {media : MediaType} {node : Node} :
      .inline response ∈ d.responses → (mediaType, media) ∈ response.content →
        media.schema = some node → Contains d node
  | part {s : Schema} {node : Node} : Contains d (.schema s) → node.PartOf s → Contains d node

/-- The properties of any one schema have distinct names, as members of a map do. -/
def Keyed (d : Document) : Prop :=
  ∀ s, d.Contains (.schema s) → (s.parts.properties.map Prod.fst).Nodup

/-- The pointer is that of a reference of the document, which has to lead to the pool. -/
inductive Cites (d : Document) : Pool → String → Prop
  | schema {s : Schema} {pointer : String} :
      d.Contains (.schema s) → s.facets.reference = some pointer → Cites d .schema pointer
  | parameter {pointer : String} : .reference pointer ∈ d.parameters → Cites d .parameter pointer
  | body {pointer : String} : .reference pointer ∈ d.bodies → Cites d .body pointer
  | response {pointer : String} : .reference pointer ∈ d.responses → Cites d .response pointer
  | scheme {pointer : String} : .reference pointer ∈ d.schemes → Cites d .scheme pointer

/-- The pointer leads to a component of the pool. -/
def Resolves (d : Document) (pointer : String) : Pool → Prop
  | .schema => ∃ found, Pool.schema.find d.components.schemas pointer = .ok found
  | .parameter => ∃ found, Pool.parameter.find d.components.parameters pointer = .ok found
  | .body => ∃ found, Pool.body.find d.components.bodies pointer = .ok found
  | .response => ∃ found, Pool.response.find d.components.responses pointer = .ok found
  | .scheme => ∃ found, Pool.scheme.find d.components.schemes pointer = .ok found

end Document

/-! ### Positions that a compilation opens -/

namespace SchemaOf

/-- The schemas of members; `false` stands for none. -/
def memberParts (s : Schema) : List Node :=
  s.parts.properties.map Prod.snd ++
    match s.parts.additional with
    | none | some (.other (.bool false)) => []
    | some node => [node]

/-- The schemas that count by the keyword `type`, or by the keywords for objects and arrays. -/
def typeParts (s : Schema) : List Node :=
  match s.facets.types with
  | some _ =>
    (if "object" ∈ s.facets.declaredTypes then s.memberParts else []) ++
      if "array" ∈ s.facets.declaredTypes then s.parts.items.toList else []
  | none =>
    if !s.parts.properties.isEmpty || s.parts.additional.isSome then s.memberParts
    else s.parts.items.toList

/-- The parts that make the shape of a schema: those of the keyword that decides it. -/
def shapeParts (s : Schema) : List Node :=
  match s.facets.reference, s.facets.constant with
  | some _, _ | none, some _ => []
  | none, none =>
    match s.parts.allOf, s.parts.oneOf, s.parts.anyOf, s.facets.values with
    | some nodes, _, _, _ =>
      nodes.filter Node.isSubstantial ++ if s.parts.properties.isEmpty then [] else s.memberParts
    | none, some nodes, _, _ | none, none, some nodes, _ => nodes
    | none, none, none, some _ => []
    | none, none, none, none => s.typeParts

theorem partOf_of_mem_memberParts {s : Schema} {node : Node} (h : node ∈ s.memberParts) :
    node.PartOf s := by
  rcases List.mem_append.mp h with h | h
  · obtain ⟨⟨name, node⟩, hm, rfl⟩ := List.mem_map.mp h
    exact .property hm
  · split at h
    · cases h
    · cases h
    · next hn =>
      rw [List.mem_singleton.mp h]
      exact .additional hn

theorem partOf_of_mem_items {s : Schema} {node : Node} (h : node ∈ s.parts.items.toList) :
    node.PartOf s :=
  .items (Option.mem_toList.mp h)

theorem partOf_of_mem_typeParts {s : Schema} {node : Node} (h : node ∈ s.typeParts) :
    node.PartOf s := by
  unfold typeParts at h
  split at h
  · rcases List.mem_append.mp h with h | h
    · split_ifs at h
      · exact partOf_of_mem_memberParts h
      · cases h
    · split_ifs at h
      · exact partOf_of_mem_items h
      · cases h
  · split_ifs at h
    · exact partOf_of_mem_memberParts h
    · exact partOf_of_mem_items h

/-- What makes the shape of a schema is a part of it. -/
theorem partOf_of_mem_shapeParts {s : Schema} {node : Node} (h : node ∈ s.shapeParts) :
    node.PartOf s := by
  unfold shapeParts at h
  split at h
  · cases h
  · cases h
  · split at h
    · next hall =>
      rcases List.mem_append.mp h with h | h
      · exact .allOf hall (List.mem_filter.mp h).1
      · split_ifs at h
        · cases h
        · exact partOf_of_mem_memberParts h
    · next hone => exact .oneOf hone h
    · next hany => exact .anyOf hany h
    · cases h
    · exact partOf_of_mem_typeParts h

end SchemaOf

namespace Document

/-- The parameters that an operation opens, its own and those of its path. -/
def openedParameters (d : Document) : List (RefOr Parameter) :=
  (operationsOf d.paths).flatMap fun (_, item, _, o) => item.parameters ++ o.parameters

/-- The bodies that an operation opens. -/
def openedBodies (d : Document) : List (RefOr RequestBody) :=
  (operationsOf d.paths).filterMap fun (_, _, _, o) => o.body

/-- The responses that an operation opens. -/
def openedResponses (d : Document) : List (RefOr Response) :=
  (operationsOf d.paths).flatMap fun (_, _, _, o) => o.responses.map Prod.snd

/-- The compilation of the document opens the node. -/
inductive Opens (d : Document) : Node → Prop
  /-- The schema that the pointer of a component leads to. -/
  | component {name found : String} {node : Node} : name ∈ d.components.schemas.map Prod.fst →
      Pool.schema.find d.components.schemas (Pool.schema.pointer name) = .ok (found, node) →
        Opens d node
  | target {s : Schema} {pointer found : String} {node : Node} :
      Opens d (.schema s) → s.facets.reference = some pointer →
      Pool.schema.find d.components.schemas pointer = .ok (found, node) → Opens d node
  | part {s : Schema} {node : Node} : Opens d (.schema s) → node ∈ s.shapeParts → Opens d node
  | parameter {entry : RefOr Parameter} {p : Parameter} {node : Node} :
      entry ∈ d.openedParameters → entry.Leads .parameter d.components.parameters p →
      p.schema = some node → Opens d node
  | body {entry : RefOr RequestBody} {body : RequestBody} {mediaType : String} {media : MediaType}
      {node : Node} : entry ∈ d.openedBodies → entry.Leads .body d.components.bodies body →
      bodyMedia? body.content = some (mediaType, media) → media.schema = some node → Opens d node
  | response {entry : RefOr Response} {response : Response} {mediaType : String} {media : MediaType}
      {node : Node} : entry ∈ d.openedResponses →
      entry.Leads .response d.components.responses response →
      responseMedia? response.content = some (mediaType, media) → media.schema = some node →
        Opens d node

/-- The compilation of the document follows the reference. -/
inductive Follows (d : Document) : Pool → String → Prop
  | schema {s : Schema} {pointer : String} :
      d.Opens (.schema s) → s.facets.reference = some pointer → Follows d .schema pointer
  | parameter {pointer : String} :
      .reference pointer ∈ d.openedParameters → Follows d .parameter pointer
  | body {pointer : String} : .reference pointer ∈ d.openedBodies → Follows d .body pointer
  | response {pointer : String} :
      .reference pointer ∈ d.openedResponses → Follows d .response pointer
  | scheme {pointer : String} : .reference pointer ∈ d.schemes → Follows d .scheme pointer

variable {d : Document}

theorem mem_operationsOf {paths : List (String × PathItem)} {path : String} {item : PathItem}
    {method : Method} {o : Operation} : (path, item, method, o) ∈ operationsOf paths ↔
      (path, item) ∈ paths ∧ (method, o) ∈ item.operations := by
  simp only [operationsOf, List.mem_flatMap, List.mem_map, Prod.exists, Prod.mk.injEq]
  constructor
  · rintro ⟨path', item', hp, method', o', ho, rfl, rfl, rfl, rfl⟩
    exact ⟨hp, ho⟩
  · rintro ⟨hp, ho⟩
    exact ⟨path, item, hp, method, o, ho, rfl, rfl, rfl, rfl⟩

theorem mem_parameters_of_opened {entry : RefOr Parameter} (h : entry ∈ d.openedParameters) :
    entry ∈ d.parameters := by
  obtain ⟨⟨path, item, method, o⟩, hs, h⟩ := List.mem_flatMap.mp h
  obtain ⟨hp, ho⟩ := mem_operationsOf.mp hs
  refine List.mem_append_right _ (List.mem_flatMap.mpr ⟨_, hp, ?_⟩)
  exact List.mem_append.mpr ((List.mem_append.mp h).imp_right fun h =>
    List.mem_flatMap.mpr ⟨_, ho, h⟩)

theorem mem_bodies_of_opened {entry : RefOr RequestBody} (h : entry ∈ d.openedBodies) :
    entry ∈ d.bodies := by
  obtain ⟨⟨path, item, method, o⟩, hs, h⟩ := List.mem_filterMap.mp h
  obtain ⟨hp, ho⟩ := mem_operationsOf.mp hs
  exact List.mem_append_right _ (List.mem_flatMap.mpr ⟨_, hp, List.mem_filterMap.mpr ⟨_, ho, h⟩⟩)

theorem mem_responses_of_opened {entry : RefOr Response} (h : entry ∈ d.openedResponses) :
    entry ∈ d.responses := by
  obtain ⟨⟨path, item, method, o⟩, hs, h⟩ := List.mem_flatMap.mp h
  obtain ⟨hp, ho⟩ := mem_operationsOf.mp hs
  exact List.mem_append_right _ (List.mem_flatMap.mpr ⟨_, hp, List.mem_flatMap.mpr ⟨_, ho, h⟩⟩)

theorem mem_of_bodyMedia? {content : List (String × MediaType)} {media : String × MediaType}
    (h : bodyMedia? content = some media) : media ∈ content := by
  simp only [bodyMedia?, Option.orElse_eq_some] at h
  rcases h with h | ⟨-, h | ⟨-, h | ⟨-, h⟩⟩⟩
  · exact List.mem_of_find?_eq_some h
  · exact List.mem_of_find?_eq_some h
  · exact List.mem_of_find?_eq_some h
  · exact List.mem_of_head? h

theorem mem_of_responseMedia? {content : List (String × MediaType)} {media : String × MediaType}
    (h : responseMedia? content = some media) : media ∈ content := by
  simp only [responseMedia?, Option.orElse_eq_some] at h
  rcases h with h | ⟨-, h⟩
  · exact List.mem_of_find?_eq_some h
  · exact List.mem_of_head? h

/-- **A schema that is opened** stands in the document. -/
theorem Opens.contains {node : Node} (h : d.Opens node) : d.Contains node := by
  induction h with
  | component _ hf => exact .component (Member.mem_of_lookup (Pool.lookup_of_find hf))
  | target _ _ hf _ => exact .component (Member.mem_of_lookup (Pool.lookup_of_find hf))
  | part _ hn ih => exact .part ih (SchemaOf.partOf_of_mem_shapeParts hn)
  | parameter he hl hn =>
    refine .parameter ?_ hn
    rcases hl.mem with rfl | hm
    · exact mem_parameters_of_opened he
    · exact List.mem_append_left _ hm
  | body he hl hm hn =>
    refine .body ?_ (mem_of_bodyMedia? hm) hn
    rcases hl.mem with rfl | hm
    · exact mem_bodies_of_opened he
    · exact List.mem_append_left _ hm
  | response he hl hm hn =>
    refine .response ?_ (mem_of_responseMedia? hm) hn
    rcases hl.mem with rfl | hm
    · exact mem_responses_of_opened he
    · exact List.mem_append_left _ hm

/-- **A reference that is followed** stands in the document. -/
theorem Follows.cites {pool : Pool} {pointer : String} (h : d.Follows pool pointer) :
    d.Cites pool pointer := by
  cases h with
  | schema hs hr => exact .schema hs.contains hr
  | parameter h => exact .parameter (mem_parameters_of_opened h)
  | body h => exact .body (mem_bodies_of_opened h)
  | response h => exact .response (mem_responses_of_opened h)
  | scheme h => exact .scheme h

end Document

end ApiDecl
