import ApiDecl.Proofs.Declarations
import ApiDecl.Proofs.Types.Inclusion

/-!
# The schemas of a document

`Declarations.Compiles` lists the schemas that the compilation of a document meets, each with the
type made of it: the components, the parameters of paths and operations, the bodies and the
responses.  Whatever is valid for such a schema, its type admits (`admits_of_compiles`).
-/

namespace ApiDecl

namespace Declarations

/-- A list of parameters holds the parameter, itself or by a reference. -/
def Holds (c : Components) (entries : List (RefOr Parameter)) (p : Parameter) : Prop :=
  ∃ entry ∈ entries, ∃ place found, entry.follow .parameter c.parameters place = .ok (p, found)

/-- The parameter counts for an operation: it is one of its own, or one of its path that none of its
own overrides. -/
def Counts (c : Components) (item : PathItem) (op : Operation) (p : Parameter) : Prop :=
  Holds c op.parameters p ∨ Holds c item.parameters p ∧
    ∀ own, Holds c op.parameters own → (own.location, own.name) ≠ (p.location, p.name)

/-- The compilation of the document that came to these declarations made the type of the schema. -/
inductive Compiles (l : Declarations) (d : Document) (options : CasedOptions) : Node → Ty → Prop
  | component {t : TypeDeclaration} {node : Node} : t ∈ l.types →
      Member.lookup t.named.wireName d.components.schemas = some node →
        Compiles l d options node t.named.ty
  | parameter {path : String} {item : PathItem} {method : Method} {op : Operation} {i : Nat}
      {o : OperationDeclaration} {p : Parameter} {b : Binding} {node : Node} :
      (operationsOf d.paths)[i]? = some (path, item, method, op) → l.operations[i]? = some o →
      Counts d.components item op p → p.schema = some node → b ∈ o.parameters →
      b.slot = (p.location, p.name) → Compiles l d options node b.ty
  /-- A parameter at its place, which may be one that the operation overrides. -/
  | entry {path base place : String} {item : PathItem} {method : Method} {op : Operation}
      {entries : List (RefOr Parameter)} {i : Nat} {entry : RefOr Parameter} {p : Parameter}
      {node : Node} {ty : Ty} : options.onlyTypes = false →
      (path, item, method, op) ∈ operationsOf d.paths →
      (base, entries) =
          (Pointer.child (Pointer.child "#/paths" path) "parameters", item.parameters) ∨
        (base, entries) = (Pointer.child (Pointer.child (Pointer.child "#/paths" path) method.key)
          "parameters", op.parameters) →
      entries[i]? = some entry →
      entry.follow .parameter d.components.parameters (Pointer.child base (toString i)) =
        .ok (p, place) →
      p.schema = some node →
      (draftNode (Scope.ofDocument d options) (Pointer.child place "schema") node).result = .ok ty →
        Compiles l d options node ty
  | body {path place place' mediaType : String} {item : PathItem} {method : Method} {op : Operation}
      {o : OperationDeclaration} {i : Nat} {entry : RefOr RequestBody} {body : RequestBody}
      {media : MediaType} {node : Node} {b : BodyBinding} :
      (operationsOf d.paths)[i]? = some (path, item, method, op) → l.operations[i]? = some o →
      op.body = some entry → entry.follow .body d.components.bodies place = .ok (body, place') →
      bodyMedia? body.content = some (mediaType, media) → media.schema = some node →
      o.body = some b → Compiles l d options node b.ty
  | response {path place place' status mediaType : String} {item : PathItem} {method : Method}
      {op : Operation} {o : OperationDeclaration} {i j : Nat} {entry : RefOr Response}
      {response : Response} {media : MediaType} {node : Node} {r : ResponseBinding}
      {content : ResponseContent} :
      (operationsOf d.paths)[i]? = some (path, item, method, op) → l.operations[i]? = some o →
      op.responses[j]? = some (status, entry) → o.responses[j]? = some r →
      entry.follow .response d.components.responses place = .ok (response, place') →
      responseMedia? response.content = some (mediaType, media) → media.schema = some node →
      r.content = some content → Compiles l d options node content.ty

variable {d : Document} {options : CasedOptions} {l : Declarations} {p : Progress}
  {operations : List OperationDeclaration} {node : Node} {ty : Ty}

theorem MadeOf.declares (h : l.MadeOf d options p operations) :
    (Scope.ofDocument d options).Declares p.Referred l.declared := fun _ _ hm hr => by
  obtain ⟨node, ty, hf, ht, hy⟩ := h.exists_of_resolve hm hr
  exact ⟨node, ty, hf, ht, _, hy⟩

end Declarations

/-- A definition that a reference leads to does not depend on the place of the reference. -/
theorem RefOr.definition_unique {α : Type} {pool : Pool} {definitions : List (String × RefOr α)}
    {entry : RefOr α} {place place' found found' : String} {a b : α}
    (h : entry.follow pool definitions place = .ok (a, found))
    (h' : entry.follow pool definitions place' = .ok (b, found')) : a = b := by
  cases entry with
  | inline definition =>
    cases h
    cases h'
    rfl
  | reference pointer => exact congrArg Prod.fst (Except.ok.inj (h.symm.trans h'))

theorem draftMedia_drafted {scope : Scope} {P : Mention → Prop} {pointer mediaType : String}
    {media : MediaType} {node : Node} {ty : Ty} (hn : media.schema = some node)
    (h : (draftMedia scope pointer mediaType media).Yields P ty) : Drafted scope P node ty := by
  unfold draftMedia at h
  rw [hn] at h
  exact ⟨_, h⟩

/-- The type of a parameter is made of its schema. -/
theorem draftParameter_drafted {scope : Scope} {P : Mention → Prop} {pointer : String}
    {parameter : Parameter} {b : Binding} {node : Node} (hn : parameter.schema = some node)
    (h : (draftParameter scope pointer parameter).Yields P b) :
    (draftNode scope (Pointer.child pointer "schema") node).Yields P b.ty := by
  unfold draftParameter at h
  rw [hn] at h
  obtain ⟨ty, ht, h⟩ := Draft.yields_bind.mp h
  obtain rfl := Draft.yields_pure.mp h
  exact ht

section Parameters

variable {P : Mention → Prop} {scope : Scope} {c : Components} {base : String}
  {entries : List (RefOr Parameter)} {bs : List Binding} {b : Binding} {p : Parameter}

/-- A parameter that a list holds has been drafted. -/
theorem exists_drafted_of_holds (h : (draftParameterList scope c base [] 0 entries).Yields P bs)
    (hp : Declarations.Holds c entries p) :
    ∃ b ∈ bs, ∃ place, (draftParameter scope place p).Yields P b := by
  obtain ⟨entry, he, place, found, hf⟩ := hp
  obtain ⟨i, hi⟩ := List.getElem?_of_mem he
  have hat : (entry, i) ∈ entries.zipIdx := List.mem_zipIdx_iff_getElem?.mpr hi
  obtain ⟨b, hb, p', place', hf', hy⟩ := exists_of_forall₂_left (draftParameterList_yields h).1 hat
  obtain rfl := RefOr.definition_unique hf' hf
  exact ⟨b, hb, place', hy⟩

/-- The binding that has the slot of a parameter has a type made of its schema. -/
theorem draftParameterList_drafted {node : Node}
    (h : (draftParameterList scope c base [] 0 entries).Yields P bs)
    (hp : Declarations.Holds c entries p)
    (hn : p.schema = some node) (hb : b ∈ bs) (hslot : b.slot = (p.location, p.name)) :
    Drafted scope P node b.ty := by
  obtain ⟨b', hb', place, hy⟩ := exists_drafted_of_holds h hp
  have heq : b' = b := List.inj_on_of_nodup_map (draftParameterList_yields h).2.1 hb' hb
    ((draftParameter_slot hy).trans hslot.symm)
  exact ⟨_, heq ▸ draftParameter_drafted hn hy⟩

/-- A binding comes from a parameter that its list holds. -/
theorem exists_of_mem_bindings (h : (draftParameterList scope c base [] 0 entries).Yields P bs)
    (hb : b ∈ bs) : ∃ p, Declarations.Holds c entries p ∧ b.slot = (p.location, p.name) := by
  obtain ⟨⟨entry, i⟩, hat, p, place, hf, hy⟩ :=
    exists_of_forall₂_right (draftParameterList_yields h).1 hb
  exact ⟨p, ⟨entry, List.fst_mem_of_mem_zipIdx hat, _, place, hf⟩, draftParameter_slot hy⟩

/-- A list that holds a parameter has a binding for its slot. -/
theorem slot_mem_of_holds (h : (draftParameterList scope c base [] 0 entries).Yields P bs)
    (hp : Declarations.Holds c entries p) : (p.location, p.name) ∈ bs.map Binding.slot := by
  obtain ⟨b, hb, place, hy⟩ := exists_drafted_of_holds h hp
  exact List.mem_map.mpr ⟨b, hb, draftParameter_slot hy⟩

/-- The binding that has the slot of a parameter that counts has a type made of its schema: a
parameter of the path whose slot is free has not been overridden, and one of the operation cannot
have been. -/
theorem draftParameters_drafted {item : PathItem} {op : Operation} {pathPointer pointer : String}
    {node : Node} (h : (draftParameters scope c item op pathPointer pointer).Yields P bs)
    (hc : Declarations.Counts c item op p) (hn : p.schema = some node) (hb : b ∈ bs)
    (hslot : b.slot = (p.location, p.name)) : Drafted scope P node b.ty := by
  obtain ⟨shared, own, hshared, hown, rfl⟩ := draftParameters_yields h
  obtain ⟨b', hb', hnamed⟩ := exists_of_mem_nameBindings hb
  obtain ⟨hty, hslot'⟩ : b.ty = b'.ty ∧ b.slot = b'.slot := by
    rw [hnamed]
    exact ⟨rfl, rfl⟩
  rw [hslot'] at hslot
  rw [hty]
  rw [mem_overrideBindings (draftParameterList_yields hown).2.1] at hb'
  rcases hc with hp | ⟨hp, hnot⟩ <;> rcases hb' with hb' | ⟨hb', hfree⟩
  · exact draftParameterList_drafted hown hp hn hb' hslot
  · exact absurd (slot_mem_of_holds hown hp) (hslot ▸ hfree)
  · obtain ⟨q, hq, he⟩ := exists_of_mem_bindings hown hb'
    exact absurd (he.symm.trans hslot) (hnot q hq)
  · exact draftParameterList_drafted hshared hp hn hb' hslot

end Parameters

namespace Declarations

variable {d : Document} {options : CasedOptions} {l : Declarations} {p : Progress}
  {operations : List OperationDeclaration} {node : Node} {ty : Ty}

theorem MadeOf.drafted_of_getElem? (h : l.MadeOf d options p operations) {i : Nat}
    {source : String × PathItem × Method × Operation} {o : OperationDeclaration}
    (hs : (operationsOf d.paths)[i]? = some source) (ho : l.operations[i]? = some o) :
    ∃ own : OperationDeclaration, own.DraftedFrom (Scope.ofDocument d options) d p.Referred source ∧
      o = own.prune p.table.prune.2 := by
  rw [h.operations, List.getElem?_map] at ho
  obtain ⟨own, hown, rfl⟩ := Option.map_eq_some_iff.mp ho
  have hd := h.drafted
  split_ifs at hd
  · rw [hd] at hown
    cases hown
  · exact ⟨own, forall₂_getElem? (draftOperations_yields hd) hs hown, rfl⟩

/-- The type that the compilation made of a schema comes of a draft whose mentions were followed. -/
theorem MadeOf.drafted_of_compiles (h : l.MadeOf d options p operations)
    (hc : l.Compiles d options node ty) :
    Drafted (Scope.ofDocument d options) p.Referred node ty := by
  cases hc with
  | component ht hl =>
    rw [h.types] at ht
    obtain ⟨named, hn, rfl⟩ := List.mem_map.mp ht
    obtain ⟨entry, -, he⟩ := List.mem_filterMap.mp hn
    obtain ⟨-, node', hl', hy⟩ := h.sound.types named (Progress.mem_of_type? he).1
    obtain rfl : node' = node := Option.some.inj (hl'.symm.trans hl)
    exact ⟨_, hy⟩
  | parameter hs ho hc hn hb hslot =>
    obtain ⟨own, ⟨name, hy⟩, rfl⟩ := h.drafted_of_getElem? hs ho
    exact draftParameters_drafted (draftOperation_yields hy).1 hc hn hb hslot
  | @entry path base place item method op entries i entry parameter node ty ho hs hb hi hf hn hr =>
    have hd := h.drafted
    rw [if_neg (by rw [ho]; exact Bool.false_ne_true)] at hd
    obtain ⟨own, -, name, hy⟩ := exists_of_forall₂_left (draftOperations_yields hd) hs
    obtain ⟨shared, mine, hshared, hmine, -⟩ := draftParameters_yields (draftOperation_yields hy).1
    obtain ⟨bs, hall⟩ : ∃ bs, List.Forall₂
        (Binding.DraftedFrom (Scope.ofDocument d options) d.components base p.Referred)
        entries.zipIdx bs := by
      rcases hb with hb | hb <;> cases hb
      · exact ⟨shared, (draftParameterList_yields hshared).1⟩
      · exact ⟨mine, (draftParameterList_yields hmine).1⟩
    have hat : (entry, i) ∈ entries.zipIdx := List.mem_zipIdx_iff_getElem?.mpr hi
    obtain ⟨b, -, parameter', place', hf', hb'⟩ := exists_of_forall₂_left hall hat
    rw [hf] at hf'
    obtain ⟨rfl, rfl⟩ := Prod.mk.inj (Except.ok.inj hf')
    have hdrafted := draftParameter_drafted hn hb'
    obtain rfl : b.ty = ty := Except.ok.inj (hdrafted.1.symm.trans hr)
    exact ⟨_, hdrafted⟩
  | body hs ho hentry hf hm hn hb =>
    obtain ⟨own, ⟨name, hy⟩, rfl⟩ := h.drafted_of_getElem? hs ho
    obtain ⟨inner, hinner, rfl⟩ := Option.map_eq_some_iff.mp hb
    obtain ⟨-, hbody, -⟩ := draftOperation_yields hy
    rw [hinner] at hbody
    obtain ⟨entry', body', place', mediaType', media', hentry', hf', hm', hy', -⟩ :=
      draftBody_yields hbody
    obtain rfl := Option.some.inj (hentry'.symm.trans hentry)
    obtain rfl := RefOr.definition_unique hf' hf
    rw [hm] at hm'
    obtain ⟨rfl, rfl⟩ := Prod.mk.inj (Option.some.inj hm')
    exact draftMedia_drafted hn hy'
  | response hs ho hj hj' hf hm hn hc =>
    obtain ⟨own, ⟨name, hy⟩, rfl⟩ := h.drafted_of_getElem? hs ho
    obtain ⟨-, -, hresponses⟩ := draftOperation_yields hy
    rw [OperationDeclaration.prune, List.getElem?_map] at hj'
    obtain ⟨inner, hinner, rfl⟩ := Option.map_eq_some_iff.mp hj'
    obtain ⟨content, hcontent, rfl⟩ := Option.map_eq_some_iff.mp hc
    obtain ⟨response', place', hf', hall⟩ := forall₂_getElem? (draftResponses_yields hresponses)
      hj hinner
    obtain ⟨mediaType', media', hm', hy', -⟩ := hall content hcontent
    obtain rfl := RefOr.definition_unique hf' hf
    rw [hm] at hm'
    obtain ⟨rfl, rfl⟩ := Prod.mk.inj (Option.some.inj hm')
    exact draftMedia_drafted hn hy'

end Declarations

/-- **No valid value is excluded**: the type that the compilation of a document has made of a schema
admits every value that is valid for the schema. -/
theorem admits_of_compiles {d : Document} {options : CasedOptions} {l : Declarations}
    (hl : d.compile options = .ok l) {node : Node} {ty : Ty} (hc : l.Compiles d options node ty)
    {v : Json} (hv : Valid d.components.schemas node v) : Admits l.declared ty v := by
  obtain ⟨p, operations, hm⟩ := Declarations.exists_of_compile_eq_ok hl
  have hvalid : Valid (Scope.ofDocument d options).schemas node v := hv
  exact admits_of_valid hm.declares hvalid (hm.drafted_of_compiles hc)

/-- An object is an item if its day is a string and its next item is an item. -/
theorem valid_item {members : List (String × Json)}
    (hat : ∀ w, Member.lookup "at" members = some w → ∃ text, w = .string text)
    (hnext : ∀ w, Member.lookup "next" members = some w →
      Valid itemDocument.components.schemas itemNode w) :
    Valid itemDocument.components.schemas itemNode (.object members) := by
  have hfind : Pool.schema.find itemDocument.components.schemas "#/components/schemas/Item" =
      .ok ("Item", itemNode) := by rfl
  refine .keywords rfl ?_ fun node w h => h
  constructor
  case constant | values | allOf | oneOf | anyOf | additional | array | items => simp [Facets.empty]
  case types => trivial
  case object => exact fun _ => ⟨members, rfl⟩
  case required => exact fun _ _ name hn => absurd hn List.not_mem_nil
  case properties =>
    rintro _ ⟨⟩ entry he w hw
    rcases List.mem_cons.mp he with rfl | he
    · obtain ⟨text, rfl⟩ := hat w hw
      refine .keywords rfl ?_ fun node w h => h
      constructor
      case types => exact Or.inl rfl
      all_goals simp [SchemaOf.describesMembers, Facets.empty]
    · obtain rfl := List.mem_singleton.mp he
      exact .reference rfl hfind (hnext w hw)

theorem admits_of_compiles_item :
    itemDocument.compile .default = .ok itemDeclarations ∧
      itemDeclarations.Compiles itemDocument .default itemNode itemType ∧
      Valid itemDocument.components.schemas itemNode
        (.object [("at", .string "2020-01-02"), ("next", .object [("at", .string "2020-01-03")])]) ∧
      Admits itemDeclarations.declared itemType
        (.object [("at", .string "2020-01-02"),
          ("next", .object [("at", .string "2020-01-03")])]) :=
  have hc : itemDeclarations.Compiles itemDocument .default itemNode itemType :=
    .component (t := ⟨⟨"Item", "Item", itemType, none, false⟩, false⟩)
      (List.mem_singleton.mpr rfl) rfl
  have hv : Valid itemDocument.components.schemas itemNode
      (.object [("at", .string "2020-01-02"), ("next", .object [("at", .string "2020-01-03")])]) :=
    valid_item (by rintro w ⟨⟩; exact ⟨_, rfl⟩) (by
      rintro w ⟨⟩
      exact valid_item (by rintro w ⟨⟩; exact ⟨_, rfl⟩) (by rintro w ⟨⟩))
  ⟨compile_itemDocument, hc, hv, admits_of_compiles compile_itemDocument hc hv⟩

end ApiDecl
