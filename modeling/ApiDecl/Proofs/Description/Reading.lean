import ApiDecl.Proofs.Description.Positions
import ApiDecl.Proofs.Yaml.Keyed
import ApiDecl.Source

/-!
# Descriptions that are read

A document that is read from text has distinct names wherever it has properties
(`Document.keyed_of_ofText`), and so have the schemas of its components
(`Document.named_of_ofText`), because the objects of the text have.  Readers are put together from
readers of parts, and so are their properties (`Reader.Ensures`): of lists and maps, of references,
and of structures, which are set member by member.
-/

namespace ApiDecl

/-! ### Schemas -/

/-- The properties of every schema in the node have distinct names. -/
inductive Node.Keyed : Node → Prop
  | other (value : Json) : Keyed (.other value)
  | schema {s : Schema} : (s.parts.properties.map Prod.fst).Nodup →
      (∀ part : Node, part.PartOf s → Keyed part) → Keyed (.schema s)

/-- Properties with distinct names, and parts that are keyed. -/
structure KeyedParts (p : Parts Node) : Prop where
  nodup : (p.properties.map Prod.fst).Nodup
  properties : ∀ entry ∈ p.properties, entry.2.Keyed
  items : ∀ node, p.items = some node → node.Keyed
  additional : ∀ node, p.additional = some node → node.Keyed
  oneOf : ∀ nodes, p.oneOf = some nodes → ∀ node ∈ nodes, node.Keyed
  anyOf : ∀ nodes, p.anyOf = some nodes → ∀ node ∈ nodes, node.Keyed
  allOf : ∀ nodes, p.allOf = some nodes → ∀ node ∈ nodes, node.Keyed

theorem KeyedParts.empty : KeyedParts ⟨[], none, none, none, none, none⟩ where
  nodup := List.nodup_nil
  properties := fun _ h => absurd h List.not_mem_nil
  items := by simp
  additional := by simp
  oneOf := by simp
  anyOf := by simp
  allOf := by simp

theorem KeyedParts.keyed {s : Schema} (h : KeyedParts s.parts) : (Node.schema s).Keyed := by
  refine .schema h.nodup fun part hp => ?_
  cases hp with
  | property hm => exact h.properties _ hm
  | items hn => exact h.items _ hn
  | additional hn => exact h.additional _ hn
  | oneOf hn hm => exact h.oneOf _ hn _ hm
  | anyOf hn hm => exact h.anyOf _ hn _ hm
  | allOf hn hm => exact h.allOf _ hn _ hm

/-- The value is read as keyed nodes: as a schema, as a list of schemas and as named schemas. -/
structure Json.GivesKeyed (value : Json) : Prop where
  node : (Node.ofJson value).Keyed
  nodes : ∀ nodes, nodesOf? value = some (some nodes) → ∀ node ∈ nodes, node.Keyed
  named : ∀ entries, namedOf? value = some entries →
    (entries.map Prod.fst).Nodup ∧ ∀ entry ∈ entries, entry.2.Keyed

section Schemas

variable {value : Json} {name : String} {s s' : Schema}

/-- One keyword keeps the parts keyed. -/
theorem KeyedParts.set (h : KeyedParts s.parts) (hv : value.GivesKeyed)
    (hs : s.set name value (fun _ => if value.isNull then none else some (Node.ofJson value))
      (fun _ => nodesOf? value) (fun _ => namedOf? value) = some s') : KeyedParts s'.parts := by
  have hnode (node : Node)
      (hn : (if value.isNull then none else some (Node.ofJson value)) = some node) :
      node.Keyed := by
    split_ifs at hn
    obtain rfl := Option.some.inj hn
    exact hv.node
  unfold Schema.set at hs
  split at hs
  · obtain ⟨entries, he, rfl⟩ := Option.map_eq_some_iff.mp hs
    exact { h with nodup := (hv.named _ he).1, properties := (hv.named _ he).2 }
  · obtain rfl := Option.some.inj hs
    exact { h with items := hnode }
  · obtain rfl := Option.some.inj hs
    exact { h with additional := hnode }
  · obtain ⟨nodes, hn, rfl⟩ := Option.map_eq_some_iff.mp hs
    exact { h with oneOf := fun _ ho => hv.nodes _ (ho ▸ hn) }
  · obtain ⟨nodes, hn, rfl⟩ := Option.map_eq_some_iff.mp hs
    exact { h with anyOf := fun _ ho => hv.nodes _ (ho ▸ hn) }
  · obtain ⟨nodes, hn, rfl⟩ := Option.map_eq_some_iff.mp hs
    exact { h with allOf := fun _ ho => hv.nodes _ (ho ▸ hn) }
  · obtain ⟨facets, -, rfl⟩ := Option.map_eq_some_iff.mp hs
    exact h

theorem KeyedParts.setMembers : ∀ {members : List (String × Json)} {s s' : Schema},
    KeyedParts s.parts → (∀ member ∈ members, member.2.GivesKeyed) →
      setMembers s members = some s' → KeyedParts s'.parts
  | [], s, s', h, _, hs => by
    rw [ApiDecl.setMembers] at hs
    obtain rfl := Option.some.inj hs
    exact h
  | (name, value) :: rest, s, s', h, hm, hs => by
    rw [List.forall_mem_cons] at hm
    rw [ApiDecl.setMembers] at hs
    split at hs
    · next s'' hset => exact setMembers (h.set hm.1 hset) hm.2 hs
    · cases hs

theorem KeyedParts.setItems : ∀ {names : List String} {values : List Json} {s s' : Schema},
    KeyedParts s.parts → (∀ value ∈ values, value.GivesKeyed) →
      setItems s names values = some s' → KeyedParts s'.parts
  | name :: names, value :: rest, s, s', h, hm, hs => by
    rw [List.forall_mem_cons] at hm
    rw [ApiDecl.setItems] at hs
    split at hs
    · next s'' hset => exact setItems (h.set hm.1 hset) hm.2 hs
    · cases hs
  | [], _, s, s', h, _, hs | _ :: _, [], s, s', h, _, hs => by
    simp only [ApiDecl.setItems] at hs
    obtain rfl := Option.some.inj hs
    exact h

theorem keyed_nodesOfItems : ∀ {values : List Json}, (∀ value ∈ values, value.GivesKeyed) →
    ∀ node ∈ nodesOfItems values, node.Keyed
  | [], _, _, hm => by
    rw [nodesOfItems] at hm
    cases hm
  | value :: rest, h, node, hm => by
    rw [List.forall_mem_cons] at h
    rw [nodesOfItems] at hm
    rcases List.mem_cons.mp hm with rfl | hm
    · exact h.1.node
    · exact keyed_nodesOfItems h.2 node hm

theorem map_fst_nodesOfMembers (members : List (String × Json)) :
    (nodesOfMembers members).map Prod.fst = members.map Prod.fst := by
  induction members with
  | nil => rw [nodesOfMembers]; rfl
  | cons member rest ih =>
    rw [nodesOfMembers, List.map_cons, ih]
    rfl

theorem keyed_nodesOfMembers : ∀ {members : List (String × Json)},
    (∀ member ∈ members, member.2.GivesKeyed) → ∀ entry ∈ nodesOfMembers members, entry.2.Keyed
  | [], _, _, hm => by
    rw [nodesOfMembers] at hm
    cases hm
  | (name, value) :: rest, h, entry, hm => by
    rw [List.forall_mem_cons] at h
    rw [nodesOfMembers] at hm
    rcases List.mem_cons.mp hm with rfl | hm
    · exact h.1.node
    · exact keyed_nodesOfMembers h.2 entry hm

/-- A value without members and items is no schema. -/
theorem Json.givesKeyed_of_leaf (hn : Node.ofJson value = .other value)
    (hnodes : ∀ nodes, nodesOf? value ≠ some (some nodes)) (hnamed : namedOf? value = none) :
    value.GivesKeyed where
  node := hn ▸ .other value
  nodes := fun nodes h => absurd h (hnodes nodes)
  named := fun entries h => by
    rw [hnamed] at h
    cases h

/-- **A keyed value** is read as keyed nodes. -/
theorem Json.Keyed.gives (h : value.Keyed) : value.GivesKeyed := by
  -- a keyword may read its value as a list or as named schemas, whose schemas are one level deeper,
  -- so all three ways of reading go through the induction together
  induction h with
  | null | bool | number | string =>
    exact givesKeyed_of_leaf (by simp [Node.ofJson]) (by simp [nodesOf?]) (by simp [namedOf?])
  | @array items _ ih =>
    constructor
    · rw [Node.ofJson]
      split
      · next s _ hs => exact (KeyedParts.empty.setItems (s := .empty) ih hs).keyed
      · exact .other _
    · intro nodes hn
      rw [nodesOf?] at hn
      obtain rfl := Option.some.inj (Option.some.inj hn)
      exact keyed_nodesOfItems ih
    · intro entries he
      simp [namedOf?] at he
  | @object members hd _ ih =>
    constructor
    · rw [Node.ofJson]
      split
      · next s hs => exact (KeyedParts.empty.setMembers (s := .empty) ih hs).keyed
      · exact .other _
    · intro nodes hn
      simp [nodesOf?] at hn
    · intro entries he
      rw [namedOf?] at he
      obtain rfl := Option.some.inj he
      rw [map_fst_nodesOfMembers]
      exact ⟨hd, keyed_nodesOfMembers ih⟩

end Schemas

/-! ### Readers -/

/-- Whatever is read from a keyed value has the property. -/
def Reader.Ensures {α : Type} (read : Reader α) (P : α → Prop) : Prop :=
  ∀ value a, value.Keyed → read value = .ok a → P a

/-- Whatever stands in place of a reference has the property. -/
def RefOr.Each {α : Type} (P : α → Prop) (entry : RefOr α) : Prop := ∀ a, entry = .inline a → P a

section Readers

variable {α ρ : Type} {read : Reader α} {P : α → Prop}

theorem forall_of_mapM_eq_ok {β : Type} {f : β → Except Misfit α} : ∀ {l : List β} {l' : List α},
    (∀ x ∈ l, ∀ y, f x = .ok y → P y) → l.mapM f = .ok l' → ∀ y ∈ l', P y
  | [], l', _, h => by
    obtain rfl := Except.ok.inj h
    exact fun _ hm => absurd hm List.not_mem_nil
  | x :: l, l', hf, h => by
    rw [List.forall_mem_cons] at hf
    rw [List.mapM_cons] at h
    obtain ⟨y, hy, h⟩ := bind_eq_ok.mp h
    obtain ⟨ys, hys, h⟩ := bind_eq_ok.mp h
    obtain rfl := Except.ok.inj h
    exact List.forall_mem_cons.mpr ⟨hf.1 y hy, forall_of_mapM_eq_ok hf.2 hys⟩

theorem foldlM_ensures {β : Type} {step : ρ → β → Except Misfit ρ} {I : ρ → Prop} :
    ∀ {l : List β} {r r' : ρ}, (∀ r x r', x ∈ l → I r → step r x = .ok r' → I r') → I r →
      l.foldlM step r = .ok r' → I r'
  | [], r, r', _, hr, h => by
    obtain rfl := Except.ok.inj h
    exact hr
  | x :: l, r, r', hstep, hr, h => by
    obtain ⟨middle, hm, h⟩ := bind_eq_ok.mp h
    exact foldlM_ensures (fun r y r' hy => hstep r y r' (List.mem_cons_of_mem _ hy))
      (hstep r x middle List.mem_cons_self hr hm) h

theorem ensures_optional (h : read.Ensures P) :
    (readOptional read).Ensures fun o => ∀ a, o = some a → P a := by
  rintro value o hv ho a rfl
  have hread : (read value).map some = .ok (some a) := by
    cases value with
    | null => cases ho
    | _ => exact ho
  cases hr : read value with
  | error misfit => rw [hr] at hread; cases hread
  | ok b =>
    rw [hr] at hread
    cases hread
    exact h value a hv hr

theorem ensures_list (h : read.Ensures P) : (readList read).Ensures fun l => ∀ a ∈ l, P a := by
  intro value l hv hl
  cases hv with
  | array hi => exact forall_of_mapM_eq_ok (fun item hm a => h item a (hi item hm)) hl
  | _ => cases hl

theorem ensures_map (h : read.Ensures P) :
    (readMap read).Ensures fun l => ∀ entry ∈ l, P entry.2 := by
  intro value l hv hl
  cases hv with
  | object _ hm =>
    refine forall_of_mapM_eq_ok (fun member hmem entry he => ?_) hl
    obtain ⟨a, ha, he⟩ := bind_eq_ok.mp he
    obtain rfl := Except.ok.inj he
    exact h member.2 a (hm member hmem) ha
  | _ => cases hl

/-- A map has the names of the members that it is read from. -/
theorem map_fst_of_mapM_eq_ok : ∀ {members : List (String × Json)} {l : List (String × α)},
    members.mapM (fun (name, value) => do return (name, ← read value)) = .ok l →
      l.map Prod.fst = members.map Prod.fst
  | [], l, h => by
    obtain rfl := Except.ok.inj h
    rfl
  | (name, value) :: members, l, h => by
    rw [List.mapM_cons] at h
    obtain ⟨entry, he, h⟩ := bind_eq_ok.mp h
    obtain ⟨entries, hes, h⟩ := bind_eq_ok.mp h
    obtain rfl := Except.ok.inj h
    obtain ⟨a, -, he⟩ := bind_eq_ok.mp he
    obtain rfl := Except.ok.inj he
    rw [List.map_cons, List.map_cons, map_fst_of_mapM_eq_ok hes]

theorem ensures_map_nodup (read : Reader α) :
    (readMap read).Ensures fun l => (l.map Prod.fst).Nodup := by
  intro value l hv hl
  cases hv with
  | object hd _ =>
    rw [map_fst_of_mapM_eq_ok hl]
    exact hd
  | _ => cases hl

theorem ensures_refOr (h : read.Ensures P) : Reader.Ensures (readRefOr read) (RefOr.Each P) := by
  rintro value entry hv he a rfl
  unfold readRefOr at he
  split at he
  · cases he
  · split at he
    · next definition hd =>
      cases he
      exact h value a hv hd
    · cases he

/-- **A structure** keeps what it starts with and what each field keeps. -/
theorem ensures_structure {kind : String} {fields : List Field} {start : ρ}
    {set : ρ → String → Json → Except Misfit ρ} {I : ρ → Prop} (hstart : I start)
    (hset : ∀ r name value r', I r → value.Keyed → set r name value = .ok r' → I r') :
    (readStructure kind fields start set).Ensures I := by
  intro value r hv hr
  cases hv with
  | object _ hm =>
    obtain ⟨result, hresult, hr⟩ := bind_eq_ok.mp hr
    split at hr
    · cases hr
    · cases hr
      exact foldlM_ensures (fun r member r' hmem hI => hset r _ _ r' hI (hm member hmem))
        hstart hresult
  | array hi =>
    obtain ⟨result, hresult, hr⟩ := bind_eq_ok.mp hr
    split at hr
    · cases hr
    · cases hr
      refine foldlM_ensures (fun r pair r' hp hI => hset r _ _ r' hI (hi _ ?_)) hstart hresult
      exact (List.of_mem_zip hp).2
  | _ => cases hr

theorem ensures_true (read : Reader α) : read.Ensures fun _ => True := fun _ _ _ _ => trivial

/-- A field is set to what is read. -/
theorem of_set {value : Json} {store : α → ρ} {I : ρ → Prop} {r : ρ} (hv : value.Keyed)
    (h : read.Ensures P) (hs : (do return store (← read value)) = .ok r)
    (hstore : ∀ a, P a → I (store a)) : I r := by
  obtain ⟨a, ha, he⟩ := bind_eq_ok.mp hs
  obtain rfl := Except.ok.inj he
  exact hstore a (h value a hv ha)

end Readers

/-! ### Definitions -/

/-- The schema of a parameter is keyed. -/
def Parameter.Keyed (p : Parameter) : Prop := ∀ node, p.schema = some node → node.Keyed

/-- The schema of a media type is keyed. -/
def MediaType.Keyed (m : MediaType) : Prop := ∀ node, m.schema = some node → node.Keyed

/-- The schemas of a body are keyed. -/
def RequestBody.Keyed (b : RequestBody) : Prop := ∀ entry ∈ b.content, entry.2.Keyed

/-- The schemas of a response are keyed. -/
def Response.Keyed (r : Response) : Prop := ∀ entry ∈ r.content, entry.2.Keyed

/-- The schemas of an operation are keyed. -/
structure Operation.Keyed (o : Operation) : Prop where
  parameters : ∀ entry ∈ o.parameters, entry.Each Parameter.Keyed
  body : ∀ entry, o.body = some entry → entry.Each RequestBody.Keyed
  responses : ∀ entry ∈ o.responses, entry.2.Each Response.Keyed

/-- The schemas at a path are keyed. -/
structure PathItem.Keyed (item : PathItem) : Prop where
  operations : ∀ entry ∈ item.operations, entry.2.Keyed
  parameters : ∀ entry ∈ item.parameters, entry.Each Parameter.Keyed

/-- The schemas of components are keyed. -/
structure Components.Keyed (c : Components) : Prop where
  schemas : ∀ entry ∈ c.schemas, entry.2.Keyed
  parameters : ∀ entry ∈ c.parameters, entry.2.Each Parameter.Keyed
  responses : ∀ entry ∈ c.responses, entry.2.Each Response.Keyed
  bodies : ∀ entry ∈ c.bodies, entry.2.Each RequestBody.Keyed

theorem ensures_readNode : readNode.Ensures fun node? => ∀ node, node? = some node → node.Keyed := by
  refine ensures_optional fun value node hv hn => ?_
  obtain rfl := Except.ok.inj hn
  exact hv.gives.node

theorem ensures_readParameter : readParameter.Ensures Parameter.Keyed := by
  refine ensures_structure (by simp [Parameter.Keyed]) fun p name value p' hp hv hs => ?_
  split at hs
  · exact of_set hv (ensures_true _) hs fun _ _ => hp
  · exact of_set hv (ensures_true _) hs fun _ _ => hp
  · exact of_set hv (ensures_true _) hs fun _ _ => hp
  · exact of_set hv ensures_readNode hs fun _ hn => hn
  · exact of_set hv (ensures_true _) hs fun _ _ => hp
  · exact of_set hv (ensures_true _) hs fun _ _ => hp
  · cases hs; exact hp

theorem ensures_readMediaType : readMediaType.Ensures MediaType.Keyed := by
  refine ensures_structure (by simp [MediaType.Keyed]) fun m name value m' hm hv hs => ?_
  split at hs
  · exact of_set hv ensures_readNode hs fun _ hn => hn
  · cases hs; exact hm

theorem ensures_readRequestBody : readRequestBody.Ensures RequestBody.Keyed := by
  refine ensures_structure (by simp [RequestBody.Keyed]) fun b name value b' hb hv hs => ?_
  split at hs
  · exact of_set hv (ensures_true _) hs fun _ _ => hb
  · exact of_set hv (ensures_true _) hs fun _ _ => hb
  · exact of_set hv (ensures_map ensures_readMediaType) hs fun _ hc => hc
  · cases hs; exact hb

theorem ensures_readResponse : readResponse.Ensures Response.Keyed := by
  refine ensures_structure (by simp [Response.Keyed]) fun r name value r' hr hv hs => ?_
  split at hs
  · exact of_set hv (ensures_true _) hs fun _ _ => hr
  · exact of_set hv (ensures_map ensures_readMediaType) hs fun _ hc => hc
  · cases hs; exact hr

theorem ensures_readOperation : readOperation.Ensures Operation.Keyed := by
  have hparameters := ensures_list (ensures_refOr ensures_readParameter)
  have hbody := ensures_optional (ensures_refOr ensures_readRequestBody)
  have hresponses := ensures_map (ensures_refOr ensures_readResponse)
  refine ensures_structure ⟨by simp, by simp, by simp⟩ fun o name value o' ho hv hs => ?_
  split at hs
  · exact of_set hv (ensures_true _) hs fun _ _ => { ho with }
  · exact of_set hv (ensures_true _) hs fun _ _ => { ho with }
  · exact of_set hv (ensures_true _) hs fun _ _ => { ho with }
  · exact of_set hv (ensures_true _) hs fun _ _ => { ho with }
  · exact of_set hv (ensures_true _) hs fun _ _ => { ho with }
  · exact of_set hv hparameters hs fun _ hp => { ho with parameters := hp }
  · exact of_set hv hbody hs fun _ hb => { ho with body := hb }
  · exact of_set hv hresponses hs fun _ hr => { ho with responses := hr }
  · exact of_set hv (ensures_true _) hs fun _ _ => { ho with }
  · cases hs; exact ho

theorem ensures_readPathItem : Reader.Ensures readPathItem PathItem.Keyed := by
  intro value item hv hi
  obtain ⟨read, hread, hi⟩ := bind_eq_ok.mp hi
  obtain rfl := Except.ok.inj hi
  have hkeyed : read.Keyed := by
    refine ensures_structure ⟨by simp, by simp⟩ (fun p name value p' hp hv hs => ?_) value read hv
      hread
    split at hs
    · obtain ⟨operation?, ho, hs⟩ := bind_eq_ok.mp hs
      have hoperation := ensures_optional ensures_readOperation value operation? hv ho
      split at hs
      · cases hs
        refine ⟨List.forall_mem_append.mpr ⟨hp.operations, ?_⟩, hp.parameters⟩
        exact List.forall_mem_singleton.mpr (hoperation _ rfl)
      · cases hs; exact hp
    · split at hs
      · exact of_set hv (ensures_list (ensures_refOr ensures_readParameter)) hs
          fun _ h => { hp with parameters := h }
      · cases hs; exact hp
  refine { hkeyed with operations := fun entry he => ?_ }
  obtain ⟨method, -, hf⟩ := List.mem_filterMap.mp he
  exact hkeyed.operations entry (List.mem_of_find?_eq_some hf)

theorem ensures_readComponents : readComponents.Ensures Components.Keyed := by
  have hschemas : Reader.Ensures (fun value => .ok (Node.ofJson value)) Node.Keyed := by
    intro value node hv hn
    obtain rfl := Except.ok.inj hn
    exact hv.gives.node
  have hparameters := ensures_map (ensures_refOr ensures_readParameter)
  have hresponses := ensures_map (ensures_refOr ensures_readResponse)
  have hbodies := ensures_map (ensures_refOr ensures_readRequestBody)
  refine ensures_structure ⟨by simp, by simp, by simp, by simp⟩ fun c name value c' hc hv hs => ?_
  split at hs
  · exact of_set hv (ensures_map hschemas) hs fun _ h => { hc with schemas := h }
  · exact of_set hv hparameters hs fun _ h => { hc with parameters := h }
  · exact of_set hv hresponses hs fun _ h => { hc with responses := h }
  · exact of_set hv hbodies hs fun _ h => { hc with bodies := h }
  · exact of_set hv (ensures_true _) hs fun _ _ => { hc with }
  · cases hs; exact hc

/-! ### Documents -/

/-- The schemas of paths and of components are keyed. -/
structure KeyedDefinitions (d : Document) : Prop where
  paths : ∀ entry ∈ d.paths, entry.2.Keyed
  components : d.components.Keyed

theorem ensures_readDocument : readDocument.Ensures KeyedDefinitions := by
  refine ensures_structure ⟨by simp [Document.empty], ⟨by simp [Document.empty],
    by simp [Document.empty], by simp [Document.empty], by simp [Document.empty]⟩⟩
    fun d name value d' hd hv hs => ?_
  split at hs
  · exact of_set hv (ensures_true _) hs fun _ _ => { hd with }
  · exact of_set hv (ensures_true _) hs fun _ _ => { hd with }
  · exact of_set hv (ensures_true _) hs fun _ _ => { hd with }
  · exact of_set hv (ensures_map ensures_readPathItem) hs fun _ h => { hd with paths := h }
  · exact of_set hv ensures_readComponents hs fun _ h => { hd with components := h }
  · exact of_set hv (ensures_true _) hs fun _ _ => { hd with }
  · cases hs; exact hd

/-- The schemas of the components have distinct names. -/
def Components.Named (c : Components) : Prop := (c.schemas.map Prod.fst).Nodup

/-- The schemas of the document's components have distinct names. -/
def Document.Named (d : Document) : Prop := d.components.Named

theorem ensures_readComponents_named : readComponents.Ensures Components.Named := by
  refine ensures_structure List.nodup_nil fun c name value c' hc hv hs => ?_
  split at hs
  · exact of_set hv (ensures_map_nodup _) hs fun _ h => h
  · exact of_set hv (ensures_true _) hs fun _ _ => hc
  · exact of_set hv (ensures_true _) hs fun _ _ => hc
  · exact of_set hv (ensures_true _) hs fun _ _ => hc
  · exact of_set hv (ensures_true _) hs fun _ _ => hc
  · cases hs; exact hc

theorem ensures_readDocument_named : readDocument.Ensures Document.Named := by
  refine ensures_structure List.nodup_nil fun d name value d' hd hv hs => ?_
  split at hs
  · exact of_set hv (ensures_true _) hs fun _ _ => hd
  · exact of_set hv (ensures_true _) hs fun _ _ => hd
  · exact of_set hv (ensures_true _) hs fun _ _ => hd
  · exact of_set hv (ensures_true _) hs fun _ _ => hd
  · exact of_set hv ensures_readComponents_named hs fun _ h => h
  · exact of_set hv (ensures_true _) hs fun _ _ => hd
  · cases hs; exact hd

/-- Whatever stands in the document where a schema is expected is keyed. -/
theorem KeyedDefinitions.keyed_of_contains {d : Document} (h : KeyedDefinitions d) {node : Node}
    (hn : d.Contains node) : node.Keyed := by
  induction hn with
  | component hm => exact h.components.schemas _ hm
  | @parameter p node hm hs =>
    suffices hp : p.Keyed from hp node hs
    rcases List.mem_append.mp hm with hm | hm
    · obtain ⟨entry, he, heq⟩ := List.mem_map.mp hm
      exact h.components.parameters entry he p heq
    · obtain ⟨path, hpath, hm⟩ := List.mem_flatMap.mp hm
      rcases List.mem_append.mp hm with hm | hm
      · exact (h.paths path hpath).parameters _ hm p rfl
      · obtain ⟨entry, he, hm⟩ := List.mem_flatMap.mp hm
        exact ((h.paths path hpath).operations entry he).parameters _ hm p rfl
  | @body body mediaType media node hm hc hs =>
    suffices hb : body.Keyed from hb _ hc node hs
    rcases List.mem_append.mp hm with hm | hm
    · obtain ⟨entry, he, heq⟩ := List.mem_map.mp hm
      exact h.components.bodies entry he body heq
    · obtain ⟨path, hpath, hm⟩ := List.mem_flatMap.mp hm
      obtain ⟨entry, he, heq⟩ := List.mem_filterMap.mp hm
      exact ((h.paths path hpath).operations entry he).body _ heq body rfl
  | @response response mediaType media node hm hc hs =>
    suffices hr : response.Keyed from hr _ hc node hs
    rcases List.mem_append.mp hm with hm | hm
    · obtain ⟨entry, he, heq⟩ := List.mem_map.mp hm
      exact h.components.responses entry he response heq
    · obtain ⟨path, hpath, hm⟩ := List.mem_flatMap.mp hm
      obtain ⟨entry, he, hm⟩ := List.mem_flatMap.mp hm
      obtain ⟨named, hn, heq⟩ := List.mem_map.mp hm
      exact ((h.paths path hpath).operations entry he).responses named hn response heq
  | part _ hp ih =>
    cases ih with
    | schema _ hparts => exact hparts _ hp

theorem SourceLanguage.keyed_of_value? {language : SourceLanguage} {text : String} {value : Json}
    (h : language.value? text = some value) : value.Keyed := by
  cases language with
  | json => exact Json.keyed_of_parse h
  | yaml => exact Json.keyed_of_ofYaml? h

/-- A document is read from a keyed value, its version marker made a string. -/
theorem Document.ensures_of_ofJson {P : Document → Prop} (hP : readDocument.Ensures P)
    {value : Json} {d : Document} (hv : value.Keyed) (h : Document.ofJson value = .ok d) : P d := by
  unfold Document.ofJson at h
  split at h
  · cases h
  · next marker _ =>
    obtain ⟨_, -, h⟩ := bind_eq_ok.mp h
    dsimp only at h
    split at h
    · next read hread =>
      obtain rfl := Except.ok.inj h
      refine hP _ read ?_ hread
      cases hv with
      | object hd hm => exact (KeyedMembers.put ⟨hd, hm⟩ "openapi" (.string _)).keyed
      | array hi => exact .array hi
      | null | bool | number | string => constructor
    · cases h

/-- **What reading ensures** holds of every document that is read from text. -/
theorem Document.ensures_of_ofText {P : Document → Prop} (hP : readDocument.Ensures P)
    {language : SourceLanguage} {text : String} {d : Document}
    (h : Document.ofText language text = .ok d) : P d := by
  unfold Document.ofText at h
  split at h
  · next value hv => exact ensures_of_ofJson hP (SourceLanguage.keyed_of_value? hv) h
  · cases h

/-- **A document that is read** has distinct names wherever it has properties. -/
theorem Document.keyed_of_ofText {language : SourceLanguage} {text : String} {d : Document}
    (h : Document.ofText language text = .ok d) : d.Keyed := by
  intro s hs
  cases (ensures_of_ofText ensures_readDocument h).keyed_of_contains hs with
  | schema hnodup => exact hnodup

/-- The components of a document that is read have distinct names. -/
theorem Document.named_of_ofText {language : SourceLanguage} {text : String} {d : Document}
    (h : Document.ofText language text = .ok d) : d.Named :=
  ensures_of_ofText ensures_readDocument_named h

end ApiDecl
