import ApiDecl.Proofs.Resolved
import ApiDecl.Proofs.Names
import ApiDecl.Proofs.Types.Inclusion
import Mathlib.Data.List.Forall2

/-!
# Discriminators of unions

The mapping of a discriminator begins with the entries of the description (`exists_explicitMapping`).
Each member that is a reference is then put under the name of its component, unless some entry leads
to its type by then (`exists_impliedMapping`, `imply`).

The values of the description and the names of components are keys of one mapping, so a member may be
put in place of an entry.  This happens just if the component of a member is named like the value of
an entry while no entry leads to the component.  Then the entry is lost, and otherwise all entries
are kept and all members are covered (`discriminator_complete_iff`).
-/

namespace ApiDecl

/-! ### Entries of the description -/

/-- The pointer that the target of an entry stands for: the target itself, or that of the component
of its name. -/
def Discriminator.pointer (target : String) : String :=
  if target.startsWith "#" then target else Pool.schema.pointer target

/-- The second entry has the value of the first and the name of the type that its target leads to. -/
def Scope.Maps (scope : Scope) (entry named : String × String) : Prop :=
  named.1 = entry.1 ∧ ∃ m, scope.resolve (Discriminator.pointer entry.2) = .ok m ∧ m.name = named.2

/-- The pointers of the nodes that are references. -/
def Node.references (nodes : List Node) : List String :=
  nodes.filterMap fun node => node.asSchema?.bind fun s => s.facets.reference

section Explicit

variable {scope : Scope}

theorem map_fst_of_maps {entries named : List (String × String)}
    (h : List.Forall₂ scope.Maps entries named) : named.map Prod.fst = entries.map Prod.fst :=
  map_eq_map_of_forall₂ (fun _ _ hm => hm.1) h

/-- **Entries of distinct values** all get into the mapping, behind what is there. -/
theorem exists_explicitMapping : ∀ {entries mapping mapping' : List (String × String)},
    (mapping.map Prod.fst ++ entries.map Prod.fst).Nodup →
      explicitMapping scope mapping entries = .ok mapping' →
        ∃ named, List.Forall₂ scope.Maps entries named ∧ mapping' = mapping ++ named
  | [], mapping, mapping', _, h => ⟨[], .nil, by rw [List.append_nil, ← Except.ok.inj h]⟩
  | (value, target) :: rest, mapping, mapping', hd, h => by
    simp only [explicitMapping, bind_eq_ok] at h
    obtain ⟨m, hm, h⟩ := h
    have hfresh : value ∉ mapping.map Prod.fst := fun hv =>
      List.disjoint_of_nodup_append hd hv List.mem_cons_self
    rw [Member.put_of_not_mem hfresh] at h
    have hd' : ((mapping ++ [(value, m.name)]).map Prod.fst ++ rest.map Prod.fst).Nodup := by
      rw [List.map_append, List.append_assoc]
      exact hd
    obtain ⟨named, hnamed, rfl⟩ := exists_explicitMapping hd' h
    exact ⟨(value, m.name) :: named, .cons ⟨rfl, m, hm, rfl⟩ hnamed, by simp⟩

end Explicit

/-! ### Members that are references -/

/-- A member put under the name of its component, unless some entry leads to its type. -/
def imply (mapping : List (String × String)) (m : Mention) : List (String × String) :=
  if mapping.any fun entry => entry.2 == m.name then mapping
  else Member.put m.component m.name mapping

section Implied

variable {scope : Scope} {mapping mapping' : List (String × String)} {m : Mention}
  {ms : List Mention}

theorem any_eq_true_iff :
    (mapping.any fun entry => entry.2 == m.name) = true ↔ m.name ∈ mapping.map Prod.snd := by
  rw [List.any_eq_true, List.mem_map]
  exact exists_congr fun entry => and_congr_right fun _ => beq_iff_eq

theorem imply_of_mem (h : m.name ∈ mapping.map Prod.snd) : imply mapping m = mapping :=
  if_pos (any_eq_true_iff.mpr h)

theorem imply_of_not_mem (h : m.name ∉ mapping.map Prod.snd) :
    imply mapping m = Member.put m.component m.name mapping :=
  if_neg (mt any_eq_true_iff.mp h)

/-- **The references among members** are put into the mapping one after the other. -/
theorem exists_impliedMapping : ∀ {nodes : List Node} {mapping mapping' : List (String × String)},
    impliedMapping scope mapping nodes = .ok mapping' →
      ∃ ms, List.Forall₂ (fun pointer m => scope.resolve pointer = .ok m)
        (Node.references nodes) ms ∧ mapping' = ms.foldl imply mapping
  | [], mapping, mapping', h => ⟨[], .nil, (Except.ok.inj h).symm⟩
  | .other value :: rest, mapping, mapping', h => by
    have hskip : Node.references (.other value :: rest) = Node.references rest :=
      List.filterMap_cons_none rfl
    rw [impliedMapping] at h
    rw [hskip]
    exact exists_impliedMapping h
  | .schema s :: rest, mapping, mapping', h => by
    rw [impliedMapping] at h
    cases hr : s.facets.reference with
    | none =>
      rw [hr] at h
      have hskip : Node.references (.schema s :: rest) = Node.references rest :=
        List.filterMap_cons_none hr
      rw [hskip]
      exact exists_impliedMapping h
    | some pointer =>
      rw [hr] at h
      obtain ⟨m, hm, h⟩ := bind_eq_ok.mp h
      have hstep : impliedMapping scope (imply mapping m) rest = .ok mapping' := by
        unfold imply
        split_ifs at h ⊢
        · exact h
        · exact h
      have hfirst : Node.references (.schema s :: rest) = pointer :: Node.references rest :=
        List.filterMap_cons_some hr
      obtain ⟨ms, hms, rfl⟩ := exists_impliedMapping hstep
      exact ⟨m :: ms, hfirst ▸ .cons hm hms, rfl⟩

theorem nodup_foldl_imply (hd : (mapping.map Prod.fst).Nodup) :
    ((ms.foldl imply mapping).map Prod.fst).Nodup := by
  refine List.foldlRecOn ms imply hd (motive := fun mapping : List (String × String) =>
    (mapping.map Prod.fst).Nodup) fun mapping hd m _ => ?_
  unfold imply
  split_ifs
  · exact hd
  · exact Member.nodup_put hd _ _

/-- What a component is mapped to stays, if the component always has that name. -/
theorem lookup_foldl_imply_of_lookup {component name : String} : ∀ {ms : List Mention}
    {mapping : List (String × String)}, (∀ m ∈ ms, m.component = component → m.name = name) →
      Member.lookup component mapping = some name →
        Member.lookup component (ms.foldl imply mapping) = some name
  | [], _, _, hl => hl
  | m :: rest, mapping, hn, hl => by
    rw [List.forall_mem_cons] at hn
    rw [List.foldl_cons]
    refine lookup_foldl_imply_of_lookup hn.2 ?_
    unfold imply
    split_ifs
    · exact hl
    · by_cases hc : m.component = component
      · rw [hc, hn.1 hc]
        exact Member.lookup_put_self component name mapping
      · exact (Member.lookup_put_of_ne (Ne.symm hc) _ _).trans hl

/-- The mentions have the names that components have in a list, where no two have one name. -/
structure Named (names : List (String × String)) (ms : List Mention) : Prop where
  lookup : ∀ m ∈ ms, Member.lookup m.component names = some m.name
  nodup : (names.map Prod.snd).Nodup

variable {names : List (String × String)}

theorem Named.tail (h : Named names (m :: ms)) : Named names ms :=
  ⟨fun other ho => h.lookup other (List.mem_cons_of_mem _ ho), h.nodup⟩

theorem Named.name_eq {other : Mention} (h : Named names ms) (hm : m ∈ ms) (ho : other ∈ ms)
    (hc : m.component = other.component) : m.name = other.name := by
  have hlookup := h.lookup m hm
  rw [hc, h.lookup other ho] at hlookup
  exact (Option.some.inj hlookup).symm

theorem Named.component_eq {other : Mention} (h : Named names ms) (hm : m ∈ ms) (ho : other ∈ ms)
    (hn : m.name = other.name) : m.component = other.component :=
  congrArg Prod.fst (List.inj_on_of_nodup_map h.nodup (Member.mem_of_lookup (h.lookup m hm))
    (Member.mem_of_lookup (h.lookup other ho)) hn)

/-- **Members are put behind the entries**, and all are covered, where each that is named like the
value of an entry is covered by some entry. -/
theorem foldl_imply_of_fits : ∀ {ms : List Mention} {mapping : List (String × String)},
    Named names ms →
    (∀ m ∈ ms, m.component ∈ mapping.map Prod.fst → m.name ∈ mapping.map Prod.snd) →
      mapping <+: ms.foldl imply mapping ∧
        ∀ m ∈ ms, m.name ∈ (ms.foldl imply mapping).map Prod.snd
  | [], mapping, _, _ => ⟨List.prefix_rfl, fun _ hm => absurd hm List.not_mem_nil⟩
  | m :: rest, mapping, hn, hfits => by
    rw [List.foldl_cons]
    have hstep : mapping <+: imply mapping m ∧ m.name ∈ (imply mapping m).map Prod.snd ∧
        ∀ other ∈ rest, other.component ∈ (imply mapping m).map Prod.fst →
          other.name ∈ (imply mapping m).map Prod.snd := by
      by_cases hm : m.name ∈ mapping.map Prod.snd
      · rw [imply_of_mem hm]
        exact ⟨List.prefix_rfl, hm, fun other ho => hfits other (List.mem_cons_of_mem _ ho)⟩
      · have hfresh : m.component ∉ mapping.map Prod.fst := fun hc =>
          hm (hfits m List.mem_cons_self hc)
        rw [imply_of_not_mem hm, Member.put_of_not_mem hfresh]
        refine ⟨List.prefix_append _ _, by simp, fun other ho hc => ?_⟩
        rw [List.map_append, List.mem_append] at hc ⊢
        rcases hc with hc | hc
        · exact Or.inl (hfits other (List.mem_cons_of_mem _ ho) hc)
        · -- the member just put is of the same component
          refine Or.inr (List.mem_singleton.mpr ?_)
          exact hn.name_eq (List.mem_cons_of_mem _ ho) List.mem_cons_self
            (List.mem_singleton.mp hc)
    obtain ⟨hfront, hcovered, hrest⟩ := hstep
    obtain ⟨hmore, hall⟩ := foldl_imply_of_fits hn.tail hrest
    refine ⟨hfront.trans hmore, List.forall_mem_cons.mpr ⟨?_, hall⟩⟩
    exact (hmore.map Prod.snd).subset hcovered

/-- **A member to which no entry leads** is what its component is mapped to in the end. -/
theorem lookup_foldl_imply : ∀ {ms : List Mention} {mapping : List (String × String)},
    Named names ms → m ∈ ms → m.name ∉ mapping.map Prod.snd →
      Member.lookup m.component (ms.foldl imply mapping) = some m.name
  | first :: rest, mapping, hn, hm, hfree => by
    rw [List.foldl_cons]
    by_cases hfirst : first.name ∈ mapping.map Prod.snd
    · rw [imply_of_mem hfirst]
      rcases List.mem_cons.mp hm with rfl | hm
      · exact absurd hfirst hfree
      · exact lookup_foldl_imply hn.tail hm hfree
    · rw [imply_of_not_mem hfirst]
      by_cases hsame : m.name = first.name
      · have hc := hn.component_eq hm List.mem_cons_self hsame
        refine lookup_foldl_imply_of_lookup (fun other ho he => ?_) ?_
        · exact hn.name_eq (List.mem_cons_of_mem _ ho) hm he
        · rw [hc, hsame]
          exact Member.lookup_put_self _ _ _
      · rcases List.mem_cons.mp hm with rfl | hm
        · exact absurd rfl hsame
        · refine lookup_foldl_imply hn.tail hm fun hv => ?_
          obtain ⟨entry, he, hname⟩ := List.mem_map.mp hv
          rcases Member.entry_of_mem_put he with hnew | hold
          · exact hsame (hname ▸ hnew)
          · exact hfree (hname ▸ List.mem_map_of_mem hold)

end Implied

/-! ### The mapping of a union -/

/-- The mapping has every entry of the description, and leads to every member that is a reference. -/
structure Discriminator.Complete (scope : Scope) (members : List Node) (d d' : Discriminator) :
    Prop where
  entries : ∀ entry ∈ d.mapping, ∃ named ∈ d'.mapping, scope.Maps entry named
  members : ∀ pointer ∈ Node.references members, ∃ m, scope.resolve pointer = .ok m ∧
    m.name ∈ d'.mapping.map Prod.snd

/-- The component of some member is named like the value of an entry, and no entry leads to it. -/
def Discriminator.Clashes (scope : Scope) (members : List Node) (d : Discriminator) : Prop :=
  ∃ pointer ∈ Node.references members, ∃ m, scope.resolve pointer = .ok m ∧
    m.component ∈ d.mapping.map Prod.fst ∧
      ∀ entry ∈ d.mapping, ∀ target, scope.resolve (Discriminator.pointer entry.2) = .ok target →
        target.component ≠ m.component

section Unions

variable {scope : Scope} {P : Mention → Prop} {s : Schema} {members : List Node} {place : String}
  {ty : Ty} {d d' : Discriminator}

theorem named_of_resolve (hs : (scope.names.map Prod.snd).Nodup) {pointers : List String}
    {ms : List Mention}
    (hms : List.Forall₂ (fun pointer m => scope.resolve pointer = .ok m) pointers ms) :
    Named scope.names ms := by
  refine ⟨fun m hm => ?_, hs⟩
  obtain ⟨pointer, -, hp⟩ := exists_of_forall₂_right hms hm
  exact Scope.lookup_of_resolve hp

theorem Scope.component_eq_of_name_eq (hs : (scope.names.map Prod.snd).Nodup) {pointer other : String}
    {m m' : Mention} (hm : scope.resolve pointer = .ok m) (hm' : scope.resolve other = .ok m')
    (hn : m.name = m'.name) : m.component = m'.component :=
  (named_of_resolve hs (.cons hm (.cons hm' .nil))).component_eq List.mem_cons_self
    (List.mem_cons_of_mem _ List.mem_cons_self) hn

theorem Scope.name_eq_of_component_eq (hs : (scope.names.map Prod.snd).Nodup) {pointer other : String}
    {m m' : Mention} (hm : scope.resolve pointer = .ok m) (hm' : scope.resolve other = .ok m')
    (hc : m.component = m'.component) : m.name = m'.name :=
  (named_of_resolve hs (.cons hm (.cons hm' .nil))).name_eq List.mem_cons_self
    (List.mem_cons_of_mem _ List.mem_cons_self) hc

/-- A mapping is made of the entries, and then of the members that are references. -/
theorem exists_of_discriminatorOf (hk : (d.mapping.map Prod.fst).Nodup)
    (h : discriminatorOf scope members d = .ok d') : ∃ named ms,
      List.Forall₂ scope.Maps d.mapping named ∧
      List.Forall₂ (fun pointer m => scope.resolve pointer = .ok m) (Node.references members) ms ∧
      d'.mapping = ms.foldl imply named := by
  simp only [discriminatorOf, bind_eq_ok] at h
  obtain ⟨entries, he, mapping, hm, h⟩ := h
  obtain rfl := Except.ok.inj h
  have hd : (([] : List (String × String)).map Prod.fst ++ d.mapping.map Prod.fst).Nodup := hk
  obtain ⟨named, hnamed, hentries⟩ := exists_explicitMapping hd he
  rw [hentries, List.nil_append] at hm
  obtain ⟨ms, hms, hmapping⟩ := exists_impliedMapping hm
  exact ⟨named, ms, hnamed, hms, hmapping⟩

/-- Where there is a clash, an entry is lost: the member has taken its place. -/
theorem not_complete_of_clashes (hs : (scope.names.map Prod.snd).Nodup)
    (hk : (d.mapping.map Prod.fst).Nodup) (h : discriminatorOf scope members d = .ok d')
    (hclash : d.Clashes scope members) : ¬ d.Complete scope members d' := by
  intro hcomplete
  obtain ⟨named, ms, hnamed, hms, hmapping⟩ := exists_of_discriminatorOf hk h
  obtain ⟨pointer, hp, m, hm, hvalue, hno⟩ := hclash
  obtain ⟨own, hown, hresolve⟩ := exists_of_forall₂_left hms hp
  obtain rfl := Except.ok.inj (hm.symm.trans hresolve)
  have hfree : m.name ∉ named.map Prod.snd := by
    intro hv
    obtain ⟨entry', hentry', hname⟩ := List.mem_map.mp hv
    obtain ⟨entry, hentry, -, target, ht, htname⟩ := exists_of_forall₂_right hnamed hentry'
    exact hno entry hentry target ht (Scope.component_eq_of_name_eq hs ht hm (htname.trans hname))
  have hlookup : Member.lookup m.component d'.mapping = some m.name :=
    hmapping ▸ lookup_foldl_imply (named_of_resolve hs hms) hown hfree
  have hnodup : (d'.mapping.map Prod.fst).Nodup :=
    hmapping ▸ nodup_foldl_imply (map_fst_of_maps hnamed ▸ hk)
  -- the entry of that value would lead to the component of the member
  obtain ⟨entry, hentry, hvalue'⟩ := List.mem_map.mp hvalue
  obtain ⟨found, hfound, hfst, target, ht, htname⟩ := hcomplete.entries entry hentry
  have hsecond := Member.lookup_of_mem hnodup (show (found.1, found.2) ∈ _ from hfound)
  rw [hfst, hvalue', hlookup] at hsecond
  exact hno entry hentry target ht
    (Scope.component_eq_of_name_eq hs ht hm (htname.trans (Option.some.inj hsecond).symm))

theorem complete_of_not_clashes (hs : (scope.names.map Prod.snd).Nodup)
    (hk : (d.mapping.map Prod.fst).Nodup) (h : discriminatorOf scope members d = .ok d')
    (hno : ¬ d.Clashes scope members) : d.Complete scope members d' := by
  obtain ⟨named, ms, hnamed, hms, hmapping⟩ := exists_of_discriminatorOf hk h
  have hkeys := map_fst_of_maps hnamed
  have hfits : ∀ m ∈ ms, m.component ∈ named.map Prod.fst → m.name ∈ named.map Prod.snd := by
    intro m hm hc
    by_contra hfree
    obtain ⟨pointer, hp, hresolve⟩ := exists_of_forall₂_right hms hm
    refine hno ⟨pointer, hp, m, hresolve, hkeys ▸ hc, fun entry hentry target ht he => hfree ?_⟩
    obtain ⟨entry', hentry', -, target', ht', htname'⟩ := exists_of_forall₂_left hnamed hentry
    obtain rfl := Except.ok.inj (ht.symm.trans ht')
    rw [← Scope.name_eq_of_component_eq hs ht hresolve he, htname']
    exact List.mem_map_of_mem hentry'
  obtain ⟨hfront, hall⟩ := foldl_imply_of_fits (named_of_resolve hs hms) hfits
  rw [← hmapping] at hfront hall
  refine ⟨fun entry hentry => ?_, fun pointer hp => ?_⟩
  · obtain ⟨entry', hentry', hmaps⟩ := exists_of_forall₂_left hnamed hentry
    exact ⟨entry', hfront.subset hentry', hmaps⟩
  · obtain ⟨m, hm, hresolve⟩ := exists_of_forall₂_left hms hp
    exact ⟨m, hresolve, hall m hm⟩

/-- A union with a discriminator keeps it, made of the members and of the entries. -/
theorem exists_discriminator_of_draftNode (hr : s.facets.reference = none)
    (hc : s.facets.constant = none) (ha : s.parts.allOf = none)
    (hu : (s.parts.oneOf <|> s.parts.anyOf) = some members) (hd : s.facets.discriminator = some d)
    (hy : (draftNode scope place (.schema s)).Yields P ty) :
    ∃ tys d', ty = .union tys (some d') ∧ discriminatorOf scope members d = .ok d' := by
  rw [draftNode_schema, Draft.yields_map] at hy
  obtain ⟨inner, hi, rfl⟩ := hy
  have hunion : ∃ keyword drafts,
      (draftUnion scope place keyword s members drafts).Yields P inner := by
    cases hone : s.parts.oneOf with
    | some nodes =>
      rw [hone] at hu
      obtain rfl := Option.some.inj hu
      simp only [draftShape, hr, hc, draftParts, ha, hone, Option.map_some, Option.map_none] at hi
      exact ⟨_, _, hi⟩
    | none =>
      rw [hone] at hu
      have hany : s.parts.anyOf = some members := hu
      simp only [draftShape, hr, hc, draftParts, ha, hone, hany, Option.map_some,
        Option.map_none] at hi
      exact ⟨_, _, hi⟩
  obtain ⟨keyword, drafts, hi⟩ := hunion
  unfold draftUnion at hi
  split_ifs at hi
  · exact absurd hi Draft.not_yields_fail
  · obtain ⟨tys, -, hi⟩ := Draft.yields_bind.mp hi
    rw [hd] at hi
    obtain ⟨d', hd', hi⟩ := Draft.yields_bind.mp hi
    obtain rfl := Draft.yields_pure.mp hi
    have hfinal := Draft.yields_ofExcept.mp hd'
    split_ifs
    · exact ⟨_, d', rfl, hfinal⟩
    · exact ⟨tys, d', rfl, hfinal⟩

/-- **The mapping of a discriminator** has every entry of the description and leads to every member
that is a reference, just if no member is named like the value of an entry without being the target
of one. -/
theorem discriminator_complete_iff {doc : Document} {options : CasedOptions}
    (hr : s.facets.reference = none) (hc : s.facets.constant = none) (ha : s.parts.allOf = none)
    (hu : (s.parts.oneOf <|> s.parts.anyOf) = some members) (hd : s.facets.discriminator = some d)
    (hk : (d.mapping.map Prod.fst).Nodup)
    (hy : (draftNode (Scope.ofDocument doc options) place (.schema s)).Yields P ty) :
    ∃ tys d', ty = .union tys (some d') ∧ (d.Complete (Scope.ofDocument doc options) members d' ↔
      ¬ d.Clashes (Scope.ofDocument doc options) members) := by
  obtain ⟨tys, d', rfl, hd'⟩ := exists_discriminator_of_draftNode hr hc ha hu hd hy
  have hs := Scope.nodup_names doc options
  exact ⟨tys, d', rfl, fun hcomplete hclash => not_complete_of_clashes hs hk hd' hclash hcomplete,
    complete_of_not_clashes hs hk hd'⟩

end Unions

/-! ### An entry with the name of a member -/

/-- A document with two components. -/
def petsDocument : Document where
  format := some "3.0.0"
  info := ⟨"Pets", "1", none⟩
  servers := []
  paths := []
  components := ⟨[("Cat", textNode), ("Dog", textNode)], [], [], [], []⟩
  security := none

/-- A dog or a cat, told apart by a member; null is one as well. -/
def petSchema (mapping : List (String × String)) : Schema :=
  ⟨{ Facets.empty with discriminator := some ⟨"kind", mapping⟩, nullable := some true },
    ⟨[], none, none, none, some [referenceNode "#/components/schemas/Dog",
      referenceNode "#/components/schemas/Cat"], none⟩⟩

/-- The type of a pet with a mapping. -/
def petType (mapping : List (String × String)) : Ty :=
  .union [.reference "Dog", .reference "Cat", .null] (some ⟨"kind", mapping⟩)

theorem yields_petSchema : (draftNode (Scope.ofDocument petsDocument .default) "#"
    (.schema (petSchema [("feline", "#/components/schemas/Cat")]))).Yields (fun _ => True)
      (petType [("feline", "Cat"), ("Dog", "Dog")]) :=
  ⟨by cbv, fun _ _ => trivial⟩

/-- The cat has an entry, and the dog gets one. -/
theorem discriminator_complete_iff_pets :
    (petSchema [("feline", "#/components/schemas/Cat")]).facets.reference = none ∧
    (petSchema [("feline", "#/components/schemas/Cat")]).facets.constant = none ∧
    (petSchema [("feline", "#/components/schemas/Cat")]).parts.allOf = none ∧
    ((petSchema [("feline", "#/components/schemas/Cat")]).parts.oneOf <|>
      (petSchema [("feline", "#/components/schemas/Cat")]).parts.anyOf) =
        some [referenceNode "#/components/schemas/Dog", referenceNode "#/components/schemas/Cat"] ∧
    (petSchema [("feline", "#/components/schemas/Cat")]).facets.discriminator =
      some ⟨"kind", [("feline", "#/components/schemas/Cat")]⟩ ∧
    ([("feline", "#/components/schemas/Cat")].map Prod.fst).Nodup ∧
    (draftNode (Scope.ofDocument petsDocument .default) "#"
      (.schema (petSchema [("feline", "#/components/schemas/Cat")]))).Yields (fun _ => True)
        (petType [("feline", "Cat"), ("Dog", "Dog")]) ∧
    ∃ tys d', petType [("feline", "Cat"), ("Dog", "Dog")] = .union tys (some d') ∧
      (Discriminator.Complete (Scope.ofDocument petsDocument .default)
          [referenceNode "#/components/schemas/Dog", referenceNode "#/components/schemas/Cat"]
          ⟨"kind", [("feline", "#/components/schemas/Cat")]⟩ d' ↔
        ¬ Discriminator.Clashes (Scope.ofDocument petsDocument .default)
          [referenceNode "#/components/schemas/Dog", referenceNode "#/components/schemas/Cat"]
          ⟨"kind", [("feline", "#/components/schemas/Cat")]⟩) :=
  ⟨rfl, rfl, rfl, rfl, rfl, List.nodup_singleton _, yields_petSchema,
    discriminator_complete_iff rfl rfl rfl rfl rfl (List.nodup_singleton _) yields_petSchema⟩

/-- The name of the cat stands for the dog, until the cat takes the place of the entry.  So nothing
leads to the dog any more. -/
theorem not_complete_pets :
    (draftNode (Scope.ofDocument petsDocument .default) "#"
      (.schema (petSchema [("Cat", "Dog")]))).result = .ok (petType [("Cat", "Cat")]) ∧
    (Scope.ofDocument petsDocument .default).resolve (Discriminator.pointer "Dog") =
      .ok ⟨"Dog", "Dog", "#/components/schemas/Dog"⟩ ∧
    ¬ Discriminator.Complete (Scope.ofDocument petsDocument .default)
      [referenceNode "#/components/schemas/Dog", referenceNode "#/components/schemas/Cat"]
      ⟨"kind", [("Cat", "Dog")]⟩ ⟨"kind", [("Cat", "Cat")]⟩ := by
  have hdog : (Scope.ofDocument petsDocument .default).resolve "#/components/schemas/Dog" =
      .ok ⟨"Dog", "Dog", "#/components/schemas/Dog"⟩ := by rfl
  refine ⟨by cbv, by cbv, fun h => ?_⟩
  obtain ⟨m, hm, hname⟩ := h.members "#/components/schemas/Dog" List.mem_cons_self
  obtain rfl := Except.ok.inj (hdog.symm.trans hm)
  exact absurd hname (by decide)

end ApiDecl
