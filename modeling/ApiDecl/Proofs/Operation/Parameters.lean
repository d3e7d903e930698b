import ApiDecl.Proofs.Description.Positions
import ApiDecl.Proofs.Names
import ApiDecl.Proofs.Types.Merging
import Mathlib.Data.List.Forall2

/-!
# Parameters put together

The parameters of an operation are those of its path with a slot that the operation does not declare,
followed by its own (`overrideBindings_eq`).  Each is bound as it is declared, whether in place or by
a reference (`Binds`), except that names are taken at the end, in the order of the parameters.

So there is one parameter for each slot declared, and that of the operation wins
(`parameters_merge`).  A list that declares one slot twice is refused.
-/

namespace ApiDecl

variable {P : Mention → Prop} {scope : Scope} {c : Components}

/-- The location and the name of a parameter. -/
def Parameter.slot (p : Parameter) : Location × String := (p.location, p.name)

/-- The parameter is bound: under its slot, as required if it says so or stands in the path, and with
the type of its schema. -/
structure Parameter.Binds (scope : Scope) (P : Mention → Prop) (p : Parameter) (b : Binding) :
    Prop where
  slot : b.slot = p.slot
  required : b.required = true ↔ p.required = true ∨ p.location = .path
  typed : ∀ node, p.schema = some node → Drafted scope P node b.ty
  /-- Without a schema it is a string. -/
  untyped : p.schema = none → b.ty = .scalar .string none

/-! ### One list -/

theorem binds_of_draftParameter {pointer : String} {p : Parameter} {b : Binding}
    (h : (draftParameter scope pointer p).Yields P b) : p.Binds scope P b := by
  unfold draftParameter at h
  cases hs : p.schema with
  | none =>
    rw [hs] at h
    obtain ⟨ty, hty, h⟩ := Draft.yields_bind.mp h
    obtain rfl := Draft.yields_pure.mp hty
    obtain rfl := Draft.yields_pure.mp h
    refine ⟨rfl, by simp, fun node hn => ?_, fun _ => rfl⟩
    rw [hs] at hn
    cases hn
  | some node =>
    rw [hs] at h
    obtain ⟨ty, hty, h⟩ := Draft.yields_bind.mp h
    obtain rfl := Draft.yields_pure.mp h
    refine ⟨rfl, by simp, fun other hn => ?_, fun hn => ?_⟩
    · obtain rfl := Option.some.inj (hs.symm.trans hn)
      exact ⟨_, hty⟩
    · rw [hs] at hn
      cases hn

/-- The parameters of a list are what its entries lead to, in their order. -/
theorem exists_binds_of_draftedFrom {base : String} : ∀ {entries : List (RefOr Parameter)}
    {index : Nat} {bs : List Binding},
    List.Forall₂ (Binding.DraftedFrom scope c base P) (entries.zipIdx index) bs →
      ∃ ps, List.Forall₂ (RefOr.Leads .parameter c.parameters) entries ps ∧
        List.Forall₂ (Parameter.Binds scope P) ps bs
  | [], _, _, .nil => ⟨[], .nil, .nil⟩
  | entry :: rest, index, _, h => by
    rw [List.zipIdx_cons] at h
    cases h with
    | cons hentry hrest =>
      obtain ⟨p, place, hf, hy⟩ := hentry
      obtain ⟨ps, hleads, hbinds⟩ := exists_binds_of_draftedFrom hrest
      exact ⟨p :: ps, .cons ⟨_, place, hf⟩ hleads, .cons (binds_of_draftParameter hy) hbinds⟩

theorem map_slot_of_binds {ps : List Parameter} {bs : List Binding}
    (h : List.Forall₂ (Parameter.Binds scope P) ps bs) :
    bs.map Binding.slot = ps.map Parameter.slot :=
  map_eq_map_of_forall₂ (fun _ _ hb => hb.slot) h

/-- **A list of parameters** that is drafted declares no slot twice. -/
theorem exists_binds_of_draftParameterList {base : String} {entries : List (RefOr Parameter)}
    {bs : List Binding} (h : (draftParameterList scope c base [] 0 entries).Yields P bs) :
    ∃ ps, List.Forall₂ (RefOr.Leads .parameter c.parameters) entries ps ∧
      List.Forall₂ (Parameter.Binds scope P) ps bs ∧ (ps.map Parameter.slot).Nodup := by
  obtain ⟨hfrom, hnodup, -⟩ := draftParameterList_yields h
  obtain ⟨ps, hleads, hbinds⟩ := exists_binds_of_draftedFrom hfrom
  exact ⟨ps, hleads, hbinds, map_slot_of_binds hbinds ▸ hnodup⟩

/-! ### Two lists -/

/-- Parameters of an operation stand behind those of its path that have a slot of their own. -/
theorem overrideBindings_eq : ∀ {own shared : List Binding}, (own.map Binding.slot).Nodup →
    overrideBindings shared own =
      shared.filter (fun b => decide (b.slot ∉ own.map Binding.slot)) ++ own
  | [], shared, _ => by simp [overrideBindings]
  | b :: rest, shared, hn => by
    rw [List.map_cons, List.nodup_cons] at hn
    have hstep : overrideBindings shared (b :: rest) =
        overrideBindings (shared.filter (fun other => !other.sameSlot b) ++ [b]) rest := rfl
    -- the parameter just put at the end stays, since no later one has its slot
    have hkept : [b].filter (fun other => decide (other.slot ∉ rest.map Binding.slot)) = [b] :=
      List.filter_cons_of_pos (decide_eq_true hn.1)
    have hboth : (shared.filter fun other => !other.sameSlot b).filter
          (fun other => decide (other.slot ∉ rest.map Binding.slot)) =
        shared.filter fun other => decide (other.slot ∉ (b :: rest).map Binding.slot) := by
      rw [List.filter_filter]
      refine List.filter_congr fun other _ => ?_
      rw [Bool.eq_iff_iff, Bool.and_eq_true, Bool.not_eq_true', ← Bool.not_eq_true,
        Binding.sameSlot_eq_true, decide_eq_true_iff, decide_eq_true_iff, List.map_cons,
        List.mem_cons, not_or, and_comm]
    rw [hstep, overrideBindings_eq hn.2, List.filter_append, hkept, hboth, List.append_assoc,
      List.singleton_append]

/-- Taking names changes nothing of how parameters are bound. -/
theorem binds_nameBindings : ∀ {ps : List Parameter} {bs : List Binding} (taken : List String),
    List.Forall₂ (Parameter.Binds scope P) ps bs →
      List.Forall₂ (Parameter.Binds scope P) ps (nameBindings taken bs)
  | _, _, _, .nil => .nil
  | _, _, _, .cons h rest =>
    .cons ⟨h.slot, h.required, h.typed, h.untyped⟩ (binds_nameBindings _ rest)

/-- **The parameters of an operation** are those of its path that it does not declare itself and then
its own, each bound once under its slot, whether declared in place or by a reference; and neither
list declares one slot twice. -/
theorem parameters_merge {item : PathItem} {o : Operation} {pathPointer pointer : String}
    {bs : List Binding} (h : (draftParameters scope c item o pathPointer pointer).Yields P bs) :
    ∃ shared own : List Parameter,
      List.Forall₂ (RefOr.Leads .parameter c.parameters) item.parameters shared ∧
      List.Forall₂ (RefOr.Leads .parameter c.parameters) o.parameters own ∧
      (shared.map Parameter.slot).Nodup ∧ (own.map Parameter.slot).Nodup ∧
      List.Forall₂ (Parameter.Binds scope P)
        (shared.filter (fun p => decide (p.slot ∉ own.map Parameter.slot)) ++ own) bs ∧
      (bs.map Binding.slot).Nodup ∧
      ∀ slot, slot ∈ bs.map Binding.slot ↔
        slot ∈ shared.map Parameter.slot ∨ slot ∈ own.map Parameter.slot := by
  obtain ⟨sharedBindings, ownBindings, hs, ho, rfl⟩ := draftParameters_yields h
  obtain ⟨shared, hsharedLeads, hshared, hsharedNodup⟩ := exists_binds_of_draftParameterList hs
  obtain ⟨own, hownLeads, hown, hownNodup⟩ := exists_binds_of_draftParameterList ho
  have hslots := map_slot_of_binds hown
  have hkept : List.Forall₂ (Parameter.Binds scope P)
      (shared.filter fun p => decide (p.slot ∉ own.map Parameter.slot))
      (sharedBindings.filter fun b => decide (b.slot ∉ ownBindings.map Binding.slot)) := by
    refine List.rel_filter (fun p b hb => ?_) hshared
    dsimp only
    rw [hslots, hb.slot]
  have hbinds : List.Forall₂ (Parameter.Binds scope P)
      (shared.filter (fun p => decide (p.slot ∉ own.map Parameter.slot)) ++ own)
      (nameBindings [] (overrideBindings sharedBindings ownBindings)) := by
    rw [overrideBindings_eq (hslots ▸ hownNodup)]
    exact binds_nameBindings [] (List.rel_append hkept hown)
  refine ⟨shared, own, hsharedLeads, hownLeads, hsharedNodup, hownNodup, hbinds, ?_, fun slot => ?_⟩
  · exact (draftParameters_names h).2.1
  · rw [map_slot_of_binds hbinds, List.map_append, List.mem_append]
    constructor
    · rintro (hm | hm)
      · exact Or.inl ((List.filter_sublist.map _).subset hm)
      · exact Or.inr hm
    · rintro (hm | hm)
      · by_cases hd : slot ∈ own.map Parameter.slot
        · exact Or.inr hd
        · obtain ⟨p, hp, rfl⟩ := List.mem_map.mp hm
          exact Or.inl (List.mem_map_of_mem (List.mem_filter.mpr ⟨hp, decide_eq_true hd⟩))
      · exact Or.inr hm

/-! ### An operation that overrides a reference -/

/-- A parameter `page` of the query as a component. -/
def pagedComponents : Components where
  schemas := []
  parameters := [("Page", .inline ⟨"page", .query, true, none, none, false⟩)]
  responses := []
  bodies := []
  schemes := []

/-- An item in the path, a header of the same name as the component, and the component. -/
def pagedItem : PathItem where
  operations := []
  parameters := [.inline ⟨"id", .path, false, none, none, false⟩,
    .reference "#/components/parameters/Page", .inline ⟨"Page", .header, false, none, none, false⟩]

/-- An operation with a parameter `page` of its own, which is a number and may be left out. -/
def pagedOperation : Operation where
  id := none
  summary := none
  description := none
  deprecated := false
  tags := []
  parameters := [.inline ⟨"page", .query, false, some (scalarNode "integer"), none, false⟩]
  body := none
  responses := []
  security := none

/-- The parameters of the operation; the last takes another name, since its own is taken. -/
def pagedBindings : List Binding :=
  [⟨"id", "id", .path, true, .scalar .string none⟩,
    ⟨"page", "Page", .header, false, .scalar .string none⟩,
    ⟨"page_2", "page", .query, false, .scalar .integer none⟩]

theorem yields_pagedBindings :
    (draftParameters bareScope pagedComponents pagedItem pagedOperation "#/paths/~1"
      "#/paths/~1/get").Yields (fun _ => True) pagedBindings :=
  ⟨by cbv, fun _ _ => trivial⟩

/-- Of the two parameters `page` of the query that of the operation is left. -/
theorem parameters_merge_paged :
    (draftParameters bareScope pagedComponents pagedItem pagedOperation "#/paths/~1"
      "#/paths/~1/get").Yields (fun _ => True) pagedBindings ∧
    ∃ shared own : List Parameter,
      List.Forall₂ (RefOr.Leads .parameter pagedComponents.parameters) pagedItem.parameters shared ∧
      List.Forall₂ (RefOr.Leads .parameter pagedComponents.parameters) pagedOperation.parameters
        own ∧
      (shared.map Parameter.slot).Nodup ∧ (own.map Parameter.slot).Nodup ∧
      List.Forall₂ (Parameter.Binds bareScope fun _ => True)
        (shared.filter (fun p => decide (p.slot ∉ own.map Parameter.slot)) ++ own) pagedBindings ∧
      (pagedBindings.map Binding.slot).Nodup ∧
      ∀ slot, slot ∈ pagedBindings.map Binding.slot ↔
        slot ∈ shared.map Parameter.slot ∨ slot ∈ own.map Parameter.slot :=
  ⟨yields_pagedBindings, parameters_merge yields_pagedBindings⟩

end ApiDecl
