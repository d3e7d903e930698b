import ApiDecl.Operation.OfDocument
import ApiDecl.Proofs.Draft

/-!
# What drafts of operations yield

The operations drafted stand in the order of those of the document (`draftOperations_yields`).  Each
of their parts comes from the part of the document it stands for: a parameter from its entry
(`draftParameterList_yields`), a body and a response from the media type that counts
(`draftBody_yields`, `draftResponses_yields`).  A body or a response carries the programs of its own
type.  Of the parameters of a path those remain that the operation does not override
(`mem_overrideBindings`).
-/

namespace ApiDecl

variable {P : Mention → Prop} {scope : Scope} {d : Document} {c : Components}
  {base pointer : String}

/-! ### Bodies and responses -/

/-- A body comes from the media type that counts, with the programs of its type. -/
theorem draftBody_yields {o : Operation} {b : BodyBinding}
    (h : (draftBody scope c o pointer).Yields P (some b)) :
    ∃ entry body place mediaType media, o.body = some entry ∧
      entry.follow .body c.bodies (Pointer.child pointer "requestBody") = .ok (body, place) ∧
      bodyMedia? body.content = some (mediaType, media) ∧
      (draftMedia scope place mediaType media).Yields P b.ty ∧ b.links = b.ty.links := by
  unfold draftBody at h
  split at h
  · simp at h
  · next entry ho =>
    simp only [Draft.yields_bind, Draft.yields_ofExcept] at h
    obtain ⟨⟨body, place⟩, hf, h⟩ := h
    split at h
    · simp at h
    · next mediaType media hm =>
      simp only [Draft.yields_bind, Draft.yields_pure, Option.some.injEq] at h
      obtain ⟨ty, ht, rfl⟩ := h
      exact ⟨entry, body, place, mediaType, media, ho, hf, hm, ht, rfl⟩

/-- What a response holds comes from the media type that counts, with the programs of its type. -/
def ResponseBinding.DraftedFrom (scope : Scope) (c : Components) (base : String)
    (P : Mention → Prop) (source : String × RefOr Response) (r : ResponseBinding) : Prop :=
  ∃ response place, source.2.follow .response c.responses (Pointer.child base source.1) =
    .ok (response, place) ∧
    ∀ content, r.content = some content → ∃ mediaType media,
      responseMedia? response.content = some (mediaType, media) ∧
      (draftMedia scope place mediaType media).Yields P content.ty ∧
        content.links = content.ty.links

theorem draftResponses_yields :
    ∀ {sources : List (String × RefOr Response)} {rs : List ResponseBinding},
    (draftResponses scope c base sources).Yields P rs →
      List.Forall₂ (ResponseBinding.DraftedFrom scope c base P) sources rs
  | [], rs, h => by
    rw [draftResponses, Draft.yields_pure] at h
    exact h ▸ .nil
  | (status, entry) :: rest, rs, h => by
    simp only [draftResponses, Draft.yields_bind, Draft.yields_ofExcept] at h
    obtain ⟨⟨response, place⟩, hf, h⟩ := h
    split at h
    · simp only [Draft.yields_bind, Draft.yields_pure] at h
      obtain ⟨content, rfl, bindings, hrest, rfl⟩ := h
      exact .cons ⟨response, place, hf, fun _ he => by cases he⟩ (draftResponses_yields hrest)
    · next mediaType media hm =>
      simp only [Draft.yields_bind, Draft.yields_pure] at h
      obtain ⟨ty, ht, content, rfl, bindings, hrest, rfl⟩ := h
      refine .cons ⟨response, place, hf, fun content' he => ?_⟩ (draftResponses_yields hrest)
      obtain rfl := Option.some.inj he
      exact ⟨mediaType, media, hm, ht, rfl⟩

/-! ### Parameters -/

/-- A parameter has been drafted from the entry at a position of a list. -/
def Binding.DraftedFrom (scope : Scope) (c : Components) (base : String) (P : Mention → Prop)
    (source : RefOr Parameter × Nat) (b : Binding) : Prop :=
  ∃ p place, source.1.follow .parameter c.parameters (Pointer.child base (toString source.2)) =
    .ok (p, place) ∧ (draftParameter scope place p).Yields P b

/-- The location and the wire name of a parameter. -/
def Binding.slot (b : Binding) : Location × String := (b.location, b.wireName)

theorem Binding.sameSlot_eq_true {a b : Binding} : a.sameSlot b = true ↔ a.slot = b.slot := by
  simp [sameSlot, slot]

theorem draftParameter_slot {place : String} {p : Parameter} {b : Binding}
    (h : (draftParameter scope place p).Yields P b) : b.slot = (p.location, p.name) := by
  unfold draftParameter at h
  dsimp only at h
  split at h <;>
  · obtain ⟨ty, -, h⟩ := Draft.yields_bind.mp h
    obtain rfl := Draft.yields_pure.mp h
    rfl

/-- The parameters of a list are drafted in its order, and no two of them have one slot. -/
theorem draftParameterList_yields : ∀ {entries : List (RefOr Parameter)}
    {seen : List (Location × String)} {index : Nat} {bs : List Binding},
    (draftParameterList scope c base seen index entries).Yields P bs →
      List.Forall₂ (Binding.DraftedFrom scope c base P) (entries.zipIdx index) bs ∧
        (bs.map Binding.slot).Nodup ∧ ∀ slot ∈ seen, slot ∉ bs.map Binding.slot
  | [], seen, index, bs, h => by
    rw [draftParameterList, Draft.yields_pure] at h
    subst h
    exact ⟨.nil, List.nodup_nil, fun _ _ => List.not_mem_nil⟩
  | entry :: rest, seen, index, bs, h => by
    simp only [draftParameterList, Draft.yields_bind, Draft.yields_ofExcept] at h
    obtain ⟨⟨p, place⟩, hf, h⟩ := h
    split at h
    · simp at h
    · next hnot =>
      simp only [Draft.yields_bind, Draft.yields_pure] at h
      obtain ⟨b, hb, more, hrest, rfl⟩ := h
      obtain ⟨hall, hnodup, hfresh⟩ := draftParameterList_yields hrest
      have hslot : b.slot = (p.location, p.name) := draftParameter_slot hb
      rw [List.contains_iff_mem, ← hslot] at hnot
      rw [List.map_cons, List.nodup_cons]
      refine ⟨.cons ⟨p, place, hf, hb⟩ hall, ⟨hfresh _ (hslot ▸ List.mem_cons_self), hnodup⟩, ?_⟩
      intro slot hs hm
      rcases List.mem_cons.mp hm with rfl | hm
      · exact hnot hs
      · exact hfresh slot (List.mem_cons_of_mem _ hs) hm

/-- Parameters of an operation stay, and of those of its path the ones with a slot of their own. -/
theorem mem_overrideBindings {shared own : List Binding} {b : Binding}
    (hn : (own.map Binding.slot).Nodup) :
    b ∈ overrideBindings shared own ↔ b ∈ own ∨ b ∈ shared ∧ b.slot ∉ own.map Binding.slot := by
  induction own generalizing shared with
  | nil => simp [overrideBindings]
  | cons first rest ih =>
    rw [List.map_cons, List.nodup_cons] at hn
    have hstep : overrideBindings shared (first :: rest) =
        overrideBindings (shared.filter (fun other => !other.sameSlot first) ++ [first]) rest := rfl
    have hkept : b ∈ shared.filter (fun other => !other.sameSlot first) ↔
        b ∈ shared ∧ b.slot ≠ first.slot := by
      rw [List.mem_filter, Bool.not_eq_true', ← Bool.not_eq_true, Binding.sameSlot_eq_true]
    rw [hstep, ih hn.2, List.mem_append, hkept, List.mem_singleton, List.mem_cons, List.map_cons,
      List.mem_cons]
    constructor
    · rintro (h | ⟨⟨h, hne⟩ | rfl, hnot⟩)
      · exact .inl (.inr h)
      · exact .inr ⟨h, fun ho => ho.elim hne hnot⟩
      · exact .inl (.inl rfl)
    · rintro ((rfl | h) | ⟨h, hnot⟩)
      · exact .inr ⟨.inr rfl, hn.1⟩
      · exact .inl h
      · exact .inr ⟨.inl ⟨h, fun he => hnot (.inl he)⟩, fun ho => hnot (.inr ho)⟩

/-- Taking names leaves everything of a parameter but its name. -/
theorem exists_of_mem_nameBindings : ∀ {bs : List Binding} {taken : List String} {b : Binding},
    b ∈ nameBindings taken bs → ∃ b' ∈ bs, b = { b' with name := b.name }
  | first :: rest, taken, b, h => by
    rcases List.mem_cons.mp h with rfl | h
    · exact ⟨first, List.mem_cons_self, rfl⟩
    · obtain ⟨b', hb', he⟩ := exists_of_mem_nameBindings h
      exact ⟨b', List.mem_cons_of_mem _ hb', he⟩

/-- The parameters of an operation come from two lists, that of its path and its own. -/
theorem draftParameters_yields {item : PathItem} {o : Operation} {pathPointer : String}
    {bs : List Binding} (h : (draftParameters scope c item o pathPointer pointer).Yields P bs) :
    ∃ shared own,
      (draftParameterList scope c (Pointer.child pathPointer "parameters") [] 0
        item.parameters).Yields P shared ∧
      (draftParameterList scope c (Pointer.child pointer "parameters") [] 0
        o.parameters).Yields P own ∧
      bs = nameBindings [] (overrideBindings shared own) := by
  simp only [draftParameters, Draft.yields_bind, Draft.yields_pure] at h
  obtain ⟨shared, hshared, own, hown, rfl⟩ := h
  exact ⟨shared, own, hshared, hown, rfl⟩

/-! ### Operations -/

/-- An operation yields by its parts. -/
theorem draftOperation_yields {path name : String} {item : PathItem} {method : Method}
    {op : Operation}
    {o : OperationDeclaration} (h : (draftOperation scope d path item method name op).Yields P o) :
    let pathPointer := Pointer.child "#/paths" path
    let pointer := Pointer.child pathPointer method.key
    (draftParameters scope d.components item op pathPointer pointer).Yields P o.parameters ∧
      (draftBody scope d.components op pointer).Yields P o.body ∧
      (draftResponses scope d.components (Pointer.child pointer "responses") op.responses).Yields P
        o.responses := by
  simp only [draftOperation, Draft.yields_bind, Draft.yields_pure] at h
  obtain ⟨parameters, hp, body, hb, responses, hr, rfl⟩ := h
  exact ⟨hp, hb, hr⟩

/-- An operation of the document, by its path and method, has been drafted under some name. -/
def OperationDeclaration.DraftedFrom (scope : Scope) (d : Document) (P : Mention → Prop)
    (source : String × PathItem × Method × Operation) (o : OperationDeclaration) : Prop :=
  ∃ name, (draftOperation scope d source.1 source.2.1 source.2.2.1 name source.2.2.2).Yields P o

theorem draftInOrder_yields : ∀ {sources : List (String × PathItem × Method × Operation)}
    {taken : List String} {os : List OperationDeclaration},
      (draftInOrder scope d taken sources).Yields P os →
      List.Forall₂ (OperationDeclaration.DraftedFrom scope d P) sources os
  | [], _, os, h => by
    rw [draftInOrder, Draft.yields_pure] at h
    exact h ▸ .nil
  | (path, item, method, op) :: rest, taken, os, h => by
    unfold draftInOrder at h
    dsimp only at h
    split at h
    · simp at h
    · simp only [Draft.yields_bind, Draft.yields_pure] at h
      obtain ⟨o, ho, more, hrest, rfl⟩ := h
      exact .cons ⟨_, ho⟩ (draftInOrder_yields hrest)

/-- **The operations drafted** are those of the document, in its order. -/
theorem draftOperations_yields {os : List OperationDeclaration}
    (h : (draftOperations scope d).Yields P os) :
    List.Forall₂ (OperationDeclaration.DraftedFrom scope d P) (operationsOf d.paths) os :=
  draftInOrder_yields h

end ApiDecl
