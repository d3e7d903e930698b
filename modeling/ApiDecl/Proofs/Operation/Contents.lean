import ApiDecl.Proofs.Description.Positions
import ApiDecl.Proofs.Payload.Conversion
import ApiDecl.Proofs.Types.Contents

/-!
# What the types of operations hold

An operation shows types for its parameters, its body and its responses.  Each is the type of a
schema of the document, or one that stands for a missing schema, and so it has the properties that
drafts give (`OperationDeclaration.DraftedFrom.each`).
-/

namespace ApiDecl

/-- The operation shows the type, for a parameter, for its body or for a response. -/
inductive OperationDeclaration.Shows (o : OperationDeclaration) : Ty → Prop
  | parameter {b : Binding} : b ∈ o.parameters → Shows o b.ty
  | payload {ty : Ty} {links : Links} : o.Carries ty links → Shows o ty

theorem OperationDeclaration.shows_prune {o : OperationDeclaration} {live : LiveNames} {ty : Ty}
    (h : (o.prune live).Shows ty) : o.Shows ty := by
  cases h with
  | parameter hb => exact .parameter hb
  | payload hc =>
    obtain ⟨own, hown, -⟩ := carries_prune hc
    exact .payload hown

variable {scope : Scope} {P : Mention → Prop} {R : Node → Prop} {Q : Ty → Prop}
  (hQ : Ty.MadeWith scope P R Q) {c : Components} {base pointer : String}
include hQ

theorem each_draftMedia {mediaType : String} {media : MediaType} {ty : Ty}
    (hR : ∀ node, media.schema = some node → R node)
    (h : (draftMedia scope pointer mediaType media).Yields P ty) : ty.Each Q := by
  unfold draftMedia at h
  split at h
  · next node hn =>
    have hd : Drafted scope P node ty := ⟨_, h⟩
    exact hd.each hQ node (hR node hn)
  · obtain rfl := Draft.yields_pure.mp h
    exact each_any hQ

theorem each_draftParameter {p : Parameter} {b : Binding}
    (hR : ∀ node, p.schema = some node → R node)
    (h : (draftParameter scope pointer p).Yields P b) : b.ty.Each Q := by
  unfold draftParameter at h
  dsimp only at h
  split at h
  · next node hn =>
    obtain ⟨ty, ht, h⟩ := Draft.yields_bind.mp h
    obtain rfl := Draft.yields_pure.mp h
    have hd : Drafted scope P node ty := ⟨_, ht⟩
    exact hd.each hQ node (hR node hn)
  · obtain ⟨ty, ht, h⟩ := Draft.yields_bind.mp h
    obtain rfl := Draft.yields_pure.mp h
    obtain rfl := Draft.yields_pure.mp ht
    exact Ty.each_scalar hQ.scalar

theorem each_draftParameterList {entries : List (RefOr Parameter)} {bs : List Binding}
    (hR : ∀ entry ∈ entries, ∀ p, entry.Leads .parameter c.parameters p →
      ∀ node, p.schema = some node → R node)
    (h : (draftParameterList scope c base [] 0 entries).Yields P bs) :
    ∀ b ∈ bs, b.ty.Each Q := by
  intro b hb
  obtain ⟨⟨entry, index⟩, hm, p, place, hf, hy⟩ :=
    exists_of_forall₂_right (draftParameterList_yields h).1 hb
  have he : entry ∈ entries := List.fst_mem_of_mem_zipIdx hm
  exact each_draftParameter hQ (hR entry he p ⟨_, _, hf⟩) hy

/-- Names and overriding leave the types of parameters alone. -/
theorem each_draftParameters {item : PathItem} {op : Operation} {pathPointer : String}
    (hR : ∀ entry ∈ item.parameters ++ op.parameters, ∀ p,
      entry.Leads .parameter c.parameters p → ∀ node, p.schema = some node → R node)
    {bs : List Binding} (h : (draftParameters scope c item op pathPointer pointer).Yields P bs) :
    ∀ b ∈ bs, b.ty.Each Q := by
  obtain ⟨shared, own, hshared, hown, rfl⟩ := draftParameters_yields h
  rw [List.forall_mem_append] at hR
  intro b hb
  obtain ⟨b', hb', hnamed⟩ := exists_of_mem_nameBindings hb
  have hty : b.ty = b'.ty := by rw [hnamed]
  rw [hty]
  rw [mem_overrideBindings (draftParameterList_yields hown).2.1] at hb'
  rcases hb' with hb' | ⟨hb', -⟩
  · exact each_draftParameterList hQ hR.2 hown b' hb'
  · exact each_draftParameterList hQ hR.1 hshared b' hb'

/-- **The types that an operation shows** have the properties that drafts give. -/
theorem OperationDeclaration.DraftedFrom.each {d : Document}
    (hR : ∀ node, d.Contains node → R node)
    {source : String × PathItem × Method × Operation} (hsource : source ∈ operationsOf d.paths)
    {o : OperationDeclaration} (h : o.DraftedFrom scope d P source) {ty : Ty} (hs : o.Shows ty) :
    ty.Each Q := by
  obtain ⟨path, item, method, op⟩ := source
  obtain ⟨name, hy⟩ := h
  obtain ⟨hparameters, hbody, hresponses⟩ := draftOperation_yields hy
  cases hs with
  | parameter hb =>
    refine each_draftParameters hQ (fun entry he p hl node hn => hR node ?_) hparameters _ hb
    have hopened : entry ∈ d.openedParameters := List.mem_flatMap.mpr ⟨_, hsource, he⟩
    exact (Document.Opens.parameter hopened hl hn).contains
  | payload hc =>
    rcases hc with ⟨b, ho, rfl, -⟩ | ⟨r, hm, content, hcontent, rfl, -⟩
    · rw [ho] at hbody
      obtain ⟨entry, body, place, mediaType, media, hentry, hf, hmedia, ht, -⟩ :=
        draftBody_yields hbody
      refine each_draftMedia hQ (fun node hn => hR node ?_) ht
      have hopened : entry ∈ d.openedBodies := List.mem_filterMap.mpr ⟨_, hsource, hentry⟩
      exact (Document.Opens.body hopened ⟨_, _, hf⟩ hmedia hn).contains
    · obtain ⟨⟨status, entry⟩, he, response, place, hf, hall⟩ :=
        exists_of_forall₂_right (draftResponses_yields hresponses) hm
      obtain ⟨mediaType, media, hmedia, ht, -⟩ := hall content hcontent
      refine each_draftMedia hQ (fun node hn => hR node ?_) ht
      have hopened : entry ∈ d.openedResponses :=
        List.mem_flatMap.mpr ⟨_, hsource, List.mem_map_of_mem he⟩
      exact (Document.Opens.response hopened ⟨_, _, hf⟩ hmedia hn).contains

end ApiDecl
