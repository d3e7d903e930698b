import ApiDecl.Operation.OfDocument
import ApiDecl.Proofs.Types.Labels

/-!
# Options decide on labels of operations alone

The label of a parameter is its name; the name of an operation is none, and depends on the camel case.  Parameters are told apart, and overridden, by their locations and
wire names, so in two scopes that resolve alike the drafts of one document's operations are the same up
to labels (`sameUpTo_draftOperations`), with the very same programs for bodies and responses.
-/

namespace ApiDecl

/-! ### Operations without labels -/

/-- The parameter without its name and the labels in its type. -/
def Binding.bare (b : Binding) : Binding := { b with name := "", ty := b.ty.bare }

/-- The body without the labels in its type. -/
def BodyBinding.bare (b : BodyBinding) : BodyBinding := { b with ty := b.ty.bare }

/-- What a response holds, without the labels in its type. -/
def ResponseContent.bare (c : ResponseContent) : ResponseContent := { c with ty := c.ty.bare }

/-- The response without the labels in its type. -/
def ResponseBinding.bare (r : ResponseBinding) : ResponseBinding :=
  { r with content := r.content.map ResponseContent.bare }

/-- The operation without the names of parameters and the labels in types. -/
def OperationDeclaration.bare (o : OperationDeclaration) : OperationDeclaration :=
  { o with
    parameters := o.parameters.map Binding.bare
    body := o.body.map BodyBinding.bare
    responses := o.responses.map ResponseBinding.bare }

/-- Pruning programs leaves labels alone. -/
theorem OperationDeclaration.bare_prune (o : OperationDeclaration) (live : LiveNames) :
    (o.prune live).bare = o.bare.prune live := by
  simp only [bare, prune, List.map_map, Option.map_map, OperationDeclaration.mk.injEq, true_and,
    and_true]
  refine ⟨rfl, List.map_congr_left fun r _ => ?_⟩
  simp only [Function.comp_apply, ResponseBinding.bare, Option.map_map]
  rfl

/-! ### Parameters -/

/-- Parameters override each other by what is no label. -/
theorem map_bare_overrideBindings (shared own : List Binding) :
    (overrideBindings shared own).map Binding.bare =
      overrideBindings (shared.map Binding.bare) (own.map Binding.bare) := by
  unfold overrideBindings
  rw [List.foldl_map]
  refine (List.foldl_hom (List.map Binding.bare) fun bindings b => ?_).symm
  rw [List.map_append, List.map_singleton, List.filter_map]
  rfl

/-- Claiming names gives labels. -/
theorem map_bare_nameBindings : ∀ (bs : List Binding) (taken : List String),
    (nameBindings taken bs).map Binding.bare = bs.map Binding.bare
  | [], _ => rfl
  | b :: bs, taken => by
    rw [nameBindings, List.map_cons, List.map_cons, map_bare_nameBindings bs]
    rfl

/-! ### Drafts -/

section Drafts

variable {scope scope' : Scope} (hr : scope.resolve = scope'.resolve) {c : Components}
  {base pointer : String}
include hr

theorem sameUpTo_draftParameter (p : Parameter) :
    (draftParameter scope pointer p).SameUpTo Binding.bare (draftParameter scope' pointer p) := by
  have hlabel {ty ty' : Ty} (h : ty.bare = ty'.bare) :
      (⟨scope.options.identifier p.name, p.name, p.location, p.required || p.location = .path,
        ty⟩ : Binding).bare =
      (⟨scope'.options.identifier p.name, p.name, p.location, p.required || p.location = .path,
        ty'⟩ : Binding).bare :=
    congrArg (fun ty => (⟨"", p.name, p.location, p.required || p.location = .path, ty⟩ : Binding)) h
  unfold draftParameter
  cases p.schema with
  | some node =>
    exact (sameUpTo_draftNode hr node _).bind fun ty ty' hty => Draft.sameUpTo_pure (hlabel hty)
  | none => exact Draft.sameUpTo_bind_self fun ty => Draft.sameUpTo_pure (hlabel rfl)

theorem sameUpTo_draftParameterList : ∀ {entries : List (RefOr Parameter)}
    {seen : List (Location × String)} {index : Nat},
      (draftParameterList scope c base seen index entries).SameUpTo (List.map Binding.bare)
        (draftParameterList scope' c base seen index entries)
  | [], _, _ => Draft.SameUpTo.refl _ _
  | entry :: entries, seen, index => by
    refine Draft.sameUpTo_bind_self fun ⟨p, place⟩ => ?_
    dsimp only
    split_ifs
    · exact Draft.SameUpTo.refl _ _
    · refine (sameUpTo_draftParameter hr p).bind fun b b' hb =>
        sameUpTo_draftParameterList.bind fun bs bs' hbs => Draft.sameUpTo_pure ?_
      rw [List.map_cons, List.map_cons, hb, hbs]

theorem sameUpTo_draftParameters (item : PathItem) (o : Operation) (pathPointer : String) :
    (draftParameters scope c item o pathPointer pointer).SameUpTo (List.map Binding.bare)
      (draftParameters scope' c item o pathPointer pointer) := by
  unfold draftParameters
  refine (sameUpTo_draftParameterList hr).bind fun shared shared' hshared =>
    (sameUpTo_draftParameterList hr).bind fun own own' hown => Draft.sameUpTo_pure ?_
  rw [map_bare_nameBindings, map_bare_nameBindings, map_bare_overrideBindings,
    map_bare_overrideBindings, hshared, hown]

theorem sameUpTo_draftMedia (mediaType : String) (media : MediaType) :
    (draftMedia scope pointer mediaType media).SameUpTo Ty.bare
      (draftMedia scope' pointer mediaType media) := by
  unfold draftMedia
  split
  · exact sameUpTo_draftNode hr _ _
  · exact Draft.SameUpTo.refl _ _

theorem sameUpTo_draftBody (o : Operation) :
    (draftBody scope c o pointer).SameUpTo (Option.map BodyBinding.bare)
      (draftBody scope' c o pointer) := by
  unfold draftBody
  split
  · exact Draft.SameUpTo.refl _ _
  · refine Draft.sameUpTo_bind_self fun ⟨body, place⟩ => ?_
    dsimp only
    split
    · exact Draft.SameUpTo.refl _ _
    · refine (sameUpTo_draftMedia hr _ _).bind fun ty ty' hty => Draft.sameUpTo_pure ?_
      simp only [Option.map_some, BodyBinding.bare, hty, Ty.links_eq_of_bare hty]

theorem sameUpTo_draftResponses : ∀ sources : List (String × RefOr Response),
    (draftResponses scope c base sources).SameUpTo (List.map ResponseBinding.bare)
      (draftResponses scope' c base sources)
  | [] => Draft.SameUpTo.refl _ _
  | (status, entry) :: sources => by
    refine Draft.sameUpTo_bind_self fun ⟨response, place⟩ => ?_
    have hrest {content content' : Option ResponseContent}
        (h : content.map ResponseContent.bare = content'.map ResponseContent.bare) :=
      (sameUpTo_draftResponses sources).bind fun bindings bindings' hb =>
        Draft.sameUpTo_pure
          (show (⟨status, content⟩ :: bindings : List ResponseBinding).map ResponseBinding.bare =
              (⟨status, content'⟩ :: bindings').map ResponseBinding.bare by
            rw [List.map_cons, List.map_cons, hb, ResponseBinding.bare, ResponseBinding.bare, h])
    dsimp only
    split
    · exact Draft.sameUpTo_bind_self fun content => hrest rfl
    · refine (sameUpTo_draftMedia hr _ _).bind fun ty ty' hty =>
        (Draft.sameUpTo_pure ?_).bind fun content content' hc => hrest hc
      simp only [Option.map_some, ResponseContent.bare, hty, Ty.links_eq_of_bare hty]

theorem sameUpTo_draftOperation (d : Document) (path : String) (item : PathItem) (method : Method)
    (name : String) (o : Operation) :
    (draftOperation scope d path item method name o).SameUpTo OperationDeclaration.bare
      (draftOperation scope' d path item method name o) := by
  unfold draftOperation
  refine (sameUpTo_draftParameters hr _ _ _).bind fun parameters parameters' hp =>
    (sameUpTo_draftBody hr _).bind fun body body' hb =>
      (sameUpTo_draftResponses hr _).bind fun responses responses' hs => Draft.sameUpTo_pure ?_
  simp only [OperationDeclaration.bare, hp, hb, hs]

theorem sameUpTo_draftInOrder (hcase : scope.options.camelCase = scope'.options.camelCase)
    (d : Document) :
    ∀ {sources : List (String × PathItem × Method × Operation)} {taken : List String},
      (draftInOrder scope d taken sources).SameUpTo (List.map OperationDeclaration.bare)
        (draftInOrder scope' d taken sources)
  | [], _ => Draft.SameUpTo.refl _ _
  | (path, item, method, o) :: sources, taken => by
    rw [draftInOrder, draftInOrder, hcase]
    split_ifs
    · exact Draft.SameUpTo.refl _ _
    · refine (sameUpTo_draftOperation hr d _ _ _ _ _).bind fun own own' ho =>
        (sameUpTo_draftInOrder hcase d).bind fun more more' hm => Draft.sameUpTo_pure ?_
      rw [List.map_cons, List.map_cons, ho, hm]

/-- **The drafts of operations** are the same up to labels under all options with one camel case. -/
theorem sameUpTo_draftOperations (hcase : scope.options.camelCase = scope'.options.camelCase)
    (d : Document) :
    (draftOperations scope d).SameUpTo (List.map OperationDeclaration.bare)
      (draftOperations scope' d) :=
  sameUpTo_draftInOrder hr hcase d

end Drafts

end ApiDecl
