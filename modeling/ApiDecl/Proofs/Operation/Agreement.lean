import ApiDecl.Proofs.Description.Positions
import ApiDecl.Proofs.Types.Agreement

/-!
# Drafts of operations beside each other

Two operations agree when their parameters, bodies and responses lead to the same definitions, each
in the components of its document, whether by a reference or not.  Drafts of such operations are
related, as drafts of one schema are (`related_draftOperations`).
-/

namespace ApiDecl

/-! ### Entries that lead to the same -/

/-- Both entries lead to the same definitions, if to any. -/
def RefOr.SameLeads {α : Type} (pool : Pool) (definitions definitions' : List (String × RefOr α))
    (entry entry' : RefOr α) : Prop :=
  ∀ a, entry.Leads pool definitions a ↔ entry'.Leads pool definitions' a

theorem RefOr.SameLeads.refl {α : Type} (pool : Pool) (definitions : List (String × RefOr α))
    (entry : RefOr α) : entry.SameLeads pool definitions definitions entry :=
  fun _ => Iff.rfl

/-- What comes of entries that lead to the same is related, if what comes of the definitions is. -/
theorem Draft.Congruence.follow {R : ∀ ⦃α : Type⦄, Draft α → Draft α → Prop}
    (hR : Draft.Congruence R) {α β : Type} {pool : Pool}
    {definitions definitions' : List (String × RefOr α)} {entry entry' : RefOr α}
    (h : entry.SameLeads pool definitions definitions' entry') {next next' : α × String → Draft β}
    (hnext : ∀ a found found', R (next (a, found)) (next' (a, found'))) (place place' : String) :
    R (Draft.ofExcept (entry.follow pool definitions place) >>= next)
      (Draft.ofExcept (entry'.follow pool definitions' place') >>= next') := by
  cases hf : entry.follow pool definitions place with
  | ok followed =>
    obtain ⟨a, found⟩ := followed
    have hl : entry.Leads pool definitions a := ⟨place, found, hf⟩
    obtain ⟨found', hf'⟩ := ((h a).mp hl).follow place'
    rw [hf']
    exact hnext a found found'
  | error error =>
    cases hf' : entry'.follow pool definitions' place' with
    | ok followed =>
      obtain ⟨a, found'⟩ := followed
      have hl : entry'.Leads pool definitions' a := ⟨place', found', hf'⟩
      obtain ⟨found, hf⟩ := ((h a).mpr hl).follow place
      simp_all
    | error error' => exact hR.fail error error'

/-- Both operations lead to the same definitions. -/
structure Operation.Agrees (c c' : Components) (o o' : Operation) : Prop where
  id : o.id = o'.id
  summary : o.summary = o'.summary
  description : o.description = o'.description
  deprecated : o.deprecated = o'.deprecated
  security : o.security = o'.security
  parameters : List.Forall₂ (RefOr.SameLeads .parameter c.parameters c'.parameters)
    o.parameters o'.parameters
  body : Option.Rel (RefOr.SameLeads .body c.bodies c'.bodies) o.body o'.body
  responses : List.Forall₂ (fun entry entry' => entry.1 = entry'.1 ∧
    entry.2.SameLeads .response c.responses c'.responses entry'.2) o.responses o'.responses

/-- Operations by their paths and methods agree, with the parameters that the paths share. -/
def SourceAgrees (c c' : Components) :
    String × PathItem × Method × Operation → String × PathItem × Method × Operation → Prop
  | (path, item, method, o), (path', item', method', o') => path = path' ∧ method = method' ∧
    List.Forall₂ (RefOr.SameLeads .parameter c.parameters c'.parameters)
      item.parameters item'.parameters ∧ o.Agrees c c' o'

/-- An operation agrees with itself, whatever the schemas of the components. -/
theorem Operation.Agrees.refl (c : Components) (schemas : List (String × Node)) (o : Operation) :
    o.Agrees c { c with schemas } o where
  id := rfl
  summary := rfl
  description := rfl
  deprecated := rfl
  security := rfl
  parameters := List.forall₂_same.mpr fun _ _ => RefOr.SameLeads.refl _ _ _
  body := by
    cases o.body with
    | none => exact .none
    | some entry => exact .some (RefOr.SameLeads.refl _ _ _)
  responses := List.forall₂_same.mpr fun _ _ => ⟨rfl, RefOr.SameLeads.refl _ _ _⟩

theorem forall₂_sourceAgrees (c : Components) (schemas : List (String × Node))
    (sources : List (String × PathItem × Method × Operation)) :
    List.Forall₂ (SourceAgrees c { c with schemas }) sources sources :=
  List.forall₂_same.mpr fun _ _ => ⟨rfl, rfl,
    List.forall₂_same.mpr fun _ _ => RefOr.SameLeads.refl _ _ _, Operation.Agrees.refl c schemas _⟩

/-! ### Drafts -/

section Operations

variable {R : ∀ ⦃α : Type⦄, Draft α → Draft α → Prop} {scope scope' : Scope}
  (hR : Scope.Related R scope scope') {c c' : Components} {o o' : Operation}
  {base base' pointer pointer' : String}
include hR

theorem related_draftParameter (p : Parameter) :
    R (draftParameter scope pointer p) (draftParameter scope' pointer' p) := by
  unfold draftParameter
  rw [hR.options]
  cases p.schema with
  | some node =>
    exact hR.congruence.bind (related_draftNode hR node _ _) fun _ => hR.congruence.pure _
  | none => exact hR.congruence.bind (hR.congruence.pure _) fun _ => hR.congruence.pure _

theorem related_draftParameterList : ∀ {entries entries' : List (RefOr Parameter)}
    {seen : List (Location × String)} {index index' : Nat},
    List.Forall₂ (RefOr.SameLeads .parameter c.parameters c'.parameters) entries entries' →
      R (draftParameterList scope c base seen index entries)
        (draftParameterList scope' c' base' seen index' entries')
  | _, _, _, _, _, .nil => hR.congruence.pure []
  | _, _, seen, _, _, .cons h rest => by
    refine hR.congruence.follow h (fun p found found' => ?_) _ _
    dsimp only
    split_ifs
    · exact hR.congruence.fail _ _
    · exact hR.congruence.bind (related_draftParameter hR p) fun _ =>
        hR.congruence.bind (related_draftParameterList rest) fun _ => hR.congruence.pure _

theorem related_draftMedia (mediaType : String) (media : MediaType) :
    R (draftMedia scope pointer mediaType media) (draftMedia scope' pointer' mediaType media) := by
  unfold draftMedia
  split
  · exact related_draftNode hR _ _ _
  · exact hR.congruence.pure _

theorem related_draftBody
    (h : Option.Rel (RefOr.SameLeads .body c.bodies c'.bodies) o.body o'.body) :
    R (draftBody scope c o pointer) (draftBody scope' c' o' pointer') := by
  unfold draftBody
  generalize o.body = body, o'.body = body' at h ⊢
  cases h with
  | none => exact hR.congruence.pure none
  | some h =>
    refine hR.congruence.follow h (fun body found found' => ?_) _ _
    dsimp only
    split
    · exact hR.congruence.pure none
    · exact hR.congruence.bind (related_draftMedia hR _ _) fun _ => hR.congruence.pure _

theorem related_draftResponses : ∀ {sources sources' : List (String × RefOr Response)},
    List.Forall₂ (fun entry entry' => entry.1 = entry'.1 ∧
      entry.2.SameLeads .response c.responses c'.responses entry'.2) sources sources' →
        R (draftResponses scope c base sources) (draftResponses scope' c' base' sources')
  | _, _, .nil => hR.congruence.pure []
  | (status, entry) :: _, (_, entry') :: _, .cons ⟨hstatus, h⟩ rest => by
    obtain rfl : status = _ := hstatus
    refine hR.congruence.follow h (fun response found found' => ?_) _ _
    have hrest {content : Option ResponseContent} :=
      hR.congruence.bind (related_draftResponses rest) fun bindings =>
        hR.congruence.pure (⟨status, content⟩ :: bindings : List ResponseBinding)
    dsimp only
    split
    · exact hR.congruence.bind (hR.congruence.pure none) fun _ => hrest
    · exact hR.congruence.bind (related_draftMedia hR _ _) fun _ =>
        hR.congruence.bind (hR.congruence.pure _) fun _ => hrest

/-- Operations that agree have related drafts. -/
theorem related_draftOperation {d d' : Document} {item item' : PathItem} {path name : String}
    {method : Method} (hsecurity : d.security = d'.security)
    (hitem : List.Forall₂ (RefOr.SameLeads .parameter d.components.parameters
      d'.components.parameters) item.parameters item'.parameters)
    (ho : o.Agrees d.components d'.components o') :
    R (draftOperation scope d path item method name o)
      (draftOperation scope' d' path item' method name o') := by
  unfold draftOperation draftParameters
  rw [hsecurity, ho.security, ho.summary, ho.description, ho.deprecated]
  refine hR.congruence.bind ?_ fun parameters => hR.congruence.bind (related_draftBody hR ho.body)
    fun body => hR.congruence.bind (related_draftResponses hR ho.responses) fun responses =>
      hR.congruence.pure _
  exact hR.congruence.bind (related_draftParameterList hR hitem) fun shared =>
    hR.congruence.bind (related_draftParameterList hR ho.parameters) fun own =>
      hR.congruence.pure _

theorem related_draftInOrder {d d' : Document} (hsecurity : d.security = d'.security) :
    ∀ {sources sources' : List (String × PathItem × Method × Operation)} {taken : List String},
      List.Forall₂ (SourceAgrees d.components d'.components) sources sources' →
        R (draftInOrder scope d taken sources) (draftInOrder scope' d' taken sources')
  | _, _, _, .nil => hR.congruence.pure []
  | (path, item, method, o) :: _, (_, item', _, o') :: _, taken,
      .cons ⟨hpath, hmethod, hitem, ho⟩ rest => by
    subst hpath hmethod
    have hname : operationName scope.options.camelCase path method o =
        operationName scope'.options.camelCase path method o' := by
      unfold operationName
      rw [ho.id, hR.options]
    rw [draftInOrder, draftInOrder, hname]
    split_ifs
    · exact hR.congruence.fail _ _
    · exact hR.congruence.bind (related_draftOperation hR hsecurity hitem ho) fun _ =>
        hR.congruence.bind (related_draftInOrder hsecurity rest) fun _ => hR.congruence.pure _

/-- **Drafts of operations** that agree one by one are related. -/
theorem related_draftOperations {d d' : Document} (hsecurity : d.security = d'.security)
    (h : List.Forall₂ (SourceAgrees d.components d'.components) (operationsOf d.paths)
      (operationsOf d'.paths)) :
    R (draftOperations scope d) (draftOperations scope' d') :=
  related_draftInOrder hR hsecurity h

end Operations

/-- **The draft of operations** mentions what is resolved. -/
theorem only_draftOperations (scope : Scope) (d : Document) :
    (draftOperations scope d).Only scope.Resolves :=
  related_draftOperations (related_only scope) rfl (forall₂_sourceAgrees d.components _ _)

end ApiDecl
