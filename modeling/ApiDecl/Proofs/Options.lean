import ApiDecl.Proofs.Closed
import ApiDecl.Proofs.Compilation
import ApiDecl.Proofs.Operation.Labels

/-!
# Options decide on labels alone

Under all options a compilation enters the same components, comes to the same error or to the same
programs, and its types are the same without labels: every step keeps this of two compilations side by
side (`Progress.sameUpTo_run`).  Only one option goes further, by which operations are left out.  It does
not change what is declared as long as operations refer to no component that its own pointer misses,
because then they lead to what has been entered before (`Document.compile_labels`).
-/

namespace ApiDecl

/-! ### Compiling named schemas -/

/-- The scopes have the same components, whatever their options. -/
structure Scope.SameComponents (scope scope' : Scope) : Prop where
  schemas : scope.schemas = scope'.schemas
  names : scope.names = scope'.names

theorem Scope.SameComponents.resolve {scope scope' : Scope} (h : scope.SameComponents scope') :
    scope.resolve = scope'.resolve := by
  funext pointer
  unfold Scope.resolve
  rw [h.schemas, h.names]

/-- The named type without its documentation and the labels inside. -/
def NamedType.bare (t : NamedType) : NamedType :=
  { t with ty := t.ty.bare, description := none, deprecated := false }

/-- The component under way without labels in its type. -/
def Underway.bare (u : Underway) : Underway := { u with result := u.result.map Ty.bare }

/-- The result without labels. -/
def Progress.Compiled.bare (c : Progress.Compiled) : Progress.Compiled :=
  { c with types := c.types.map NamedType.bare }

namespace Progress

/-- How far the compilation has come, without labels. -/
def bare (p : Progress) : Progress := { p with types := p.types.map NamedType.bare }

theorem bare_eq_iff {p p' : Progress} : p.bare = p'.bare ↔ p.entered = p'.entered ∧
    p.types.map NamedType.bare = p'.types.map NamedType.bare ∧ p.table = p'.table ∧
      p.references = p'.references := by
  rw [bare, bare, Progress.mk.injEq]

/-- The compilations have come equally far up to labels, to the same error or to values that a function
maps to the same. -/
inductive SameUpTo {α β : Type} (f : α → β) :
    Progress × Except Error α → Progress × Except Error α → Prop
  | ok {p p' : Progress} {a a' : α} : p.bare = p'.bare → f a = f a' → SameUpTo f (p, .ok a) (p', .ok a')
  | error {p p' : Progress} {error : Error} : p.bare = p'.bare →
      SameUpTo f (p, .error error) (p', .error error)

theorem sameUpTo_of_map_eq {α β : Type} {f : α → β} {p p' : Progress} {result result' : Except Error α}
    (hp : p.bare = p'.bare) (hr : result.map f = result'.map f) :
    SameUpTo f (p, result) (p', result') := by
  cases result with
  | error error =>
    cases result' with
    | error error' =>
      obtain rfl : error = error' := Except.error.inj hr
      exact .error hp
    | ok a' => cases hr
  | ok a =>
    cases result' with
    | error error' => cases hr
    | ok a' => exact .ok hp (Except.ok.inj hr)

theorem refer_congr {p p' : Progress} (hp : p.bare = p'.bare) (m : Mention) :
    (p.refer m).bare = (p'.refer m).bare := by
  have hbare (p : Progress) : (p.refer m).bare = p.bare.refer m := by
    unfold refer bare
    split_ifs <;> rfl
  rw [hbare, hbare, hp]

theorem enter_congr {p p' : Progress} (hp : p.bare = p'.bare) (m : Mention) :
    (p.enter m).bare = (p'.enter m).bare :=
  congrArg (enter · m) hp

/-- A component is under way on both sides. -/
theorem map_bare_cons {m : Mention} {node : Node} {rest : List Mention}
    {result result' : Except Error Ty} {stack stack' : List Underway}
    (hr : result.map Ty.bare = result'.map Ty.bare)
    (hs : stack.map Underway.bare = stack'.map Underway.bare) :
    (⟨m, node, rest, result⟩ :: stack : List Underway).map Underway.bare =
      (⟨m, node, rest, result'⟩ :: stack').map Underway.bare := by
  simp only [List.map_cons, Underway.bare, hr, hs]

theorem exists_of_map_bare_cons {m : Mention} {node : Node} {rest : List Mention}
    {result : Except Error Ty} {stack stack' : List Underway}
    (h : (⟨m, node, rest, result⟩ :: stack : List Underway).map Underway.bare =
      stack'.map Underway.bare) :
    ∃ result' below, stack' = ⟨m, node, rest, result'⟩ :: below ∧
      result.map Ty.bare = result'.map Ty.bare ∧
      stack.map Underway.bare = below.map Underway.bare := by
  obtain ⟨⟨m', node', rest', result'⟩, below, rfl, hu, hbelow⟩ := List.map_eq_cons_iff.mp h.symm
  obtain ⟨hmention, hnode, hrest, hresult⟩ := Underway.mk.injEq .. ▸ hu
  dsimp only at hmention hnode hrest hresult
  subst hmention hnode hrest
  exact ⟨result', below, rfl, hresult.symm, hbelow.symm⟩

section SameComponents

variable {scope scope' : Scope} (h : scope.SameComponents scope') {p p' : Progress}
include h

theorem unentered?_congr (hp : p.bare = p'.bare) (m : Mention) :
    p.unentered? scope m = p'.unentered? scope' m := by
  unfold unentered?
  rw [(bare_eq_iff.mp hp).1, h.schemas, h.names]

theorem bare_underway (m : Mention) (node : Node) :
    (underway scope m node).bare = (underway scope' m node).bare := by
  obtain ⟨hm, hr⟩ := sameUpTo_draftNode h.resolve node (Pool.schema.pointer m.component)
  simp only [underway, Underway.bare, hm, hr]

omit h in
theorem complete_congr (hp : p.bare = p'.bare) (m : Mention) (node : Node) {ty ty' : Ty}
    (hty : ty.bare = ty'.bare) :
    (p.complete scope m node ty).bare = (p'.complete scope' m node ty').bare := by
  obtain ⟨hentered, htypes, htable, hreferences⟩ := bare_eq_iff.mp hp
  simp only [complete, bare, List.map_append, List.map_singleton, htypes, hentered, htable,
    hreferences, NamedType.bare, hty, Ty.programs_eq_of_bare hty]

/-- **Components under way** come equally far up to labels. -/
theorem sameUpTo_run {stack stack' : List Underway} (hp : p.bare = p'.bare)
    (hs : stack.map Underway.bare = stack'.map Underway.bare) :
    SameUpTo id (run scope p stack) (run scope' p' stack') := by
  fun_induction Progress.run scope p stack generalizing p' stack' with
  | case1 p =>
    obtain rfl := List.map_eq_nil_iff.mp hs.symm
    rw [run]
    exact .ok hp rfl
  | case2 p m node ty stack ih =>
    obtain ⟨result', below, rfl, hresult, hbelow⟩ := exists_of_map_bare_cons hs
    cases result' with
    | error error => cases hresult
    | ok ty' =>
      rw [run]
      exact ih (complete_congr hp m node (Except.ok.inj hresult)) hbelow
  | case3 p m node error stack =>
    obtain ⟨result', below, rfl, hresult, hbelow⟩ := exists_of_map_bare_cons hs
    cases result' with
    | error error' =>
      obtain rfl : error = error' := Except.error.inj hresult
      rw [run]
      exact .error hp
    | ok ty' => cases hresult
  | case4 p m node next rest result stack hn ih =>
    obtain ⟨result', below, rfl, hresult, hbelow⟩ := exists_of_map_bare_cons hs
    rw [unentered?_congr h hp] at hn
    rw [run]
    split
    · exact ih (refer_congr hp next) (map_bare_cons hresult hbelow)
    · next child hchild =>
      rw [hn] at hchild
      cases hchild
  | case5 p m node next rest result stack child hn ih =>
    obtain ⟨result', below, rfl, hresult, hbelow⟩ := exists_of_map_bare_cons hs
    rw [unentered?_congr h hp] at hn
    rw [run]
    split
    · next hnone =>
      rw [hn] at hnone
      cases hnone
    · next child' hchild =>
      obtain rfl : child = child' := Option.some.inj (hn.symm.trans hchild)
      refine ih (refer_congr (enter_congr hp next) next) ?_
      rw [List.map_cons, bare_underway h, map_bare_cons hresult hbelow]
      rfl

theorem sameUpTo_follow {mentions : List Mention} (hp : p.bare = p'.bare) :
    SameUpTo id (p.follow scope mentions) (p'.follow scope' mentions) := by
  induction mentions generalizing p p' with
  | nil => exact .ok hp rfl
  | cons m rest ih =>
    rw [follow, follow, ← unentered?_congr h hp]
    cases p.unentered? scope m with
    | none => exact ih (refer_congr hp m)
    | some node =>
      have hunderway : [underway scope m node].map Underway.bare =
          [underway scope' m node].map Underway.bare :=
        congrArg (fun u => [u]) (bare_underway h m node)
      have hrun := sameUpTo_run h (refer_congr (enter_congr hp m) m) hunderway
      dsimp only
      generalize run scope ((p.enter m).refer m) [underway scope m node] = outcome,
        run scope' ((p'.enter m).refer m) [underway scope' m node] = outcome' at hrun ⊢
      cases hrun with
      | ok hq => exact ih hq
      | error hq => exact .error hq

/-- **Drafts that are the same** under a function count alike, up to labels. -/
theorem sameUpTo_draft {α β : Type} {f : α → β} {draft draft' : Draft α} (hp : p.bare = p'.bare)
    (hd : draft.SameUpTo f draft') : SameUpTo f (p.draft scope draft) (p'.draft scope' draft') := by
  have hfollow : SameUpTo id (p.follow scope draft.mentions) (p'.follow scope' draft'.mentions) := by
    rw [← hd.1]
    exact sameUpTo_follow h hp
  unfold Progress.draft
  generalize p.follow scope draft.mentions = outcome,
    p'.follow scope' draft'.mentions = outcome' at hfollow ⊢
  cases hfollow with
  | ok hq => exact sameUpTo_of_map_eq hq hd.2
  | error hq => exact .error hq

theorem sameUpTo_components (hp : p.bare = p'.bare) :
    SameUpTo id (p.components scope) (p'.components scope') := by
  have hreferences : (scope.names.map fun entry =>
      draftReference scope (Pool.schema.pointer entry.1)) =
        scope'.names.map fun entry => draftReference scope' (Pool.schema.pointer entry.1) := by
    rw [h.names]
    exact List.map_congr_left fun entry _ => draftReference_congr h.resolve _
  unfold components
  rw [hreferences]
  generalize Draft.all _ = draft
  have hdraft := sameUpTo_draft h hp (Draft.SameUpTo.refl id draft)
  generalize p.draft scope draft = outcome, p'.draft scope' draft = outcome' at hdraft ⊢
  cases hdraft with
  | ok hq => exact .ok hq rfl
  | error hq => exact .error hq

end SameComponents

/-- Mentions of components that have been entered are remembered, and nothing else. -/
theorem follow_of_entered {scope : Scope} {p : Progress} {mentions : List Mention}
    (h : ∀ m ∈ mentions, m.name ∈ p.entered) :
    (p.follow scope mentions).1.types = p.types ∧ (p.follow scope mentions).1.table = p.table := by
  induction mentions generalizing p with
  | nil => exact ⟨rfl, rfl⟩
  | cons m rest ih =>
    rw [List.forall_mem_cons] at h
    have hn : p.unentered? scope m = none := by
      unfold unentered?
      rw [if_pos (by rw [List.contains_iff_mem.mpr h.1]; rfl)]
    rw [follow, hn, ← types_refer p m, ← table_refer p m]
    exact ih (by rw [entered_refer]; exact h.2)

theorem type?_bare (p : Progress) (name : String) :
    p.bare.type? name = (p.type? name).map NamedType.bare := by
  unfold type? bare
  rw [List.find?_map]
  rfl

/-- A compilation is finished without regard to labels. -/
theorem bare_finish (scope : Scope) (p : Progress) :
    (p.finish scope).map Compiled.bare = p.bare.finish scope := by
  have hmissing : p.bare.references.find? (fun entry => (p.bare.type? entry.1).isNone) =
      p.references.find? fun entry => (p.type? entry.1).isNone := by
    simp only [type?_bare, Option.isNone_map]
    rfl
  unfold finish
  rw [hmissing]
  cases p.references.find? fun entry => (p.type? entry.1).isNone with
  | some entry => rfl
  | none =>
    simp only [type?_bare, Except.map, Compiled.bare, List.map_filterMap]
    rfl

end Progress

/-! ### Declarations -/

/-- The declaration of a type without labels, whether as an enumeration or as an alias. -/
def TypeDeclaration.bare (t : TypeDeclaration) : TypeDeclaration := ⟨t.named.bare, false⟩

/-- Declarations without labels. -/
def Declarations.bare (l : Declarations) : Declarations :=
  { l with
    types := l.types.map TypeDeclaration.bare
    operations := l.operations.map OperationDeclaration.bare }

namespace Document

variable {d : Document} {options options' : CasedOptions}

theorem sameComponents (d : Document) (options options' : CasedOptions) :
    (Scope.ofDocument d options).SameComponents (Scope.ofDocument d options') :=
  ⟨rfl, rfl⟩

theorem sameUpTo_compileOperations (hcase : options.camelCase = options'.camelCase)
    (honly : options.onlyTypes = options'.onlyTypes) {p p' : Progress} (hp : p.bare = p'.bare) :
    Progress.SameUpTo (Prod.map (List.map OperationDeclaration.bare) id)
      (compileOperations (Scope.ofDocument d options) d p)
      (compileOperations (Scope.ofDocument d options') d p') := by
  unfold compileOperations
  rw [Scope.options_ofDocument, Scope.options_ofDocument, honly]
  split_ifs
  · exact .ok hp rfl
  · have h := sameComponents d options options'
    have hdraft := Progress.sameUpTo_draft h hp (sameUpTo_draftOperations h.resolve hcase d)
    generalize p.draft (Scope.ofDocument d options) _ = outcome,
      p'.draft (Scope.ofDocument d options') _ = outcome' at hdraft ⊢
    cases hdraft with
    | error hq => exact .error hq
    | ok hq ho =>
      refine Progress.sameUpTo_of_map_eq hq ?_
      cases AuthConfiguration.ofDocument d with
      | error error => rfl
      | ok auth => exact congrArg (fun operations => Except.ok (operations, auth)) ho

/-- What stages assemble is the same up to labels if their results are. -/
theorem bare_assemble {compiled compiled' : Progress.Compiled}
    {operations operations' : List OperationDeclaration} (auth : AuthConfiguration)
    (hc : compiled.bare = compiled'.bare)
    (ho : operations.map OperationDeclaration.bare = operations'.map OperationDeclaration.bare) :
    (Declarations.assemble d options compiled operations auth).bare =
      (Declarations.assemble d options' compiled' operations' auth).bare := by
  obtain ⟨htypes, htable, hlive⟩ := Progress.Compiled.mk.injEq .. ▸ hc
  have hdeclare (options : CasedOptions) (types : List NamedType) :
      (types.map fun named : NamedType =>
        (⟨named, options.generateEnums && named.ty.isEnumeration⟩ : TypeDeclaration)).map
          TypeDeclaration.bare = (types.map NamedType.bare).map (⟨·, false⟩) := by
    rw [List.map_map, List.map_map]
    rfl
  have hprune (live : LiveNames) (operations : List OperationDeclaration) :
      (operations.map fun o => o.prune live).map OperationDeclaration.bare =
        (operations.map OperationDeclaration.bare).map fun o => o.prune live := by
    rw [List.map_map, List.map_map]
    exact List.map_congr_left fun o _ => o.bare_prune live
  unfold Declarations.assemble Declarations.bare
  dsimp only at htypes htable hlive ⊢
  rw [hdeclare, hdeclare, hprune, hprune, htypes, htable, hlive, ho]

/-- **Declarations** are the same up to labels under all options that ask for the same parts. -/
theorem map_bare_compile (d : Document) (hcase : options.camelCase = options'.camelCase)
    (honly : options.onlyTypes = options'.onlyTypes) :
    (d.compile options).map Declarations.bare = (d.compile options').map Declarations.bare := by
  have hcomponents := Progress.sameUpTo_components (sameComponents d options options')
    (rfl : Progress.start.bare = Progress.start.bare)
  unfold compile
  refine map_bind_congr (f := id) rfl fun _ _ _ => ?_
  dsimp only
  generalize Progress.start.components (Scope.ofDocument d options) = outcome,
    Progress.start.components (Scope.ofDocument d options') = outcome' at hcomponents ⊢
  cases hcomponents with
  | error hp => rfl
  | ok hp =>
    have hoperations := sameUpTo_compileOperations (d := d) hcase honly hp
    dsimp only
    generalize compileOperations (Scope.ofDocument d options) d _ = outcome,
      compileOperations (Scope.ofDocument d options') d _ = outcome' at hoperations ⊢
    cases hoperations with
    | error hq => rfl
    | @ok q q' a a' hq ho =>
      obtain ⟨operations, auth⟩ := a
      obtain ⟨operations', auth'⟩ := a'
      rw [Prod.map_apply, Prod.map_apply, Prod.mk.injEq] at ho
      obtain ⟨ho, rfl : auth = auth'⟩ := ho
      have hfinish : (q.finish (Scope.ofDocument d options)).map Progress.Compiled.bare =
          (q'.finish (Scope.ofDocument d options')).map Progress.Compiled.bare := by
        rw [Progress.bare_finish, Progress.bare_finish, hq]
        rfl
      change (q.finish _ >>= fun compiled =>
          .ok (Declarations.assemble d options compiled operations auth)).map _ =
        (q'.finish _ >>= fun compiled =>
          .ok (Declarations.assemble d options' compiled operations' auth)).map _
      exact map_bind_congr hfinish fun compiled compiled' hc =>
        congrArg Except.ok (bare_assemble auth hc ho)

/-! ### With and without operations -/

section Pointers

variable (hself : ∀ entry ∈ d.components.schemas, ∃ node,
  Pool.schema.find d.components.schemas (Pool.schema.pointer entry.1) = .ok (entry.1, node))
include hself

/-- Once the components have been compiled, whatever a pointer leads to has been entered. -/
theorem mem_entered_of_resolves {p : Progress}
    (hc : Progress.start.components (Scope.ofDocument d options) = (p, .ok ()))
    (hp : p.Tracked (Scope.ofDocument d options) []) {m : Mention}
    (hm : (Scope.ofDocument d options).Resolves m) : m.name ∈ p.entered := by
  obtain ⟨pointer, hm⟩ := hm
  have hcovers := Progress.covers_components (congrArg Prod.snd hc)
  rw [hc] at hcovers
  obtain ⟨-, -, hnamed⟩ := Scope.find_of_resolve hm
  obtain ⟨own, hown, hr⟩ := hcovers _ hnamed
  rw [← Scope.name_eq_of_resolve_pointer hself hm hown, ← hp.references]
  rwa [Progress.Referred, Member.has, Option.isSome_iff_ne_none, Ne, Member.lookup_eq_none_iff,
    not_not] at hr

/-- Types and programs come of the components alone, with or without operations. -/
theorem exists_components_of_compile {l : Declarations} (hl : d.compile options = .ok l) :
    ∃ p, Progress.start.components (Scope.ofDocument d options) = (p, .ok ()) ∧
      l.types.map TypeDeclaration.named =
        (Scope.ofDocument d options).names.filterMap (fun entry => p.type? entry.2) ∧
      l.table = p.table.prune.1 := by
  obtain ⟨-, p, q, operations, auth, compiled, hc, ho, hf, rfl⟩ := Declarations.compile_eq_ok.mp hl
  obtain ⟨p', hc', hclear⟩ := (flawless_of_compile hl).components_eq_ok
  obtain rfl : p = p' := congrArg Prod.fst (hc.symm.trans hc')
  obtain ⟨htypes, htable⟩ : q.types = p.types ∧ q.table = p.table := by
    rw [Declarations.compileOperations_eq_ok] at ho
    split_ifs at ho
    · rw [ho.1]
      exact ⟨rfl, rfl⟩
    · have hq := congrArg Prod.fst (Progress.draft_eq (Scope.ofDocument d options) p
        (draftOperations (Scope.ofDocument d options) d))
      rw [ho.1] at hq
      rw [show q = _ from hq]
      exact Progress.follow_of_entered fun m hm =>
        mem_entered_of_resolves hself hc hclear.tracked (only_draftOperations _ d m hm)
  have htype? : q.type? = p.type? := by
    funext name
    rw [Progress.type?, htypes, Progress.type?]
  obtain rfl := Progress.eq_of_finish hf
  refine ⟨p, hc, ?_, ?_⟩
  · simp only [Declarations.assemble, List.map_map, Function.comp_def, List.map_id', htype?]
  · rw [Declarations.assemble, htable]

/-- **Types and programs** are the same under all options, up to labels of types. -/
theorem bare_types_eq_of_compile {l l' : Declarations} (hl : d.compile options = .ok l)
    (hl' : d.compile options' = .ok l') : l.bare.types = l'.bare.types ∧ l.table = l'.table := by
  obtain ⟨p, hc, htypes, htable⟩ := exists_components_of_compile hself hl
  obtain ⟨p', hc', htypes', htable'⟩ := exists_components_of_compile hself hl'
  have hcomponents := Progress.sameUpTo_components (sameComponents d options options')
    (rfl : Progress.start.bare = Progress.start.bare)
  rw [hc, hc'] at hcomponents
  obtain ⟨hp, -⟩ | - := hcomponents
  have hbare (l : Declarations) : l.bare.types =
      ((l.types.map TypeDeclaration.named).map NamedType.bare).map (⟨·, false⟩) := by
    rw [List.map_map, List.map_map]
    rfl
  refine ⟨?_, by rw [htable, htable', (Progress.bare_eq_iff.mp hp).2.2.1]⟩
  simp only [hbare, htypes, htypes', List.map_filterMap, ← Progress.type?_bare, hp]
  rfl

end Pointers

/-- **Options decide on labels alone**, whatever camel case they are carried out with.  Those that ask for
the same parts come to the same error or to declarations that are the same without labels.  Those that differ in the parts they ask for still
declare the same types up to labels, with the same table, when the pointer of every component leads to
that component. -/
theorem compile_labels (d : Document) (camelCase : String → String) :
    (∀ options options' : Options, options.onlyTypes = options'.onlyTypes →
      (d.compile ⟨options, camelCase⟩).map Declarations.bare =
        (d.compile ⟨options', camelCase⟩).map Declarations.bare) ∧
    ((∀ entry ∈ d.components.schemas, ∃ node,
        Pool.schema.find d.components.schemas (Pool.schema.pointer entry.1) =
          .ok (entry.1, node)) →
      ∀ (options options' : Options) (l l' : Declarations),
        d.compile ⟨options, camelCase⟩ = .ok l → d.compile ⟨options', camelCase⟩ = .ok l' →
          l.bare.types = l'.bare.types ∧ l.table = l'.table) :=
  ⟨fun _ _ honly => map_bare_compile d rfl honly,
    fun hself _ _ _ _ hl hl' => bare_types_eq_of_compile hself hl hl'⟩

end Document

/-! ### A component by another pointer -/

/-- Shifts that start at a day. -/
def shiftNode : Node := .schema ⟨{ Facets.empty with types := some (.one "object") },
  ⟨[("starts_at", .schema ⟨{ Facets.empty with types := some (.one "string"), format := some "date" },
    ⟨[], none, none, none, none, none⟩⟩)], none, none, none, none, none⟩⟩

/-- A text, a shift by some name, and an operation that responds with what a pointer leads to. -/
def shiftDocument (component pointer : String) : Document :=
  { itemDocument with
    paths := [("/", ⟨[(.get, ⟨some "next", none, none, false, [], [], none, [("200", .inline ⟨none,
      [("application/json", ⟨some (.schema ⟨{ Facets.empty with reference := some pointer },
        ⟨[], none, none, none, none, none⟩⟩)⟩)]⟩)], none⟩)], []⟩)]
    components := ⟨[("A", .schema ⟨{ Facets.empty with types := some (.one "string") },
      ⟨[], none, none, none, none, none⟩⟩), (component, shiftNode)], [], [], [], []⟩ }

/-- The declarations of the text, perhaps of the shift, and of operations. -/
def shiftDeclarations (shifts : List NamedType) (operations : List OperationDeclaration)
    (table : Table) : Declarations :=
  { itemDeclarations with
    types := ⟨⟨"A", "A", .scalar .string none, none, false⟩, false⟩ :: shifts.map (⟨·, false⟩)
    operations := operations
    table := table }

/-- The type of a shift, whose field has some label. -/
def shiftType (name component label : String) : NamedType :=
  ⟨name, component, .object [⟨label, "starts_at", .scalar .string (some "date"), false, none, false⟩]
    none, none, false⟩

/-- The programs of a shift. -/
def shiftTable (name : String) : Table := ⟨some [(name, [[.access "starts_at", .this]])], none⟩

/-- The declaration of the operation, which responds with the type of a name. -/
def shiftOperation (name : String) : OperationDeclaration :=
  ⟨"next", .get, "/", [], none, [⟨"200", some ⟨"application/json", .json, .reference name,
    ⟨[[.ref name]], []⟩⟩⟩], [], none, none, false⟩

/-- Types alone are asked for, and the names of fields as they are. -/
def plainOptions : Options := ⟨true, false, .preserve, false⟩

set_option maxRecDepth 10000 in
theorem compile_shiftDocument : (shiftDocument "Shift" "#/components/schemas/Shift").compile .default =
    .ok (shiftDeclarations [shiftType "Shift" "Shift" "startsAt"] [shiftOperation "Shift"]
      (shiftTable "Shift")) := by
  cbv

set_option maxRecDepth 10000 in
theorem compile_plainOptions :
    (shiftDocument "Shift" "#/components/schemas/Shift").compile plainOptions.cased =
      .ok (shiftDeclarations [shiftType "Shift" "Shift" "starts_at"] [] (shiftTable "Shift")) := by
  cbv

/-- With operations and without, and by either name of its field, the shift is declared with the same
programs. -/
theorem Document.compile_labels_shift :
    let d := shiftDocument "Shift" "#/components/schemas/Shift"
    let l := shiftDeclarations [shiftType "Shift" "Shift" "startsAt"] [shiftOperation "Shift"]
      (shiftTable "Shift")
    let l' := shiftDeclarations [shiftType "Shift" "Shift" "starts_at"] [] (shiftTable "Shift")
    d.compile .default = .ok l ∧ d.compile plainOptions.cased = .ok l' ∧
      Options.default.onlyTypes = { Options.default with casing := .preserve }.onlyTypes ∧
      (d.compile .default).map Declarations.bare =
        (d.compile { CasedOptions.default with casing := .preserve }).map Declarations.bare ∧
      (∀ entry ∈ d.components.schemas, ∃ node,
        Pool.schema.find d.components.schemas (Pool.schema.pointer entry.1) =
          .ok (entry.1, node)) ∧
      l.bare.types = l'.bare.types ∧ l.table = l'.table := by
  intro d l l'
  have hlabels := Document.compile_labels d lowerCamel
  have hself : ∀ entry ∈ d.components.schemas, ∃ node,
      Pool.schema.find d.components.schemas (Pool.schema.pointer entry.1) = .ok (entry.1, node) := by
    rintro entry (_ | ⟨_, _ | ⟨_, ⟨⟩⟩⟩)
    · exact ⟨_, by rfl⟩
    · exact ⟨shiftNode, by rfl⟩
  exact ⟨compile_shiftDocument, compile_plainOptions, rfl,
    hlabels.1 .default { Options.default with casing := .preserve } rfl, hself,
    hlabels.2 hself _ _ _ _ compile_shiftDocument compile_plainOptions⟩

set_option maxRecDepth 10000 in
/-- The pointer of a component by the name of an octet leads to another component.  Only an operation
that escapes the octet leads to it, so it is declared with operations and is not declared without. -/
theorem Document.compile_octet :
    ¬ ∀ (options options' : Options) (l l' : Declarations),
      (shiftDocument "%41" "#/components/schemas/%2541").compile options.cased = .ok l →
      (shiftDocument "%41" "#/components/schemas/%2541").compile options'.cased = .ok l' →
        l.bare.types = l'.bare.types ∧ l.table = l'.table := by
  intro h
  have hplain : (shiftDocument "%41" "#/components/schemas/%2541").compile plainOptions.cased =
      .ok (shiftDeclarations [] [] .empty) := by cbv
  have hall : (shiftDocument "%41" "#/components/schemas/%2541").compile .default =
      .ok (shiftDeclarations [shiftType "_41" "%41" "startsAt"] [shiftOperation "_41"]
        (shiftTable "_41")) := by cbv
  have htypes := (h _ _ _ _ hplain hall).1
  cases congrArg List.length htypes

end ApiDecl
