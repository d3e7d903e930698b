import ApiDecl.Proofs.Types.Reach

/-!
# When a document compiles

The compilation begins with the pointer of each component and with what operations mention, and
follows the mentions of whatever component it comes to.  The order in which it does so has no part
in the outcome.  A document compiles just if it is `Flawless`, which goes by what is reached
(`Document.exists_compile_iff`), and the types compiled are those of the components reached
(`Declarations.MadeOf.mem_types_iff`).
-/

namespace ApiDecl

namespace Document

/-- A mention that the compilation begins with: of a component by its own pointer, or of an
operation. -/
def Begins (d : Document) (options : CasedOptions) (m : Mention) : Prop :=
  (∃ entry ∈ (Scope.ofDocument d options).names,
    (Scope.ofDocument d options).resolve (Pool.schema.pointer entry.1) = .ok m) ∨
  (options.onlyTypes = false ∧ m ∈ (draftOperations (Scope.ofDocument d options) d).mentions)

/-- The compilation comes to the component that the mention leads to. -/
def Reaches (d : Document) (options : CasedOptions) : Mention → Prop :=
  (Scope.ofDocument d options).Reached (d.Begins options)

/-- Nothing that declarations are made of has an error. -/
structure Flawless (d : Document) (options : CasedOptions) : Prop where
  version : checkVersion d.format = .ok ()
  /-- The pointer of each component leads to one, if only to another. -/
  pointers : ∀ entry ∈ (Scope.ofDocument d options).names,
    ∃ m, (Scope.ofDocument d options).resolve (Pool.schema.pointer entry.1) = .ok m
  components : ∀ m, d.Reaches options m → (Scope.ofDocument d options).Drafts m
  operations : options.onlyTypes = false →
    ∃ operations, (draftOperations (Scope.ofDocument d options) d).result = .ok operations
  auth : options.onlyTypes = false → ∃ auth, AuthConfiguration.ofDocument d = .ok auth

variable {d : Document} {options : CasedOptions}

theorem Begins.resolves {m : Mention} (h : d.Begins options m) :
    (Scope.ofDocument d options).Resolves m := by
  rcases h with ⟨entry, -, hm⟩ | ⟨-, hm⟩
  · exact ⟨_, hm⟩
  · exact only_draftOperations _ d m hm

theorem Reaches.resolves {m : Mention} (h : d.Reaches options m) :
    (Scope.ofDocument d options).Resolves m :=
  Scope.Reached.resolves (fun _ => Begins.resolves) h

end Document

/-! ### What declarations are made of -/

namespace Declarations.MadeOf

variable {d : Document} {options : CasedOptions} {l : Declarations} {p : Progress}
  {operations : List OperationDeclaration} (h : l.MadeOf d options p operations)
include h

/-- A component that has been referred to has a draft without an error, whose mentions have been
referred to. -/
theorem yields_of_referred {m : Mention} (hm : (Scope.ofDocument d options).Resolves m)
    (hr : p.Referred m) {node : Node}
    (hn : Member.lookup m.component (Scope.ofDocument d options).schemas = some node) :
    ∃ ty, (draftNode (Scope.ofDocument d options) (Pool.schema.pointer m.component)
      node).Yields p.Referred ty := by
  obtain ⟨pointer, hpointer⟩ := hm
  obtain ⟨node', ty, hf, -, hy⟩ := h.exists_of_resolve hpointer hr
  obtain rfl : node' = node := Option.some.inj ((Pool.lookup_of_find hf).symm.trans hn)
  exact ⟨ty, hy⟩

/-- **What is reached** has been referred to. -/
theorem referred_of_reaches {m : Mention} (hm : d.Reaches options m) : p.Referred m := by
  induction hm with
  | @root m hm =>
    rcases hm with ⟨entry, he, hentry⟩ | ⟨hall, hm⟩
    · obtain ⟨other, hother, hr⟩ := h.covers entry he
      rw [hentry] at hother
      rwa [Except.ok.inj hother]
    · have hdrafted := h.drafted
      rw [hall, if_neg Bool.false_ne_true] at hdrafted
      exact hdrafted.2 m hm
  | @step m next node hm hn hnext ih =>
    have hresolves : (Scope.ofDocument d options).Resolves m := Document.Reaches.resolves hm
    obtain ⟨ty, hy⟩ := h.yields_of_referred hresolves ih hn
    exact hy.2 next hnext

/-- **The types compiled** are those of the components reached. -/
theorem mem_types_iff (ht : p.Traced (Scope.ofDocument d options) (d.Begins options) [])
    {t : NamedType} :
    t ∈ p.types ↔ ∃ m, d.Reaches options m ∧ (Scope.ofDocument d options).Makes m t := by
  refine ⟨ht.types t, ?_⟩
  rintro ⟨m, hm, node, ty, hn, hty, rfl⟩
  obtain ⟨t', ht'⟩ := Option.isSome_iff_exists.mp (h.closed m (h.referred_of_reaches hm))
  obtain ⟨hmem, hname⟩ := Progress.mem_of_type? ht'
  obtain ⟨m', hm', node', ty', hn', hty', rfl⟩ := ht.types t' hmem
  -- the component of a type is known by the name of the type
  have hcomponent : m'.component = m.component := by
    obtain ⟨_, hpointer⟩ := Document.Reaches.resolves hm
    obtain ⟨_, hpointer'⟩ := Document.Reaches.resolves hm'
    obtain ⟨-, -, hnamed⟩ := Scope.find_of_resolve hpointer
    obtain ⟨-, -, hnamed'⟩ := Scope.find_of_resolve hpointer'
    rw [show m'.name = m.name from hname] at hnamed'
    exact Scope.eq_of_mem_names hnamed' hnamed
  rw [hcomponent] at hn' hty'
  obtain rfl := Option.some.inj (hn'.symm.trans hn)
  obtain rfl := Except.ok.inj (hty'.symm.trans hty)
  have ht : (Scope.ofDocument d options).namedType m node' ty' =
      (Scope.ofDocument d options).namedType m' node' ty' := by
    unfold Scope.namedType
    rw [hcomponent, show m'.name = m.name from hname]
  rwa [ht]

end Declarations.MadeOf

/-! ### The compilation of a document without flaws -/

namespace Document

variable {d : Document} {options : CasedOptions} {l : Declarations}

/-- A document that compiles has no flaws. -/
theorem flawless_of_compile (hl : d.compile options = .ok l) : d.Flawless options := by
  obtain ⟨hv, p, q, operations, auth, compiled, hc, ho, hf, rfl⟩ := Declarations.compile_eq_ok.mp hl
  have hmade := Declarations.madeOf_assemble hc ho hf
  rw [Declarations.compileOperations_eq_ok, Scope.options_ofDocument] at ho
  constructor
  case version => exact hv
  case pointers => exact fun entry he => (hmade.covers entry he).imp fun _ => And.left
  case components =>
    intro m hm node hn
    obtain ⟨ty, hy⟩ := hmade.yields_of_referred hm.resolves (hmade.referred_of_reaches hm) hn
    exact ⟨ty, hy.1⟩
  case operations =>
    intro hall
    rw [hall, if_neg Bool.false_ne_true] at ho
    exact ⟨operations, (Progress.yields_of_draft ho.1).1⟩
  case auth =>
    exact fun hall => ⟨_, Declarations.ofDocument_of_compile hl hall⟩

variable (h : d.Flawless options)
include h

/-- The components are compiled without an error. -/
theorem Flawless.components_eq_ok : ∃ p,
    Progress.start.components (Scope.ofDocument d options) = (p, .ok ()) ∧
      p.Clear (Scope.ofDocument d options) (d.Begins options) := by
  have hreferences : ∃ tys, (Draft.all ((Scope.ofDocument d options).names.map fun entry =>
      draftReference (Scope.ofDocument d options)
        (Pool.schema.pointer entry.1))).Yields (d.Begins options) tys := by
    refine Draft.exists_yields_all fun draft hd => ?_
    obtain ⟨entry, he, rfl⟩ := List.mem_map.mp hd
    obtain ⟨m, hm⟩ := h.pointers entry he
    refine ⟨.reference m.name, ?_⟩
    simp only [draftReference, Draft.yields_bind, Draft.yields_ofExcept, Draft.yields_mention,
      Draft.yields_pure]
    exact ⟨m, hm, (), Or.inl ⟨entry, he, hm⟩, rfl⟩
  obtain ⟨tys, hresult, hmentions⟩ := hreferences
  obtain ⟨p, hp, hclear⟩ := (Progress.clear_start _ _).draft (fun _ => Begins.resolves) h.components
    (fun m hm => .root (hmentions m hm)) hresult
  exact ⟨p, by rw [Progress.components, hp]; rfl, hclear⟩

/-- And so are the operations and the security schemes. -/
theorem Flawless.operations_eq_ok {p : Progress}
    (hp : p.Clear (Scope.ofDocument d options) (d.Begins options)) : ∃ q operations auth,
      compileOperations (Scope.ofDocument d options) d p = (q, .ok (operations, auth)) ∧
        q.Clear (Scope.ofDocument d options) (d.Begins options) := by
  by_cases honly : options.onlyTypes = true
  · refine ⟨p, [], [], ?_, hp⟩
    rw [Declarations.compileOperations_eq_ok, Scope.options_ofDocument, if_pos honly]
    exact ⟨rfl, rfl, rfl⟩
  · have hall : options.onlyTypes = false := by simpa using honly
    obtain ⟨operations, ho⟩ := h.operations hall
    obtain ⟨auth, ha⟩ := h.auth hall
    obtain ⟨q, hq, hclear⟩ := hp.draft (fun _ => Begins.resolves) h.components
      (fun m hm => .root (Or.inr ⟨hall, hm⟩)) ho
    refine ⟨q, operations, auth, ?_, hclear⟩
    rw [Declarations.compileOperations_eq_ok, Scope.options_ofDocument, if_neg honly]
    exact ⟨hq, ha⟩

end Document

variable {d : Document} {options : CasedOptions} {l : Declarations}

/-- **A document compiles** just if it has no flaws, whatever order its components come in. -/
theorem Document.exists_compile_iff : (∃ l, d.compile options = .ok l) ↔ d.Flawless options := by
  refine ⟨fun ⟨l, hl⟩ => flawless_of_compile hl, fun h => ?_⟩
  obtain ⟨p, hc, hp⟩ := h.components_eq_ok
  obtain ⟨q, operations, auth, ho, hq⟩ := h.operations_eq_ok hp
  obtain ⟨compiled, hf⟩ := hq.tracked.finish_iff.mpr fun ⟨name, hs⟩ => hq.free name hs
  exact ⟨_, Declarations.compile_eq_ok.mpr
    ⟨h.version, p, q, operations, auth, compiled, hc, ho, hf, rfl⟩⟩

/-- Behind declarations stands a compilation that has come to what is reached only. -/
theorem Declarations.exists_traced_of_compile (hl : d.compile options = .ok l) :
    ∃ p operations, l.MadeOf d options p operations ∧
      p.Traced (Scope.ofDocument d options) (d.Begins options) [] := by
  obtain ⟨-, p, q, operations, auth, compiled, hc, ho, hf, rfl⟩ := compile_eq_ok.mp hl
  have h := Document.flawless_of_compile hl
  refine ⟨q, operations, madeOf_assemble hc ho hf, ?_⟩
  -- the stages that made the declarations are those that a document without flaws goes through
  obtain ⟨p', hc', hp⟩ := h.components_eq_ok
  obtain rfl : p = p' := congrArg Prod.fst (hc.symm.trans hc')
  obtain ⟨q', operations', auth', ho', hq⟩ := h.operations_eq_ok hp
  obtain rfl : q = q' := congrArg Prod.fst (ho.symm.trans ho')
  exact hq.traced

end ApiDecl
