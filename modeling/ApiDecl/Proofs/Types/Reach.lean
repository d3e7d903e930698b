import ApiDecl.Proofs.Session

/-!
# Components reached

Compiling mentions enters the components that they lead to, the components that those mention, and
so on: those `Reached`.  In whatever order the mentions are followed, each type compiled is that of
a component reached (`Traced`, kept by every step), and so is the component that an error is in.  So
following mentions goes well if every component reached has a draft without an error
(`Clear.follow`, `Clear.draft`).

What is reached depends on the scope only by what is looked up in it, and not by the order of its
components (`Scope.Matches.reached_iff`).
-/

namespace ApiDecl

/-- The mention is one of those to begin with, or the draft of a component reached mentions it. -/
inductive Scope.Reached (scope : Scope) (roots : Mention → Prop) : Mention → Prop
  | root {m : Mention} : roots m → Reached scope roots m
  | step {m next : Mention} {node : Node} : Reached scope roots m →
      Member.lookup m.component scope.schemas = some node →
      next ∈ (draftNode scope (Pool.schema.pointer m.component) node).mentions →
        Reached scope roots next

/-- The type of the component that a mention leads to. -/
def Scope.namedType (scope : Scope) (m : Mention) (node : Node) (ty : Ty) : NamedType :=
  ⟨m.name, m.component, ty, (scope.docs node).1, (scope.docs node).2⟩

/-- The named type is that of the component that a mention leads to. -/
def Scope.Makes (scope : Scope) (m : Mention) (t : NamedType) : Prop :=
  ∃ node ty, Member.lookup m.component scope.schemas = some node ∧
    (draftNode scope (Pool.schema.pointer m.component) node).result = .ok ty ∧
      t = scope.namedType m node ty

/-- The draft of the component that the mention leads to has no error. -/
def Scope.Drafts (scope : Scope) (m : Mention) : Prop :=
  ∀ node, Member.lookup m.component scope.schemas = some node →
    ∃ ty, (draftNode scope (Pool.schema.pointer m.component) node).result = .ok ty

/-- What is reached is resolved, if what it begins with is. -/
theorem Scope.Reached.resolves {scope : Scope} {roots : Mention → Prop} {m : Mention}
    (hroots : ∀ m, roots m → scope.Resolves m) (h : scope.Reached roots m) : scope.Resolves m := by
  cases h with
  | root h => exact hroots m h
  | step _ _ hnext => exact only_draftNode scope _ _ m hnext

namespace Progress

variable {scope : Scope} {roots : Mention → Prop} {p q : Progress} {stack : List Underway}

/-- Every type compiled is that of a component reached, and so is what is under way. -/
structure Traced (scope : Scope) (roots : Mention → Prop) (p : Progress) (stack : List Underway) :
    Prop where
  types : ∀ t ∈ p.types, ∃ m, scope.Reached roots m ∧ scope.Makes m t
  reached : ∀ u ∈ stack, scope.Reached roots u.mention
  schema : ∀ u ∈ stack, Member.lookup u.mention.component scope.schemas = some u.node
  result : ∀ u ∈ stack,
    (draftNode scope (Pool.schema.pointer u.mention.component) u.node).result = u.result
  rest : ∀ u ∈ stack, ∀ m ∈ u.rest, scope.Reached roots m

theorem traced_start (scope : Scope) (roots : Mention → Prop) : Traced scope roots start [] where
  types := fun _ h => absurd h List.not_mem_nil
  reached := fun _ h => absurd h List.not_mem_nil
  schema := fun _ h => absurd h List.not_mem_nil
  result := fun _ h => absurd h List.not_mem_nil
  rest := fun _ h => absurd h List.not_mem_nil

theorem lookup_of_unentered? {m : Mention} {node : Node} (h : p.unentered? scope m = some node) :
    Member.lookup m.component scope.schemas = some node := by
  unfold unentered? at h
  split_ifs at h
  exact h

theorem Traced.refer (h : Traced scope roots p stack) (m : Mention) :
    Traced scope roots (p.refer m) stack :=
  { h with types := by rw [types_refer]; exact h.types }

/-- A component that is reached comes under way. -/
theorem Traced.enter (h : Traced scope roots p stack) {m : Mention} {node : Node}
    (hn : p.unentered? scope m = some node) (hm : scope.Reached roots m) :
    Traced scope roots ((p.enter m).refer m) (underway scope m node :: stack) := by
  have hl := lookup_of_unentered? hn
  have ht : Traced scope roots (p.enter m) stack := { h with types := h.types }
  constructor
  case types => exact (ht.refer m).types
  case reached => exact List.forall_mem_cons.mpr ⟨hm, h.reached⟩
  case schema => exact List.forall_mem_cons.mpr ⟨hl, h.schema⟩
  case result => exact List.forall_mem_cons.mpr ⟨rfl, h.result⟩
  case rest => exact List.forall_mem_cons.mpr ⟨fun next hnext => hm.step hl hnext, h.rest⟩

/-- A mention that is not followed is reached all the same. -/
theorem Traced.skip {m next : Mention} {node : Node} {rest : List Mention}
    {result : Except Error Ty}
    (h : Traced scope roots p (⟨m, node, next :: rest, result⟩ :: stack)) :
    Traced scope roots p (⟨m, node, rest, result⟩ :: stack) := by
  constructor
  case types => exact h.types
  case reached => exact List.forall_mem_cons.mpr (List.forall_mem_cons.mp h.reached)
  case schema => exact List.forall_mem_cons.mpr (List.forall_mem_cons.mp h.schema)
  case result => exact List.forall_mem_cons.mpr (List.forall_mem_cons.mp h.result)
  case rest =>
    obtain ⟨hrest, hrest'⟩ := List.forall_mem_cons.mp h.rest
    exact List.forall_mem_cons.mpr
      ⟨fun other ho => hrest other (List.mem_cons_of_mem _ ho), hrest'⟩

theorem kept_traced (scope : Scope) (roots : Mention → Prop) :
    Kept scope (Traced scope roots) where
  refer := fun _ h => h.skip.refer _
  enter := fun hn h => h.skip.enter hn (h.rest _ List.mem_cons_self _ List.mem_cons_self)
  complete := fun {p m node ty stack} h => by
    obtain ⟨hreached, hreached'⟩ := List.forall_mem_cons.mp h.reached
    obtain ⟨hschema, hschema'⟩ := List.forall_mem_cons.mp h.schema
    obtain ⟨hresult, hresult'⟩ := List.forall_mem_cons.mp h.result
    refine ⟨fun t ht => ?_, hreached', hschema', hresult', (List.forall_mem_cons.mp h.rest).2⟩
    rcases List.mem_append.mp ht with ht | ht
    · exact h.types t ht
    · rw [List.mem_singleton.mp ht]
      exact ⟨m, hreached, node, ty, hschema, hresult, rfl⟩

/-- **Mentions that are reached** lead to nothing else. -/
theorem Traced.follow (h : Traced scope roots p []) {mentions : List Mention}
    (hm : ∀ m ∈ mentions, scope.Reached roots m) :
    Ends (Traced scope roots) (p.follow scope mentions) :=
  (kept_traced scope roots).follow (scope.Reached roots) (fun {_ m} _ _ h => h.refer m)
    (fun hm hn h => h.enter hn hm) hm h

/-! ### Compiling without an error -/

/-- No error has been come to: nothing is stuck. -/
structure Clear (scope : Scope) (roots : Mention → Prop) (p : Progress) : Prop where
  tracked : Tracked scope p []
  traced : Traced scope roots p []
  free : ∀ name, ¬ p.Stuck [] name

theorem clear_start (scope : Scope) (roots : Mention → Prop) : Clear scope roots start where
  tracked := tracked_start scope
  traced := traced_start scope roots
  free := fun _ h => absurd h.1 List.not_mem_nil

variable (hroots : ∀ m, roots m → scope.Resolves m)
  (hd : ∀ m, scope.Reached roots m → scope.Drafts m)
include hroots hd

/-- **Mentions are followed** without an error if every component reached has a draft without one. -/
theorem Clear.follow (h : Clear scope roots p) {mentions : List Mention}
    (hm : ∀ m ∈ mentions, scope.Reached roots m) :
    ∃ q, p.follow scope mentions = (q, .ok ()) ∧ Clear scope roots q := by
  have htracked := h.tracked.follow fun m hmem => (hm m hmem).resolves hroots
  have htraced := h.traced.follow hm
  generalize p.follow scope mentions = r at htracked htraced ⊢
  cases htraced with
  | @ok q ht =>
    cases htracked with
    | ok hq => exact ⟨q, rfl, hq.1, ht, fun name hs => h.free name ((hq.2 name).mp hs)⟩
  | @error q m node error stack ht =>
    -- the error would be that of the draft of a component reached
    have hresult := ht.result _ List.mem_cons_self
    obtain ⟨ty, hty⟩ := hd m (ht.reached _ List.mem_cons_self) node (ht.schema _ List.mem_cons_self)
    rw [hty] at hresult
    cases hresult

theorem Clear.draft {α : Type} (h : Clear scope roots p) {draft : Draft α} {a : α}
    (hm : ∀ m ∈ draft.mentions, scope.Reached roots m) (hr : draft.result = .ok a) :
    ∃ q, p.draft scope draft = (q, .ok a) ∧ Clear scope roots q := by
  obtain ⟨q, hf, hq⟩ := h.follow hroots hd hm
  exact ⟨q, by rw [Progress.draft, hf, hr], hq⟩

end Progress

/-! ### Scopes with the same components -/

/-- The scopes have the same components by the same names of types, in whatever order. -/
structure Scope.Matches (scope scope' : Scope) : Prop where
  options : scope.options = scope'.options
  schemas : ∀ component, Member.lookup component scope.schemas =
    Member.lookup component scope'.schemas
  names : ∀ component, Member.lookup component scope.names = Member.lookup component scope'.names

namespace Scope.Matches

variable {scope scope' : Scope} {roots roots' : Mention → Prop}

theorem symm (h : scope.Matches scope') : scope'.Matches scope :=
  ⟨h.options.symm, fun c => (h.schemas c).symm, fun c => (h.names c).symm⟩

theorem find_eq (h : scope.Matches scope') (pointer : String) :
    Pool.schema.find scope.schemas pointer = Pool.schema.find scope'.schemas pointer := by
  simp only [Pool.find, h.schemas]

/-- Pointers lead to the same components. -/
theorem alike (h : scope.Matches scope') : scope.Alike scope' where
  options := h.options
  resolve := by
    funext pointer
    simp only [resolve, h.find_eq, h.names]

variable (h : scope.Matches scope')
include h

/-- Both scopes give a component the same draft. -/
theorem same_draftNode (component : String) (node : Node) :
    (draftNode scope (Pool.schema.pointer component) node).Same
      (draftNode scope' (Pool.schema.pointer component) node) :=
  ApiDecl.same_draftNode h.alike node _ _

theorem drafts_iff (m : Mention) : scope.Drafts m ↔ scope'.Drafts m := by
  unfold Scope.Drafts
  simp only [h.schemas, (h.same_draftNode m.component _).2]

theorem makes_iff (m : Mention) (t : NamedType) : scope.Makes m t ↔ scope'.Makes m t := by
  unfold Scope.Makes Scope.namedType Scope.docs
  simp only [h.schemas, (h.same_draftNode m.component _).2, h.options]

theorem reached (hroots : ∀ m, roots m → roots' m) {m : Mention} (hm : scope.Reached roots m) :
    scope'.Reached roots' m := by
  induction hm with
  | root hm => exact .root (hroots _ hm)
  | step _ hl hnext ih =>
    rw [h.schemas] at hl
    rw [(h.same_draftNode _ _).1] at hnext
    exact ih.step hl hnext

/-- **The same components are reached**, whatever the order of the components. -/
theorem reached_iff (hroots : ∀ m, roots m ↔ roots' m) (m : Mention) :
    scope.Reached roots m ↔ scope'.Reached roots' m :=
  ⟨h.reached fun m => (hroots m).mp, h.symm.reached fun m => (hroots m).mpr⟩

end Scope.Matches

end ApiDecl
