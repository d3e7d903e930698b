import ApiDecl.Operation.Session
import ApiDecl.Proofs.Operation.Contents
import ApiDecl.Proofs.Operation.Agreement

/-!
# No failure is masked

When a call fails while the body of a component is under way, the component stays entered without
ever being compiled, and later references to it go through.  Such a component is `Stuck`.  No step
frees a component that is stuck and none but an error makes one (`kept_stuck`), so some component is
stuck after calls exactly if one of them failed within a component (`tracked_after`).  The names
referred to are those entered, because a draft mentions only what it has resolved (`Tracked`), and
so a component that is stuck keeps `Progress.finish` from succeeding (`finish_after`).
-/

namespace ApiDecl

namespace Progress

variable {scope : Scope} {p : Progress} {m : Mention} {name : String} {stack : List Underway}

/-! ### Names referred to and names entered -/

theorem mem_references_refer : name ∈ (p.refer m).references.map Prod.fst ↔
    name = m.name ∨ name ∈ p.references.map Prod.fst := by
  unfold refer
  split_ifs with h
  · rw [Member.has, Option.isSome_iff_ne_none, Ne, Member.lookup_eq_none_iff, not_not] at h
    refine ⟨Or.inr, ?_⟩
    rintro (rfl | hn)
    · exact h
    · exact hn
  · rw [List.map_append, List.mem_append, List.map_singleton, List.mem_singleton, or_comm]

/-- A mention that leads to a component is not followed only if it has been entered before. -/
theorem mem_entered_of_unentered? (hm : scope.Resolves m) (h : p.unentered? scope m = none) :
    m.name ∈ p.entered := by
  obtain ⟨pointer, hp⟩ := hm
  obtain ⟨node, hf, hnamed⟩ := Scope.find_of_resolve hp
  unfold unentered? at h
  split_ifs at h with hc
  · rw [Bool.or_eq_true, List.contains_iff_mem, Bool.not_eq_true', ← Bool.not_eq_true,
      List.contains_iff_mem] at hc
    exact hc.resolve_right fun hn => hn hnamed
  · rw [Pool.lookup_of_find hf] at h
    cases h

theorem not_mem_entered_of_unentered? {node : Node} (h : p.unentered? scope m = some node) :
    m.name ∉ p.entered := by
  intro hm
  unfold unentered? at h
  rw [if_pos (by rw [List.contains_iff_mem.mpr hm]; rfl)] at h
  cases h

/-- The compilation is sound, what has been referred to is what has been entered, and what is still
to follow leads to components. -/
structure Tracked (scope : Scope) (p : Progress) (stack : List Underway) : Prop where
  sound : Sound scope p stack
  references : ∀ name, name ∈ p.references.map Prod.fst ↔ name ∈ p.entered
  resolves : ∀ u ∈ stack, ∀ m ∈ u.rest, scope.Resolves m

theorem tracked_start (scope : Scope) : Tracked scope start [] where
  sound := sound_start scope
  references := fun _ => Iff.rfl
  resolves := fun _ hu => absurd hu List.not_mem_nil

theorem Tracked.drop (h : Tracked scope p stack) : Tracked scope p [] :=
  { h with sound := h.sound.drop, resolves := fun _ hu => absurd hu List.not_mem_nil }

theorem references_refer (h : ∀ name, name ∈ p.references.map Prod.fst ↔ name ∈ p.entered)
    (hm : m.name ∈ p.entered) (name : String) :
    name ∈ (p.refer m).references.map Prod.fst ↔ name ∈ (p.refer m).entered := by
  rw [mem_references_refer, entered_refer, h name]
  exact or_iff_right_of_imp fun he => he ▸ hm

theorem references_enter (h : ∀ name, name ∈ p.references.map Prod.fst ↔ name ∈ p.entered)
    (m : Mention) (name : String) : name ∈ ((p.enter m).refer m).references.map Prod.fst ↔
      name ∈ ((p.enter m).refer m).entered := by
  rw [mem_references_refer, entered_refer, enter, List.mem_cons]
  exact or_congr_right (h name)

theorem kept_tracked (scope : Scope) : Kept scope (Tracked scope) where
  refer := fun {p m node next rest result stack} hn h => by
    have hhead := h.resolves _ List.mem_cons_self
    refine ⟨(Sound.kept scope).refer hn h.sound, references_refer h.references
      (mem_entered_of_unentered? (hhead next List.mem_cons_self) hn), fun u hu => ?_⟩
    rcases List.mem_cons.mp hu with rfl | hu
    · exact fun other ho => hhead other (List.mem_cons_of_mem _ ho)
    · exact h.resolves u (List.mem_cons_of_mem _ hu)
  enter := fun {p m node next rest result stack child} hn h => by
    have hhead := h.resolves _ List.mem_cons_self
    refine ⟨(Sound.kept scope).enter hn h.sound, references_enter h.references next, fun u hu => ?_⟩
    rcases List.mem_cons.mp hu with rfl | hu
    · exact only_draftNode scope child _
    rcases List.mem_cons.mp hu with rfl | hu
    · exact fun other ho => hhead other (List.mem_cons_of_mem _ ho)
    · exact h.resolves u (List.mem_cons_of_mem _ hu)
  complete := fun h => ⟨h.sound.complete, h.references,
    fun u hu => h.resolves u (List.mem_cons_of_mem _ hu)⟩

/-! ### Components that are stuck -/

/-- The name has been entered, but it is neither under way nor compiled. -/
def Stuck (p : Progress) (stack : List Underway) (name : String) : Prop :=
  name ∈ p.entered ∧ name ∉ stack.map (fun u => u.mention.name) ∧
    name ∉ p.types.map NamedType.name

theorem stuck_refer : (p.refer m).Stuck stack name ↔ p.Stuck stack name := by
  rw [Stuck, Stuck, entered_refer, types_refer]

/-- A component that comes under way was not stuck, and is not stuck then. -/
theorem stuck_enter {node : Node} (hn : p.unentered? scope m = some node) :
    ((p.enter m).refer m).Stuck (underway scope m node :: stack) name ↔ p.Stuck stack name := by
  have hfresh := not_mem_entered_of_unentered? hn
  rw [stuck_refer]
  simp only [Stuck, enter, underway, List.map_cons, List.mem_cons, not_or]
  constructor
  · rintro ⟨he, ⟨hne, hs⟩, ht⟩
    exact ⟨he.resolve_left hne, hs, ht⟩
  · rintro ⟨he, hs, ht⟩
    exact ⟨Or.inr he, ⟨fun heq => hfresh (heq ▸ he), hs⟩, ht⟩

/-- Steps of components under way make no component stuck, and free none. -/
theorem kept_stuck (scope : Scope) (S : String → Prop) :
    Kept scope fun p stack => ∀ name, p.Stuck stack name ↔ S name where
  refer := fun _ h name => stuck_refer.trans (h name)
  enter := fun hn h name => (stuck_enter hn).trans (h name)
  complete := fun {p m node ty stack} h name => by
    rw [← h name]
    simp only [Stuck, complete, List.map_append, List.map_cons, List.map_nil, List.mem_append,
      List.mem_cons, List.not_mem_nil, or_false, not_or]
    tauto

theorem Kept.and {I J : Progress → List Underway → Prop} (hI : Kept scope I) (hJ : Kept scope J) :
    Kept scope fun p stack => I p stack ∧ J p stack where
  refer := fun hn h => ⟨hI.refer hn h.1, hJ.refer hn h.2⟩
  enter := fun hn h => ⟨hI.enter hn h.1, hJ.enter hn h.2⟩
  complete := fun h => ⟨hI.complete h.1, hJ.complete h.2⟩

/-- Mentions that lead to components are followed so that nothing is stuck but what was before, and
the component that an error is in. -/
theorem Tracked.follow (h : Tracked scope p []) {mentions : List Mention}
    (hm : ∀ m ∈ mentions, scope.Resolves m) :
    Ends (fun q stack => Tracked scope q stack ∧ ∀ name, q.Stuck stack name ↔ p.Stuck [] name)
      (p.follow scope mentions) :=
  ((kept_tracked scope).and (kept_stuck scope (p.Stuck []))).follow scope.Resolves
    (fun hr hn h => ⟨⟨h.1.sound.refer _,
        references_refer h.1.references (mem_entered_of_unentered? hr hn), h.1.resolves⟩,
      fun name => stuck_refer.trans (h.2 name)⟩)
    (fun _ hn h => ⟨⟨h.1.sound.enter_refer hn, references_enter h.1.references _, fun u hu => by
        obtain rfl := List.mem_singleton.mp hu
        exact only_draftNode scope _ _⟩,
      fun name => (stuck_enter hn).trans (h.2 name)⟩)
    hm ⟨h, fun _ => Iff.rfl⟩

/-- The compilation can be finished if nothing is stuck. -/
theorem Tracked.finish_iff (h : Tracked scope p []) :
    (∃ compiled, p.finish scope = .ok compiled) ↔ ¬ ∃ name, p.Stuck [] name := by
  have hnone : p.references.find? (fun entry => (p.type? entry.1).isNone) = none ↔
      ¬ ∃ name, p.Stuck [] name := by
    rw [List.find?_eq_none, not_exists]
    constructor
    · rintro hall name ⟨he, -, ht⟩
      obtain ⟨entry, hentry, rfl⟩ := List.mem_map.mp ((h.references name).mpr he)
      exact hall entry hentry (by rw [type?_eq_none_iff.mpr ht]; rfl)
    · intro hall entry hentry hn
      exact hall entry.1 ⟨(h.references _).mp (List.mem_map_of_mem hentry), List.not_mem_nil,
        type?_eq_none_iff.mp (Option.isNone_iff_eq_none.mp hn)⟩
  rw [← hnone, finish]
  cases p.references.find? fun entry => (p.type? entry.1).isNone with
  | none => exact ⟨fun _ => rfl, fun _ => ⟨_, rfl⟩⟩
  | some entry =>
    constructor
    · rintro ⟨_, hc⟩
      cases hc
    · intro hc
      cases hc

/-- What has been referred to is in the result. -/
theorem Sound.exists_of_finish (h : Sound scope p []) {compiled : Compiled}
    (hc : p.finish scope = .ok compiled) (hr : p.Referred m) :
    ∃ t ∈ compiled.types, t.name = m.name := by
  obtain ⟨t, ht⟩ := Option.isSome_iff_exists.mp (isSome_type?_of_finish hc hr)
  obtain ⟨hm, hn⟩ := mem_of_type? ht
  have hentry := (h.types t hm).1
  rw [hn] at hentry
  rw [eq_of_finish hc]
  exact ⟨t, List.mem_filterMap.mpr ⟨_, hentry, ht⟩, hn⟩

end Progress

/-! ### Calls -/

/-- The answer shows the type. -/
inductive Answer.Shows : Answer → Ty → Prop
  | type {ty : Ty} : Shows (.type ty) ty
  | operation {operations : List OperationDeclaration} {o : OperationDeclaration} {ty : Ty} :
      o ∈ operations → o.Shows ty → Shows (.operations operations) ty

namespace Call

variable {scope : Scope} {p : Progress} {call : Call}

/-- The call fails while a component that it mentions, or one behind that, is under way. -/
def FailsWithin (scope : Scope) (p : Progress) (call : Call) : Prop :=
  ∃ error, (p.follow scope (call.draft scope).mentions).2 = .error error

/-- A call mentions what it has resolved. -/
theorem only_draft (scope : Scope) : ∀ call : Call, (call.draft scope).Only scope.Resolves
  | .components => by
    refine Draft.only_map.mpr (Draft.only_all fun draft hd => ?_)
    obtain ⟨entry, -, rfl⟩ := List.mem_map.mp hd
    exact only_draftReference scope _
  | .reference pointer => Draft.only_map.mpr (only_draftReference scope pointer)
  | .schema pointer node => Draft.only_map.mpr (only_draftNode scope node pointer)
  | .operations d => Draft.only_map.mpr (only_draftOperations scope d)

/-- The types that an answer shows are linked by what the call mentions. -/
theorem linked {P : Mention → Prop} {answer : Answer} (h : (call.draft scope).Yields P answer)
    {ty : Ty} (hs : answer.Shows ty) : ty.Each (Ty.LinkedBy scope P) := by
  cases call with
  | components =>
    obtain ⟨_, -, rfl⟩ := Draft.yields_map.mp h
    cases hs
  | reference pointer =>
    obtain ⟨_, hd, rfl⟩ := Draft.yields_map.mp h
    cases hs
    simp only [draftReference, Draft.yields_bind, Draft.yields_pure, Draft.yields_mention] at hd
    obtain ⟨m, -, -, hP, rfl⟩ := hd
    exact Ty.each_reference ⟨m, hP, rfl⟩
  | schema pointer node =>
    obtain ⟨_, hd, rfl⟩ := Draft.yields_map.mp h
    cases hs
    exact Drafted.linked node ⟨_, hd⟩
  | operations d =>
    obtain ⟨_, hd, rfl⟩ := Draft.yields_map.mp h
    cases hs with
    | operation ho hs =>
      obtain ⟨source, hsource, hdrafted⟩ :=
        exists_of_forall₂_right (draftOperations_yields hd) ho
      exact hdrafted.each (madeWith_linkedBy scope P) (fun _ _ => trivial) hsource hs

/-- **A call that fails** has come to the error of a component's body, if it has failed within one, and else
to an error of its own. -/
theorem error_of_make (h : p.Tracked scope []) {error : Error}
    (hr : (call.make scope p).2 = .error error) :
    (call.FailsWithin scope p ∧ ∃ component node,
        Member.lookup component scope.schemas = some node ∧
          (draftNode scope (Pool.schema.pointer component) node).result = .error error) ∨
      (¬ call.FailsWithin scope p ∧ (call.draft scope).result = .error error) := by
  have hends := h.follow (call.only_draft scope)
  unfold make Progress.draft at hr
  unfold FailsWithin
  generalize p.follow scope (call.draft scope).mentions = r at hends hr ⊢
  cases hends with
  | ok =>
    have hnone : ¬ ∃ other, (Except.ok () : Except Error Unit) = .error other := by
      rintro ⟨_, hc⟩
      cases hc
    exact Or.inr ⟨hnone, hr⟩
  | @error q m node other stack h =>
    cases hr
    have hc := h.1.sound.stack _ List.mem_cons_self
    exact Or.inl ⟨⟨error, rfl⟩, m.component, node, hc.schema, hc.result⟩

/-- A call leaves something stuck if there was something before, or if it fails within a
component. -/
theorem tracked_make (h : p.Tracked scope []) (call : Call) :
    (call.make scope p).1.Tracked scope [] ∧ ((∃ name, (call.make scope p).1.Stuck [] name) ↔
      (∃ name, p.Stuck [] name) ∨ call.FailsWithin scope p) := by
  have hends := h.follow (call.only_draft scope)
  unfold make Progress.draft FailsWithin
  generalize p.follow scope (call.draft scope).mentions = r at hends ⊢
  cases hends with
  | ok h =>
    obtain ⟨ht, hstuck⟩ := h
    refine ⟨ht, ?_⟩
    simp only [hstuck, reduceCtorEq, exists_false, or_false]
  | @error q m node error stack h =>
    obtain ⟨ht, hstuck⟩ := h
    -- the component that the error is in
    have hm : q.Stuck [] m.name :=
      ⟨ht.sound.entered _ (List.mem_append_left _ List.mem_cons_self), List.not_mem_nil,
        fun hm => (List.nodup_cons.mp ht.sound.nodup).1 (List.mem_append_right _ hm)⟩
    exact ⟨ht.drop, iff_of_true ⟨_, hm⟩ (Or.inr ⟨error, rfl⟩)⟩

end Call

namespace Progress

variable {scope : Scope} {p : Progress}

theorem after_append (scope : Scope) (p : Progress) (calls more : List Call) :
    p.after scope (calls ++ more) = (p.after scope calls).after scope more :=
  List.foldl_append

/-- What has been referred to stays so. -/
theorem Referred.after {m : Mention} : ∀ (calls : List Call) {p : Progress}, p.Referred m →
    (p.after scope calls).Referred m
  | [], _, h => h
  | call :: rest, _, h => Referred.after rest (h.draft scope (call.draft scope))

/-- **Something is stuck after calls** exactly if one of them failed within a component. -/
theorem tracked_after : ∀ (calls : List Call) {p : Progress}, p.Tracked scope [] →
    (p.after scope calls).Tracked scope [] ∧ ((∃ name, (p.after scope calls).Stuck [] name) ↔
      (∃ name, p.Stuck [] name) ∨ ∃ before call behind, calls = before ++ call :: behind ∧
        call.FailsWithin scope (p.after scope before))
  | [], p, h => by
    refine ⟨h, ⟨Or.inl, ?_⟩⟩
    rintro (hs | ⟨before, call, behind, he, -⟩)
    · exact hs
    · simp at he
  | call :: rest, p, h => by
    obtain ⟨ht, hcall⟩ := call.tracked_make h
    obtain ⟨ht', hrest⟩ := tracked_after rest ht
    refine ⟨ht', hrest.trans ?_⟩
    rw [hcall]
    constructor
    · rintro ((hs | hf) | ⟨before, other, behind, rfl, hf⟩)
      · exact Or.inl hs
      · exact Or.inr ⟨[], call, rest, rfl, hf⟩
      · exact Or.inr ⟨call :: before, other, behind, rfl, hf⟩
    · rintro (hs | ⟨before, other, behind, he, hf⟩)
      · exact Or.inl (Or.inl hs)
      · cases before with
        | nil =>
          obtain ⟨rfl, rfl⟩ := List.cons.inj he
          exact Or.inl (Or.inr hf)
        | cons first before =>
          obtain ⟨rfl, rfl⟩ := List.cons.inj he
          exact Or.inr ⟨before, other, behind, rfl, hf⟩

end Progress

/-- **No failure is masked.**  After calls, of which any may have failed, the compilation can be
finished exactly if none of them failed within a component, at the error of its body; and then every
reference in a type that a call gave back, or in a type of the result, names a type of the result.  Any
other call that fails comes to an error of its own. -/
theorem finish_after (d : Document) (options : CasedOptions) (calls : List Call) :
    let scope := Scope.ofDocument d options
    ((∃ compiled, (Progress.start.after scope calls).finish scope = .ok compiled) ↔
      ∀ (before : List Call) (call : Call) (behind : List Call), calls = before ++ call :: behind →
        ¬ call.FailsWithin scope (Progress.start.after scope before)) ∧
    (∀ (before : List Call) (call : Call) (behind : List Call) (error : Error),
      calls = before ++ call :: behind →
      (call.make scope (Progress.start.after scope before)).2 = .error error →
        (call.FailsWithin scope (Progress.start.after scope before) ∧ ∃ component node,
            Member.lookup component scope.schemas = some node ∧
              (draftNode scope (Pool.schema.pointer component) node).result = .error error) ∨
          (¬ call.FailsWithin scope (Progress.start.after scope before) ∧
            (call.draft scope).result = .error error)) ∧
    ∀ compiled, (Progress.start.after scope calls).finish scope = .ok compiled →
      (∀ (before : List Call) (call : Call) (behind : List Call) (answer : Answer),
        calls = before ++ call :: behind →
        (call.make scope (Progress.start.after scope before)).2 = .ok answer →
          ∀ ty, answer.Shows ty → ∀ name, ty.Contains (.reference name) →
            ∃ t ∈ compiled.types, t.name = name) ∧
      ∀ t ∈ compiled.types, ∀ name, t.ty.Contains (.reference name) →
        ∃ other ∈ compiled.types, other.name = name := by
  intro scope
  have hstart : ¬ ∃ name, Progress.start.Stuck [] name := by
    rintro ⟨name, he, -⟩
    cases he
  obtain ⟨ht, hstuck⟩ := Progress.tracked_after calls (Progress.tracked_start scope)
  refine ⟨?_, fun before call _ error _ hr => Call.error_of_make
    (Progress.tracked_after before (Progress.tracked_start scope)).1 hr,
    fun compiled hc => ⟨?_, ?_⟩⟩
  · rw [ht.finish_iff, hstuck, or_iff_right hstart]
    constructor
    · exact fun hnone before call behind he hf => hnone ⟨before, call, behind, he, hf⟩
    · rintro hall ⟨before, call, behind, he, hf⟩
      exact hall before call behind he hf
  · rintro before call behind answer rfl hmake ty hs name hcontains
    have hy := Progress.yields_of_draft
      (Prod.ext rfl hmake : call.make scope (Progress.start.after scope before) = (_, .ok answer))
    obtain ⟨m, hr, rfl⟩ := Call.linked hy hs _ hcontains
    rw [Progress.after_append] at hc ht
    exact ht.sound.exists_of_finish hc (Progress.Referred.after behind hr)
  · intro t hm name hcontains
    rw [Progress.eq_of_finish hc] at hm
    obtain ⟨entry, -, he⟩ := List.mem_filterMap.mp hm
    obtain ⟨-, node, -, hy⟩ := ht.sound.types t (Progress.mem_of_type? he).1
    obtain ⟨m, hr, rfl⟩ := Drafted.linked node ⟨_, hy⟩ _ hcontains
    exact ht.sound.exists_of_finish hc hr

/-! ### A component that is no schema -/

/-- Items, and a component that is no schema. -/
def flawedDocument : Document :=
  { itemDocument with
    components := ⟨[("Item", itemNode), ("Flawed", .other .null)], [], [], [], []⟩ }

/-- Its scope. -/
def flawedScope : Scope :=
  ⟨[("Item", itemNode), ("Flawed", .other .null)], [("Item", "Item"), ("Flawed", "Flawed")],
    .default⟩

theorem scope_flawedDocument : Scope.ofDocument flawedDocument .default = flawedScope := by
  rfl

/-- A call for the items. -/
def itemCall : Call := .reference "#/components/schemas/Item"

/-- A call for the flawed component. -/
def flawedCall : Call := .reference "#/components/schemas/Flawed"

/-- A call that fails by itself. -/
def malformedCall : Call := .schema "#" (.other .null)

/-- A call that fails by itself leaves the items to be found.  A call that fails within the flawed
component cannot be made up for by another, which goes through. -/
theorem finish_after_flawed :
    Scope.ofDocument flawedDocument .default = flawedScope ∧
      (itemCall.make flawedScope (Progress.start.after flawedScope [malformedCall])).2 =
        .ok (.type (.reference "Item")) ∧
      (∃ compiled, (Progress.start.after flawedScope [malformedCall, itemCall]).finish flawedScope =
        .ok compiled ∧ ∃ t ∈ compiled.types, t.name = "Item") ∧
      (flawedCall.make flawedScope (Progress.start.after flawedScope [flawedCall])).2 =
        .ok (.type (.reference "Flawed")) ∧
      ¬ ∃ compiled, (Progress.start.after flawedScope [flawedCall, flawedCall]).finish flawedScope =
        .ok compiled := by
  have hitem : (itemCall.make flawedScope (Progress.start.after flawedScope [malformedCall])).2 =
      .ok (.type (.reference "Item")) := by cbv
  have hfinish : ∃ compiled, (Progress.start.after flawedScope
      [malformedCall, itemCall]).finish flawedScope = .ok compiled := ⟨_, by cbv⟩
  have hwithin : flawedCall.FailsWithin flawedScope Progress.start := ⟨_, by cbv⟩
  have hsound := finish_after flawedDocument .default [malformedCall, itemCall]
  have hmasked := finish_after flawedDocument .default [flawedCall, flawedCall]
  rw [scope_flawedDocument] at hsound hmasked
  obtain ⟨compiled, hc⟩ := hfinish
  refine ⟨scope_flawedDocument, hitem, ⟨compiled, hc, ?_⟩, by cbv, fun hfinish => ?_⟩
  · exact (hsound.2.2 compiled hc).1 [malformedCall] itemCall [] _ rfl hitem _ .type _ .self
  · exact hmasked.1.mp hfinish [] flawedCall [flawedCall] rfl hwithin

end ApiDecl
