import ApiDecl.Proofs.Draft
import ApiDecl.Proofs.Json.Member
import ApiDecl.Proofs.Types.Walk
import ApiDecl.Types.Closure

/-!
# Compiling named schemas

`Progress.Sound` is what holds at any time while named schemas are compiled: no name is entered
twice, the table holds the programs of the types compiled, each of these is what the draft of its
component yields, and whatever that draft mentions has been referred to.

* `Kept`, `Kept.run`, `Kept.follow`: what each step of the components under way keeps holds when
  they have come to an end or to an error;
* `Sound.refer`, `Sound.enter`, `Sound.complete`: one step;
* `Sound.follow`, `Sound.draft`: mentions and a draft, whether all goes well or not, and
  `Sound.yields_of_draft` if it does;
* `isSome_type?_of_finish`: at the end every type referred to has been compiled.
-/

namespace ApiDecl

/-! ### Registering programs -/

namespace Table

theorem programs_insert (t : Table) (kind other : Kind) (name rival : String)
    (programs : List Program) :
    (t.insert kind name programs).programs other rival =
      if other = kind ∧ rival = name ∧ programs ≠ [] then programs else t.programs other rival := by
  split_ifs with h
  · obtain ⟨rfl, rfl, hp⟩ := h
    exact programs_insert_self t _ _ hp
  · by_cases hp : programs = []
    · rw [hp]; rfl
    · refine programs_insert_of_ne t ?_ programs
      by_contra hn
      rw [not_or, not_not, not_not] at hn
      exact h ⟨hn.1, hn.2, hp⟩

theorem nodup_names_insert {t : Table} {other : Kind} (h : (t.names other).Nodup) (kind : Kind)
    (name : String) (programs : List Program) :
    ((t.insert kind name programs).names other).Nodup := by
  unfold insert
  split_ifs with hp
  · exact h
  · by_cases hk : other = kind
    · subst hk
      rw [names, entries_setSection_self]
      exact Member.nodup_put h name programs
    · rw [names, entries_setSection_of_ne t hk]
      exact h

/-- The table with the programs of a name for every kind. -/
theorem programs_insertAll (t : Table) (name rival : String) (programs : Kind → List Program)
    (kind : Kind) :
    (Kind.all.foldl (fun table kind => table.insert kind name (programs kind))
      t).programs kind rival =
      if rival = name ∧ programs kind ≠ [] then programs kind else t.programs kind rival := by
  cases kind <;> simp [Kind.all, programs_insert]

theorem nodup_names_insertAll {t : Table} {kind : Kind} (h : (t.names kind).Nodup) (name : String)
    (programs : Kind → List Program) :
    ((Kind.all.foldl (fun table kind => table.insert kind name (programs kind))
      t).names kind).Nodup :=
  nodup_names_insert (nodup_names_insert h _ _ _) _ _ _

end Table

namespace Progress

variable {scope : Scope} {p : Progress} {m : Mention} {node : Node} {ty : Ty} {name : String}

/-! ### Mentions -/

/-- The type of the mention has been referred to. -/
def Referred (p : Progress) (m : Mention) : Prop := Member.has m.name p.references = true

theorem referred_refer (p : Progress) (m : Mention) : (p.refer m).Referred m := by
  unfold refer Referred
  split_ifs with h
  · exact h
  · rw [Member.has, Option.isSome_iff_ne_none, Ne, Member.lookup_eq_none_iff]
    simp

theorem Referred.refer (h : p.Referred m) (other : Mention) : (p.refer other).Referred m := by
  unfold Progress.refer
  split_ifs
  · exact h
  · unfold Referred at h ⊢
    rw [Member.has, Option.isSome_iff_ne_none, Ne, Member.lookup_eq_none_iff, not_not] at h ⊢
    rw [List.map_append]
    exact List.mem_append_left _ h

@[simp] theorem types_refer (p : Progress) (m : Mention) : (p.refer m).types = p.types := by
  unfold refer
  split_ifs <;> rfl

@[simp] theorem entered_refer (p : Progress) (m : Mention) : (p.refer m).entered = p.entered := by
  unfold refer
  split_ifs <;> rfl

@[simp] theorem table_refer (p : Progress) (m : Mention) : (p.refer m).table = p.table := by
  unfold refer
  split_ifs <;> rfl

theorem referred_enter (p : Progress) (m other : Mention) :
    (p.enter m).Referred other ↔ p.Referred other :=
  Iff.rfl

theorem referred_complete (p : Progress) (scope : Scope) (m : Mention) (node : Node) (ty : Ty)
    (other : Mention) : (p.complete scope m node ty).Referred other ↔ p.Referred other :=
  Iff.rfl

theorem Referred.run (h : p.Referred m) (scope : Scope) (stack : List Underway) :
    (run scope p stack).1.Referred m := by
  fun_induction Progress.run scope p stack with
  | case1 => exact h
  | case2 _ _ _ _ _ ih => exact ih h
  | case3 => exact h
  | case4 _ _ _ _ _ _ _ _ ih => exact ih (h.refer _)
  | case5 p _ _ next _ _ _ _ _ ih => exact ih (((referred_enter p next m).mpr h).refer next)

theorem Referred.follow (h : p.Referred m) (scope : Scope) (mentions : List Mention) :
    (follow scope p mentions).1.Referred m := by
  fun_induction Progress.follow scope p mentions with
  | case1 => exact h
  | case2 _ _ _ _ ih => exact ih (h.refer _)
  | case3 p next rest node _ p' hr ih =>
    have hrun := (((referred_enter p next m).mpr h).refer next).run scope [underway scope next node]
    rw [hr] at hrun
    exact ih hrun
  | case4 p next rest node _ p' error hr =>
    have hrun := (((referred_enter p next m).mpr h).refer next).run scope [underway scope next node]
    rw [hr] at hrun
    exact hrun

/-- What comes out of a draft counts unless its mentions come to an error. -/
theorem draft_eq {α : Type} (scope : Scope) (p : Progress) (d : Draft α) :
    p.draft scope d = ((p.follow scope d.mentions).1,
      (p.follow scope d.mentions).2.bind fun _ => d.result) := by
  unfold Progress.draft
  rcases p.follow scope d.mentions with ⟨q, error | _⟩ <;> rfl

theorem Referred.draft {α : Type} (h : p.Referred m) (scope : Scope) (d : Draft α) :
    (p.draft scope d).1.Referred m := by
  rw [draft_eq]
  exact h.follow scope d.mentions

/-! ### Compiled types -/

/-- The type declared by a name so far. -/
def declared (p : Progress) (name : String) : Option Ty := (p.type? name).map NamedType.ty

theorem type?_eq_none_iff : p.type? name = none ↔ name ∉ p.types.map NamedType.name := by
  simp [type?, List.find?_eq_none]

theorem mem_of_type? {t : NamedType} (h : p.type? name = some t) : t ∈ p.types ∧ t.name = name :=
  ⟨List.mem_of_find?_eq_some h, by simpa using List.find?_some h⟩

theorem declared_complete (p : Progress) (scope : Scope) (m : Mention) (node : Node) (ty : Ty)
    (name : String) : (p.complete scope m node ty).declared name =
      (p.declared name).or (if m.name = name then some ty else none) := by
  unfold declared type? complete
  rw [List.find?_append]
  cases p.types.find? fun t => t.name == name with
  | some t => rfl
  | none => by_cases h : m.name = name <;> simp [h]

theorem declared_eq_none_of_not_mem (h : name ∉ p.types.map NamedType.name) :
    p.declared name = none := by
  rw [declared, type?_eq_none_iff.mpr h]; rfl

end Progress

/-- The type is what the draft of its component yields, a component of the scope by its name. -/
def NamedType.DraftedIn (scope : Scope) (P : Mention → Prop) (t : NamedType) : Prop :=
  (t.wireName, t.name) ∈ scope.names ∧ ∃ node, Member.lookup t.wireName scope.schemas = some node ∧
    (draftNode scope (Pool.schema.pointer t.wireName) node).Yields P t.ty

theorem NamedType.DraftedIn.imp {scope : Scope} {P Q : Mention → Prop} (hPQ : ∀ m, P m → Q m)
    {t : NamedType} (h : t.DraftedIn scope P) : t.DraftedIn scope Q :=
  ⟨h.1, h.2.imp fun _ h => ⟨h.1, h.2.imp hPQ⟩⟩

/-- A component under way: what its draft mentions has been referred to or is still to follow. -/
structure Underway.OnCourse (scope : Scope) (p : Progress) (u : Underway) : Prop where
  named : (u.mention.component, u.mention.name) ∈ scope.names
  schema : Member.lookup u.mention.component scope.schemas = some u.node
  result : (draftNode scope (Pool.schema.pointer u.mention.component) u.node).result = u.result
  mentions : ∀ m ∈ (draftNode scope (Pool.schema.pointer u.mention.component) u.node).mentions,
    p.Referred m ∨ m ∈ u.rest

theorem Underway.OnCourse.imp {scope : Scope} {p q : Progress}
    (hp : ∀ m, p.Referred m → q.Referred m) {u : Underway} (h : u.OnCourse scope p) :
    u.OnCourse scope q :=
  { h with mentions := fun m hm => (h.mentions m hm).imp_left (hp m) }

namespace Progress

variable {scope : Scope} {p : Progress} {m next : Mention} {node : Node} {ty : Ty}
  {rest : List Mention} {result : Except Error Ty} {stack : List Underway}

/-- What the steps of the components under way keep. -/
structure Kept (scope : Scope) (I : Progress → List Underway → Prop) : Prop where
  refer : ∀ {p m node next rest result stack}, p.unentered? scope next = none →
    I p (⟨m, node, next :: rest, result⟩ :: stack) →
      I (p.refer next) (⟨m, node, rest, result⟩ :: stack)
  enter : ∀ {p m node next rest result stack child}, p.unentered? scope next = some child →
    I p (⟨m, node, next :: rest, result⟩ :: stack) →
      I ((p.enter next).refer next) (underway scope next child :: ⟨m, node, rest, result⟩ :: stack)
  complete : ∀ {p m node ty stack}, I p (⟨m, node, [], .ok ty⟩ :: stack) →
    I (p.complete scope m node ty) stack

/-- It holds when nothing is left, or with the component that the error is in still under way. -/
inductive Ends (I : Progress → List Underway → Prop) : Progress × Except Error Unit → Prop
  | ok {p : Progress} : I p [] → Ends I (p, .ok ())
  | error {p : Progress} {m : Mention} {node : Node} {error : Error} {stack : List Underway} :
      I p (⟨m, node, [], .error error⟩ :: stack) → Ends I (p, .error error)

namespace Kept

variable {I : Progress → List Underway → Prop} (hI : Kept scope I)
include hI

/-- **Components under way** come to an end where what is kept holds. -/
theorem run (h : I p stack) : Ends I (run scope p stack) := by
  fun_induction Progress.run scope p stack with
  | case1 => exact .ok h
  | case2 _ _ _ _ _ ih => exact ih (hI.complete h)
  | case3 => exact .error h
  | case4 _ _ _ _ _ _ _ hn ih => exact ih (hI.refer hn h)
  | case5 _ _ _ _ _ _ _ _ hn ih => exact ih (hI.enter hn h)

/-- Mentions come to an end where what is kept holds, if each of them may begin with it. -/
theorem follow (Q : Mention → Prop)
    (refer : ∀ {p m}, Q m → p.unentered? scope m = none → I p [] → I (p.refer m) [])
    (enter : ∀ {p m node}, Q m → p.unentered? scope m = some node → I p [] →
      I ((p.enter m).refer m) [underway scope m node])
    {mentions : List Mention} (hQ : ∀ m ∈ mentions, Q m) (h : I p []) :
    Ends I (follow scope p mentions) := by
  fun_induction Progress.follow scope p mentions with
  | case1 => exact .ok h
  | case2 p next rest hn ih =>
    rw [List.forall_mem_cons] at hQ
    exact ih hQ.2 (refer hQ.1 hn h)
  | case3 p next rest node hn p' he ih =>
    rw [List.forall_mem_cons] at hQ
    have hends := hI.run (enter hQ.1 hn h)
    rw [he] at hends
    cases hends with
    | ok h => exact ih hQ.2 h
  | case4 p next rest node hn p' error he =>
    rw [List.forall_mem_cons] at hQ
    have hends := hI.run (enter hQ.1 hn h)
    rw [he] at hends
    cases hends with
    | error h => exact .error h

end Kept

/-- What holds at any time, given the components under way. -/
structure Sound (scope : Scope) (p : Progress) (stack : List Underway) : Prop where
  /-- No name comes under way or is compiled twice. -/
  nodup : (stack.map (fun u => u.mention.name) ++ p.types.map NamedType.name).Nodup
  entered : ∀ name ∈ stack.map (fun u => u.mention.name) ++ p.types.map NamedType.name,
    name ∈ p.entered
  /-- The table holds the programs of the types compiled. -/
  derived : ∀ kind, (p.table.entries kind).DerivedFrom p.declared kind
  names : ∀ kind, (p.table.names kind).Nodup
  types : ∀ t ∈ p.types, t.DraftedIn scope p.Referred
  stack : ∀ u ∈ stack, u.OnCourse scope p

theorem sound_start (scope : Scope) : Sound scope start [] where
  nodup := List.nodup_nil
  entered := fun _ h => absurd h List.not_mem_nil
  derived := fun kind name => by cases kind <;> rfl
  names := fun kind => by cases kind <;> exact List.nodup_nil
  types := fun _ h => absurd h List.not_mem_nil
  stack := fun _ h => absurd h List.not_mem_nil

namespace Sound

theorem refer (h : Sound scope p stack) (m : Mention) : Sound scope (p.refer m) stack := by
  have hd : (p.refer m).declared = p.declared := by
    funext name
    rw [declared, type?, types_refer]; rfl
  constructor
  · rw [types_refer]; exact h.nodup
  · rw [types_refer, entered_refer]; exact h.entered
  · rw [table_refer, hd]; exact h.derived
  · rw [table_refer]; exact h.names
  · rw [types_refer]; exact fun t hm => (h.types t hm).imp fun _ hr => hr.refer m
  · exact fun u hu => (h.stack u hu).imp fun _ hr => hr.refer m

/-- A mention that has been referred to need not be followed. -/
theorem skip (h : Sound scope p (⟨m, node, next :: rest, result⟩ :: stack)) (hr : p.Referred next) :
    Sound scope p (⟨m, node, rest, result⟩ :: stack) := by
  refine { h with stack := fun u hu => ?_ }
  rcases List.mem_cons.mp hu with rfl | hu
  · have hc := h.stack _ List.mem_cons_self
    refine { hc with mentions := fun other ho => ?_ }
    rcases hc.mentions other ho with ho | ho
    · exact Or.inl ho
    · rcases List.mem_cons.mp ho with rfl | ho
      · exact Or.inl hr
      · exact Or.inr ho
  · exact h.stack u (List.mem_cons_of_mem _ hu)

/-- A component comes under way when it has not been entered before. -/
theorem enter (h : Sound scope p stack) (hm : p.unentered? scope m = some node) :
    Sound scope (p.enter m) (underway scope m node :: stack) := by
  obtain ⟨hnot, hnamed, hnode⟩ : m.name ∉ p.entered ∧ (m.component, m.name) ∈ scope.names ∧
      Member.lookup m.component scope.schemas = some node := by
    unfold unentered? at hm
    split_ifs at hm with hc
    simp only [Bool.or_eq_true, not_or, Bool.not_eq_true, Bool.not_eq_false', List.contains_eq_mem,
      decide_eq_true_eq] at hc
    exact ⟨hc.1, hc.2, hm⟩
  refine ⟨?_, ?_, h.derived, h.names, h.types, ?_⟩
  · exact List.nodup_cons.mpr ⟨fun hin => hnot (h.entered _ hin), h.nodup⟩
  · intro name hin
    rcases List.mem_cons.mp hin with rfl | hin
    · exact List.mem_cons_self
    · exact List.mem_cons_of_mem _ (h.entered _ hin)
  · intro u hu
    rcases List.mem_cons.mp hu with rfl | hu
    · exact ⟨hnamed, hnode, rfl, fun _ hmem => Or.inr hmem⟩
    · exact (h.stack u hu).imp fun other => (referred_enter p m other).mpr

/-- A component with nothing left to follow has its type compiled, with its programs. -/
theorem complete (h : Sound scope p (⟨m, node, [], .ok ty⟩ :: stack)) :
    Sound scope (p.complete scope m node ty) stack := by
  have hc := h.stack _ List.mem_cons_self
  obtain ⟨hfresh, hn⟩ := List.nodup_cons.mp h.nodup
  have hnone : p.declared m.name = none :=
    declared_eq_none_of_not_mem fun hm => hfresh (List.mem_append_right _ hm)
  have hperm : (stack.map (fun u => u.mention.name) ++
      (p.complete scope m node ty).types.map NamedType.name).Perm
        (m.name :: (stack.map (fun u => u.mention.name) ++ p.types.map NamedType.name)) := by
    rw [Progress.complete, List.map_append, ← List.append_assoc]
    exact List.perm_append_singleton _ _
  refine ⟨hperm.nodup_iff.mpr h.nodup, fun name hm => h.entered name (hperm.mem_iff.mp hm),
    ?_, ?_, ?_, ?_⟩
  · intro kind name
    rw [declared_complete]
    change ((Kind.all.foldl (fun table kind => table.insert kind m.name (ty.programs kind))
      p.table).programs kind name) = _
    rw [Table.programs_insertAll]
    have hold : p.table.programs kind name = ((p.declared name).map (Ty.programs kind)).getD [] :=
      h.derived kind name
    by_cases he : name = m.name
    · subst he
      rw [hnone] at hold ⊢
      by_cases hp : ty.programs kind = [] <;> simp [hp, hold]
    · rw [if_neg fun hand => he hand.1, if_neg (Ne.symm he), Option.or_none, hold]
  · exact fun kind => Table.nodup_names_insertAll (h.names kind) _ _
  · intro t ht
    rcases List.mem_append.mp ht with ht | ht
    · exact h.types t ht
    · obtain rfl := List.mem_singleton.mp ht
      exact ⟨hc.named, node, hc.schema, hc.result,
        fun other ho => (hc.mentions other ho).resolve_right List.not_mem_nil⟩
  · intro u hu
    exact (h.stack u (List.mem_cons_of_mem _ hu)).imp fun other =>
      (referred_complete p scope m node ty other).mpr

/-- Where an error ends everything, nothing stays under way. -/
theorem drop (h : Sound scope p stack) : Sound scope p [] where
  nodup := (List.nodup_append.mp h.nodup).2.1
  entered := fun name hm => h.entered name (List.mem_append_right _ hm)
  derived := h.derived
  names := h.names
  types := h.types
  stack := fun _ hu => absurd hu List.not_mem_nil

/-- A component comes under way once the mention that leads to it has been followed. -/
theorem enter_refer (h : Sound scope p stack) (hm : p.unentered? scope m = some node) :
    Sound scope ((p.enter m).refer m) (underway scope m node :: stack) :=
  (h.enter hm).refer m

theorem kept (scope : Scope) : Kept scope (Sound scope) where
  refer := fun {p} _ _ next _ _ _ _ h => (h.refer next).skip (referred_refer p next)
  enter := fun {p} _ _ next _ _ _ _ hm h => by
    -- the mention counts as followed before its component comes under way
    have hskip := (h.refer next).skip (referred_refer p next)
    have hm' : (p.refer next).unentered? scope next = p.unentered? scope next := by
      unfold Progress.refer
      split_ifs <;> rfl
    have he : (p.refer next).enter next = (p.enter next).refer next := by
      unfold Progress.refer Progress.enter
      split_ifs <;> rfl
    rw [← he]
    exact hskip.enter (hm'.trans hm)
  complete := complete

/-- Types have distinct names, so each is found by its name. -/
theorem type?_eq_some_iff (h : Sound scope p []) {t : NamedType} :
    p.type? name = some t ↔ t ∈ p.types ∧ t.name = name := by
  refine ⟨mem_of_type?, ?_⟩
  rintro ⟨hm, rfl⟩
  cases ht : p.type? t.name with
  | none => exact absurd (List.mem_map_of_mem hm) (type?_eq_none_iff.mp ht)
  | some other =>
    obtain ⟨ho, hname⟩ := mem_of_type? ht
    rw [List.inj_on_of_nodup_map h.nodup ho hm hname]

/-- **Mentions are followed soundly**, to the end or to an error. -/
theorem follow (h : Sound scope p []) (mentions : List Mention) :
    Sound scope (Progress.follow scope p mentions).1 [] := by
  have hends := (kept scope).follow (fun _ => True) (fun {_ m} _ _ h => h.refer m)
    (fun _ hm h => h.enter_refer hm) (fun m (_ : m ∈ mentions) => trivial) h
  generalize Progress.follow scope p mentions = r at hends ⊢
  cases hends with
  | ok h => exact h
  | error h => exact h.drop

theorem draft {α : Type} (h : Sound scope p []) (d : Draft α) :
    Sound scope (p.draft scope d).1 [] := by
  rw [draft_eq]
  exact h.follow d.mentions

end Sound

/-- Mentions that have been followed without an error have been referred to. -/
theorem referred_of_follow {mentions : List Mention} (hr : (follow scope p mentions).2 = .ok ()) :
    ∀ m ∈ mentions, (follow scope p mentions).1.Referred m := by
  fun_induction Progress.follow scope p mentions with
  | case1 => exact fun _ hm => absurd hm List.not_mem_nil
  | case2 p next rest _ ih =>
    exact List.forall_mem_cons.mpr ⟨(referred_refer p next).follow scope rest, ih hr⟩
  | case3 p next rest node hn p' he ih =>
    have hnext := (referred_refer (p.enter next) next).run scope [underway scope next node]
    rw [he] at hnext
    exact List.forall_mem_cons.mpr ⟨hnext.follow scope rest, ih hr⟩
  | case4 => cases hr

/-- A draft that comes to a value yields it by what has been referred to. -/
theorem yields_of_draft {α : Type} {d : Draft α} {p' : Progress} {value : α}
    (hr : p.draft scope d = (p', .ok value)) : d.Yields p'.Referred value := by
  unfold Progress.draft at hr
  split at hr
  · next p'' hf =>
    obtain ⟨rfl, hv⟩ := Prod.mk.inj hr
    have hreferred := referred_of_follow (congrArg Prod.snd hf)
    rw [hf] at hreferred
    exact ⟨hv, hreferred⟩
  · cases hr

/-- At the end every type referred to has been compiled. -/
theorem isSome_type?_of_finish {compiled : Compiled} (h : p.finish scope = .ok compiled)
    (hm : p.Referred m) : (p.type? m.name).isSome := by
  unfold finish at h
  split at h
  · cases h
  · next hf =>
    obtain ⟨first, hfirst⟩ := Option.isSome_iff_exists.mp hm
    simpa [Option.isSome_iff_ne_none] using List.find?_eq_none.mp hf _ (Member.mem_of_lookup hfirst)

theorem eq_of_finish {compiled : Compiled} (h : p.finish scope = .ok compiled) :
    compiled =
      ⟨scope.names.filterMap fun entry => p.type? entry.2, p.table.prune.1, p.table.prune.2⟩ := by
  unfold finish at h
  split at h
  · cases h
  · exact (Except.ok.inj h).symm

end Progress

end ApiDecl
