import ApiDecl.Proofs.Transform.Execution

/-!
# Walks along a stack of keys

A run can be made with one stack of keys instead of a path for each slot: a key is pushed in front of
a descent and popped behind it, and a value of the wrong shape is reported with the stack as its path.
`Walks` says what such a run does.  It carries the keys of the descent beside the stack, and it logs
an `Encounter` for each visit of a step: the way to the slot, the step, and the value as the visits
before have left it.

Pushes and pops match, so a walk leaves the stack as it was (`Walks.stack_eq`).  Hence a walk from the
path of its slot is a run (`Walks.executes`), each run can be walked (`Executes.walks`), and a strict
handler keeps just the mismatches among the encounters of a walk (`Walks.mismatches_eq`).
-/

namespace ApiDecl

/-! ### Encounters -/

/-- A visit of a step at a slot. -/
structure Encounter where
  /-- The keys descended into, last one first. -/
  path : List Key
  step : Step
  /-- The value in the slot at the time of the visit. -/
  value : Payload

/-- The step can go on at the value: a member and members need an object, and items an array. -/
def Step.fits : Step → Payload → Bool
  | .access _, .object _ | .entries, .object _ | .loop, .array _ => true
  | .access _, _ | .entries, _ | .loop, _ => false
  | .this, _ | .select _, _ | .ref _, _ => true

/-- The mismatch that an encounter is, unless the value is null. -/
def Encounter.mismatch? (e : Encounter) : Option Mismatch :=
  if e.value.isNull || e.step.fits e.value then none
  else some ⟨pathText e.path, e.step.name, e.value.typeName⟩

/-- The mismatches among encounters, in their order. -/
def mismatchesOf (log : List Encounter) : List Mismatch := log.filterMap Encounter.mismatch?

theorem mismatchesOf_append (log log' : List Encounter) :
    mismatchesOf (log ++ log') = mismatchesOf log ++ mismatchesOf log' :=
  List.filterMap_append

theorem mismatchesOf_cons_of_fits {e : Encounter} (h : e.step.fits e.value = true)
    (log : List Encounter) : mismatchesOf (e :: log) = mismatchesOf log := by
  refine List.filterMap_cons_none ?_
  rw [Encounter.mismatch?, h, Bool.or_true, if_pos rfl]

section

variable {σ : Type}

/-- A task is walked at a slot from a stack of keys: from the state and value there before to the
encounters on the way, in order, the stack behind, and the state and value left. -/
inductive Walks (s : Section) (h : Handler σ) : List Key → Task → List Key → σ × Payload →
    List Encounter → List Key → σ × Payload → Prop
  | done {path stack : List Key} {entered : List String} {slot : σ × Payload} :
      Walks s h path (.program entered []) stack slot [] stack slot
  | this {path stack : List Key} {entered : List String} {rest : Program} {slot : σ × Payload} :
      Walks s h path (.program entered (.this :: rest)) stack slot [⟨path, .this, slot.2⟩] stack
        (h.convert slot.1 slot.2)
  | access {path stack stack' : List Key} {entered : List String} {name : String} {rest : Program}
      {members : List (String × Payload)} {child : Payload} {state : σ} {log : List Encounter}
      {r : σ × Payload} :
      Member.lookup name members = some child →
      Walks s h (.name name :: path) (.program [] rest) (.name name :: stack) (state, child) log
        stack' r →
      Walks s h path (.program entered (.access name :: rest)) stack (state, .object members)
        (⟨path, .access name, .object members⟩ :: log) stack'.tail
        (r.1, .object (Member.put name r.2 members))
  | absent {path stack : List Key} {entered : List String} {name : String} {rest : Program}
      {members : List (String × Payload)} {state : σ} :
      Member.lookup name members = none →
      Walks s h path (.program entered (.access name :: rest)) stack (state, .object members)
        [⟨path, .access name, .object members⟩] stack (state, .object members)
  | notKeyed {path stack : List Key} {entered : List String} {name : String} {rest : Program}
      {slot : σ × Payload} :
      (∀ members, slot.2 ≠ .object members) →
      Walks s h path (.program entered (.access name :: rest)) stack slot
        [⟨path, .access name, slot.2⟩] stack (h.report slot.1 stack "access" slot.2, slot.2)
  | loop {path stack stack' : List Key} {entered : List String} {rest : Program}
      {items : List Payload} {state : σ} {log : List Encounter} {r : σ × Payload} :
      Walks s h path (.items 0 rest) stack (state, .array items) log stack' r →
      Walks s h path (.program entered (.loop :: rest)) stack (state, .array items)
        (⟨path, .loop, .array items⟩ :: log) stack' r
  | notArray {path stack : List Key} {entered : List String} {rest : Program} {slot : σ × Payload} :
      (∀ items, slot.2 ≠ .array items) →
      Walks s h path (.program entered (.loop :: rest)) stack slot [⟨path, .loop, slot.2⟩] stack
        (h.report slot.1 stack "loop" slot.2, slot.2)
  | entries {path stack stack' : List Key} {entered : List String} {rest : Program}
      {members : List (String × Payload)} {state : σ} {log : List Encounter} {r : σ × Payload} :
      Walks s h path (.members 0 rest) stack (state, .object members) log stack' r →
      Walks s h path (.program entered (.entries :: rest)) stack (state, .object members)
        (⟨path, .entries, .object members⟩ :: log) stack' r
  | notObject {path stack : List Key} {entered : List String} {rest : Program}
      {slot : σ × Payload} :
      (∀ members, slot.2 ≠ .object members) →
      Walks s h path (.program entered (.entries :: rest)) stack slot [⟨path, .entries, slot.2⟩]
        stack (h.report slot.1 stack "entries" slot.2, slot.2)
  | select {path stack stack' : List Key} {entered : List String} {arms : List Program}
      {rest : Program} {slot : σ × Payload} {log : List Encounter} {r : σ × Payload} :
      Walks s h path (.programs entered arms) stack slot log stack' r →
      Walks s h path (.program entered (.select arms :: rest)) stack slot
        (⟨path, .select arms, slot.2⟩ :: log) stack' r
  | reentered {path stack : List Key} {entered : List String} {name : String} {rest : Program}
      {slot : σ × Payload} :
      name ∈ entered →
      Walks s h path (.program entered (.ref name :: rest)) stack slot [⟨path, .ref name, slot.2⟩]
        stack slot
  | ref {path stack stack' : List Key} {entered : List String} {name : String} {rest : Program}
      {slot : σ × Payload} {log : List Encounter} {r : σ × Payload} :
      name ∉ entered →
      Walks s h path (.programs (name :: entered) (s.programs name)) stack slot log stack' r →
      Walks s h path (.program entered (.ref name :: rest)) stack slot
        (⟨path, .ref name, slot.2⟩ :: log) stack' r
  | nil {path stack : List Key} {entered : List String} {slot : σ × Payload} :
      Walks s h path (.programs entered []) stack slot [] stack slot
  | cons {path stack between stack' : List Key} {entered : List String} {program : Program}
      {programs : List Program} {slot middle r : σ × Payload} {log log' : List Encounter} :
      Walks s h path (.program entered program) stack slot log between middle →
      Walks s h path (.programs entered programs) between middle log' stack' r →
      Walks s h path (.programs entered (program :: programs)) stack slot (log ++ log') stack' r
  | noItem {path stack : List Key} {index : Nat} {rest : Program} {items : List Payload}
      {state : σ} :
      items[index]? = none →
      Walks s h path (.items index rest) stack (state, .array items) [] stack (state, .array items)
  | item {path stack between stack' : List Key} {index : Nat} {rest : Program}
      {items : List Payload} {value : Payload} {state : σ} {middle r : σ × Payload}
      {log log' : List Encounter} :
      items[index]? = some value →
      Walks s h (.index index :: path) (.program [] rest) (.index index :: stack) (state, value) log
        between middle →
      Walks s h path (.items (index + 1) rest) between.tail
        (middle.1, .array (items.set index middle.2)) log' stack' r →
      Walks s h path (.items index rest) stack (state, .array items) (log ++ log') stack' r
  | noMember {path stack : List Key} {index : Nat} {rest : Program}
      {members : List (String × Payload)} {state : σ} :
      members[index]? = none →
      Walks s h path (.members index rest) stack (state, .object members) [] stack
        (state, .object members)
  | member {path stack between stack' : List Key} {index : Nat} {rest : Program}
      {members : List (String × Payload)} {name : String} {value : Payload} {state : σ}
      {middle r : σ × Payload} {log log' : List Encounter} :
      members[index]? = some (name, value) →
      Walks s h (.name name :: path) (.program [] rest) (.name name :: stack) (state, value) log
        between middle →
      Walks s h path (.members (index + 1) rest) between.tail
        (middle.1, .object (members.set index (name, middle.2))) log' stack' r →
      Walks s h path (.members index rest) stack (state, .object members) (log ++ log') stack' r

variable {s : Section} {h : Handler σ} {path stack stack' : List Key} {task : Task}
  {slot r : σ × Payload} {log : List Encounter}

/-! ### Walks as runs -/

/-- **The stack is left as it was.** -/
theorem Walks.stack_eq (hw : Walks s h path task stack slot log stack' r) : stack' = stack := by
  induction hw with
  | done | this | absent | notKeyed | notArray | notObject | reentered | nil | noItem | noMember =>
    rfl
  | loop _ ih | entries _ ih | select _ ih | ref _ _ ih => exact ih
  | access _ _ ih => rw [ih, List.tail_cons]
  | cons _ _ ih ihs => rw [ihs, ih]
  | item _ _ _ ih ihs | member _ _ _ ih ihs => rw [ihs, ih, List.tail_cons]

/-- **A walk is a run** if it starts with the path of its slot. -/
theorem Walks.executes (hw : Walks s h path task stack slot log stack' r) (hp : stack = path) :
    ∃ trace, Executes s h path task slot trace r := by
  induction hw with
  | done => exact ⟨_, .done⟩
  | this => exact ⟨_, .this⟩
  | access hl _ ih =>
    obtain ⟨trace, hx⟩ := ih (by rw [hp])
    exact ⟨_, .access hl hx⟩
  | absent hl => exact ⟨_, .absent hl⟩
  | notKeyed hn =>
    rw [hp]
    exact ⟨_, .notKeyed hn⟩
  | loop _ ih =>
    obtain ⟨trace, hx⟩ := ih hp
    exact ⟨_, .loop hx⟩
  | notArray hn =>
    rw [hp]
    exact ⟨_, .notArray hn⟩
  | entries _ ih =>
    obtain ⟨trace, hx⟩ := ih hp
    exact ⟨_, .entries hx⟩
  | notObject hn =>
    rw [hp]
    exact ⟨_, .notObject hn⟩
  | select _ ih =>
    obtain ⟨trace, hx⟩ := ih hp
    exact ⟨_, .select hx⟩
  | reentered hm => exact ⟨_, .reentered hm⟩
  | ref hn _ ih =>
    obtain ⟨trace, hx⟩ := ih hp
    exact ⟨_, .ref hn hx⟩
  | nil => exact ⟨_, .nil⟩
  | cons hw _ ih ihs =>
    obtain ⟨trace, hx⟩ := ih hp
    -- the second program starts from the path only because the first left the stack alone
    obtain ⟨trace', hxs⟩ := ihs (hw.stack_eq.trans hp)
    exact ⟨_, .cons hx hxs⟩
  | noItem hi => exact ⟨_, .noItem hi⟩
  | item hi hw _ ih ihs =>
    obtain ⟨trace, hx⟩ := ih (by rw [hp])
    obtain ⟨trace', hxs⟩ := ihs (by rw [hw.stack_eq, List.tail_cons, hp])
    exact ⟨_, .item hi hx hxs⟩
  | noMember hi => exact ⟨_, .noMember hi⟩
  | member hi hw _ ih ihs =>
    obtain ⟨trace, hx⟩ := ih (by rw [hp])
    obtain ⟨trace', hxs⟩ := ihs (by rw [hw.stack_eq, List.tail_cons, hp])
    exact ⟨_, .member hi hx hxs⟩

/-- **A run can be walked.** -/
theorem Executes.walks {trace : List (List Place)} (hx : Executes s h path task slot trace r) :
    ∃ log, Walks s h path task path slot log path r := by
  induction hx with
  | done => exact ⟨_, .done⟩
  | this => exact ⟨_, .this⟩
  | access hl _ ih =>
    obtain ⟨log, hw⟩ := ih
    exact ⟨_, .access hl hw⟩
  | absent hl => exact ⟨_, .absent hl⟩
  | notKeyed hn => exact ⟨_, .notKeyed hn⟩
  | loop _ ih =>
    obtain ⟨log, hw⟩ := ih
    exact ⟨_, .loop hw⟩
  | notArray hn => exact ⟨_, .notArray hn⟩
  | entries _ ih =>
    obtain ⟨log, hw⟩ := ih
    exact ⟨_, .entries hw⟩
  | notObject hn => exact ⟨_, .notObject hn⟩
  | select _ ih =>
    obtain ⟨log, hw⟩ := ih
    exact ⟨_, .select hw⟩
  | reentered hm => exact ⟨_, .reentered hm⟩
  | ref hn _ ih =>
    obtain ⟨log, hw⟩ := ih
    exact ⟨_, .ref hn hw⟩
  | nil => exact ⟨_, .nil⟩
  | cons _ _ ih ihs =>
    obtain ⟨log, hw⟩ := ih
    obtain ⟨log', hws⟩ := ihs
    exact ⟨_, .cons hw hws⟩
  | noItem hi => exact ⟨_, .noItem hi⟩
  | item hi _ _ ih ihs =>
    obtain ⟨log, hw⟩ := ih
    obtain ⟨log', hws⟩ := ihs
    exact ⟨_, .item hi hw hws⟩
  | noMember hi => exact ⟨_, .noMember hi⟩
  | member hi _ _ ih ihs =>
    obtain ⟨log, hw⟩ := ih
    obtain ⟨log', hws⟩ := ihs
    exact ⟨_, .member hi hw hws⟩

end

/-! ### Mismatches -/

section

variable {σ : Type} {s : Section} {h : Handler σ}

/-- A report that a strict handler gets is a mismatch, or passes for null. -/
theorem Handler.seen_report (state : σ × List Mismatch) (path : List Key) {step : Step}
    {v : Payload} (hv : step.fits v = false) :
    (h.strict.report state path step.name v).2 = state.2 ++ mismatchesOf [⟨path, step, v⟩] := by
  unfold Handler.report mismatchesOf
  cases hn : v.isNull with
  | true => simp [Encounter.mismatch?, hn]
  | false => simp [Encounter.mismatch?, hn, hv, Handler.strict]

theorem Step.fits_eq_false_of_ne_object {step : Step} {v : Payload}
    (hstep : step = .entries ∨ ∃ name, step = .access name)
    (hn : ∀ members, v ≠ .object members) : step.fits v = false := by
  rcases hstep with rfl | ⟨name, rfl⟩ <;> cases v <;> first | rfl | exact absurd rfl (hn _)

theorem Step.fits_loop_eq_false {v : Payload} (hn : ∀ items, v ≠ .array items) :
    Step.loop.fits v = false := by
  cases v <;> first | rfl | exact absurd rfl (hn _)

/-- **A strict handler keeps the mismatches** among the encounters of a walk, in their order. -/
theorem Walks.mismatches_eq {path stack stack' : List Key} {task : Task}
    {slot r : (σ × List Mismatch) × Payload} {log : List Encounter}
    (hw : Walks s h.strict path task stack slot log stack' r) (hp : stack = path) :
    r.1.2 = slot.1.2 ++ mismatchesOf log := by
  induction hw with
  | done | nil | noItem | noMember => exact (List.append_nil _).symm
  | this | reentered | absent =>
    rw [mismatchesOf_cons_of_fits rfl]
    exact (List.append_nil _).symm
  | access _ _ ih =>
    rw [mismatchesOf_cons_of_fits rfl]
    exact ih (by rw [hp])
  | loop _ ih | entries _ ih | select _ ih | ref _ _ ih =>
    rw [mismatchesOf_cons_of_fits rfl]
    exact ih hp
  | notKeyed hn =>
    -- what is reported with the stack has the path of the encounter
    rw [hp]
    exact Handler.seen_report _ _ (Step.fits_eq_false_of_ne_object (Or.inr ⟨_, rfl⟩) hn)
  | notArray hn =>
    rw [hp]
    exact Handler.seen_report _ _ (Step.fits_loop_eq_false hn)
  | notObject hn =>
    rw [hp]
    exact Handler.seen_report _ _ (Step.fits_eq_false_of_ne_object (Or.inl rfl) hn)
  | cons hw _ ih ihs =>
    rw [ihs (hw.stack_eq.trans hp), ih hp, mismatchesOf_append, List.append_assoc]
  | item _ hw _ ih ihs | member _ hw _ ih ihs =>
    rw [ihs (by rw [hw.stack_eq, List.tail_cons, hp]), ih (by rw [hp]), mismatchesOf_append,
      List.append_assoc]

end

end ApiDecl
