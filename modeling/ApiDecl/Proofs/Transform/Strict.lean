import ApiDecl.Proofs.Transform.Pruning
import ApiDecl.Proofs.Transform.Termination
import ApiDecl.Proofs.Transform.Walks
import Mathlib

/-!
# Strict interpreters

A strict interpreter only observes.  Without what its handler has seen, each run is that of the
handler below it, within the same limit (`runPrograms_strict`, `runAt_strict`), so calls in a row leave
the same payloads and states in either mode (`Interpreter.works_map_snd`).

Calls may be walked along one stack of keys, which each call gets as the call before has left it.
Every walk of a strict session leaves an empty stack behind each call, and the session keeps just the
mismatches among the encounters of its walk (`Interpreter.strict_only_observes`).
-/

namespace ApiDecl

variable {σ : Type} {s : Section} {h : Handler σ}

/-! ### Without what has been seen -/

/-- A state and a result, without the mismatches seen. -/
def unseen {β : Type} (slot : (σ × List Mismatch) × β) : σ × β := (slot.1.1, slot.2)

/-- What goes on is the same under a function if what it goes on from is the same under another. -/
theorem map_bind_eq {α β γ δ : Type} {x : Option α} {x' : Option β} {f : α → β} {g : γ → δ}
    {next : α → Option γ} {next' : β → Option δ} (hx : x.map f = x')
    (hnext : ∀ a, (next a).map g = next' (f a)) : (x.bind next).map g = x'.bind next' := by
  subst hx
  cases x with
  | none => rfl
  | some a => exact hnext a

theorem map_map_eq {α β γ δ : Type} {x : Option α} {x' : Option β} {f : α → β} {g : γ → δ}
    {next : α → γ} {next' : β → δ} (hx : x.map f = x') (hnext : ∀ a, g (next a) = next' (f a)) :
    (x.map next).map g = x'.map next' := by
  subst hx
  cases x with
  | none => rfl
  | some a => exact congrArg some (hnext a)

theorem unseen_report (state : σ × List Mismatch) (path : List Key) (step : String) (v : Payload) :
    (h.strict.report state path step v).1 = h.report state.1 path step v := by
  unfold Handler.report
  split_ifs <;> rfl

theorem descendItems_strict
    {run' : Nat → (σ × List Mismatch) × Payload → Option ((σ × List Mismatch) × Payload)}
    {run : Nat → σ × Payload → Option (σ × Payload)}
    (hrun : ∀ index slot, (run' index slot).map unseen = run index (unseen slot)) :
    ∀ (items : List Payload) (index : Nat) (state : σ × List Mismatch),
      (descendItems run' index state items).map unseen = descendItems run index state.1 items
  | [], _, _ => rfl
  | item :: rest, index, state =>
    map_bind_eq (hrun index (state, item)) fun slot =>
      map_map_eq (descendItems_strict hrun rest (index + 1) slot.1) fun _ => rfl

theorem descendMembers_strict
    {run' : String → (σ × List Mismatch) × Payload → Option ((σ × List Mismatch) × Payload)}
    {run : String → σ × Payload → Option (σ × Payload)}
    (hrun : ∀ name slot, (run' name slot).map unseen = run name (unseen slot)) :
    ∀ (members : List (String × Payload)) (state : σ × List Mismatch),
      (descendMembers run' state members).map unseen = descendMembers run state.1 members
  | [], _ => rfl
  | (name, value) :: rest, state =>
    map_bind_eq (hrun name (state, value)) fun slot =>
      map_map_eq (descendMembers_strict hrun rest slot.1) fun _ => rfl

/-- A descent beside one that also keeps the mismatches. -/
def Descent.Unseen (descend' : Descent (σ × List Mismatch)) (descend : Descent σ) : Prop :=
  ∀ path program slot, (descend' path program slot).map unseen = descend path program (unseen slot)

section

variable {descend' : Descent (σ × List Mismatch)} {descend : Descent σ}
  (hd : Descent.Unseen descend' descend)
include hd

theorem makeVisit_strict (path : List Key) (slot : (σ × List Mismatch) × Payload) (visit : Visit) :
    (makeVisit h.strict descend' path slot visit).map unseen =
      makeVisit h descend path (unseen slot) visit := by
  obtain ⟨state, v⟩ := slot
  cases visit with
  | convert => rfl
  | field name rest =>
    cases v with
    | object members =>
      cases hl : Member.lookup name members with
      | none => simp only [makeVisit, unseen, hl, Option.map_some]
      | some child =>
        simp only [makeVisit, unseen, hl]
        exact map_map_eq (hd (.name name :: path) rest (state, child)) fun _ => rfl
    | _ => exact congrArg some (Prod.ext (unseen_report ..) rfl)
  | items rest =>
    cases v with
    | array items =>
      exact map_map_eq
        (descendItems_strict (fun index => hd (.index index :: path) rest) items 0 state) fun _ => rfl
    | _ => exact congrArg some (Prod.ext (unseen_report ..) rfl)
  | members rest =>
    cases v with
    | object members =>
      exact map_map_eq
        (descendMembers_strict (fun name => hd (.name name :: path) rest) members state) fun _ => rfl
    | _ => exact congrArg some (Prod.ext (unseen_report ..) rfl)

theorem makeVisits_strict (path : List Key) : ∀ (visits : List Visit)
    (slot : (σ × List Mismatch) × Payload),
    (makeVisits h.strict descend' path visits slot).map unseen =
      makeVisits h descend path visits (unseen slot)
  | [], _ => rfl
  | visit :: rest, slot =>
    map_bind_eq (makeVisit_strict hd path slot visit) (makeVisits_strict path rest)

end

/-- **A program runs** alike in either mode. -/
theorem runProgram_strict : ∀ descents,
    Descent.Unseen (runProgram s h.strict descents) (runProgram s h descents)
  | 0, path, program, slot => makeVisits_strict (fun _ _ _ => rfl) path (visitsOf s program) slot
  | descents + 1, path, program, slot =>
    makeVisits_strict (runProgram_strict descents) path (visitsOf s program) slot

theorem runPrograms_strict (descents : Nat) : ∀ (programs : List Program)
    (slot : (σ × List Mismatch) × Payload),
    (runPrograms s h.strict descents programs slot).map unseen =
      runPrograms s h descents programs (unseen slot)
  | [], _ => rfl
  | program :: rest, slot =>
    map_bind_eq (runProgram_strict descents [] program slot) (runPrograms_strict descents rest)

theorem runAt_strict (descents : Nat) (key : Key) (program : Program)
    (slot : (σ × List Mismatch) × Payload) :
    (runAt s h.strict descents key program slot).map unseen =
      runAt s h descents key program (unseen slot) := by
  rw [runAt_eq, runAt_eq]
  have hv : (unseen slot).2 = slot.2 := rfl
  rw [hv]
  cases slot.2.part? key with
  | none => rfl
  | some child => exact map_map_eq (runProgram_strict descents [key] program (slot.1, child)) fun _ => rfl

/-! ### One call -/

/-- What an interpreter is called for. -/
inductive Work where
  /-- Programs at a whole payload. -/
  | whole (programs : List Program)
  /-- A program from a step on, at one part of a container. -/
  | part (key : Key) (program : Program) (index : Nat)

namespace Work

/-- The run of the work at a payload. -/
def run (w : Work) (s : Section) (descents : Nat) {τ : Type} (h : Handler τ) (slot : τ × Payload) :
    Option (τ × Payload) :=
  match w with
  | .whole programs => runPrograms s h descents programs slot
  | .part key program index => runAt s h descents key (program.drop index) slot

/-- The run of the work, without a limit on descents. -/
def Executes (w : Work) (s : Section) (h : Handler σ) (slot : σ × Payload)
    (trace : List (List Place)) (r : σ × Payload) : Prop :=
  match w with
  | .whole programs => ApiDecl.Executes s h [] (.programs [] programs) slot trace r
  | .part key program index => ExecutesAt s h key (program.drop index) slot trace r

/-- The work is walked: for a part, its key is pushed first and popped last. -/
inductive Walks (s : Section) (h : Handler σ) : Work → List Key → σ × Payload → List Encounter →
    List Key → σ × Payload → Prop
  | whole {programs : List Program} {stack stack' : List Key} {slot r : σ × Payload}
      {log : List Encounter} :
      ApiDecl.Walks s h [] (.programs [] programs) stack slot log stack' r →
      Walks s h (.whole programs) stack slot log stack' r
  | member {name : String} {program : Program} {index : Nat} {members : List (String × Payload)}
      {child : Payload} {state : σ} {stack stack' : List Key} {log : List Encounter}
      {r : σ × Payload} :
      Member.lookup name members = some child →
      ApiDecl.Walks s h [.name name] (.program [] (program.drop index)) (.name name :: stack)
        (state, child) log stack' r →
      Walks s h (.part (.name name) program index) stack (state, .object members) log stack'.tail
        (r.1, .object (Member.put name r.2 members))
  | item {position : Nat} {program : Program} {index : Nat} {items : List Payload}
      {child : Payload} {state : σ} {stack stack' : List Key} {log : List Encounter}
      {r : σ × Payload} :
      items[position]? = some child →
      ApiDecl.Walks s h [.index position] (.program [] (program.drop index))
        (.index position :: stack) (state, child) log stack' r →
      Walks s h (.part (.index position) program index) stack (state, .array items) log stack'.tail
        (r.1, .array (items.set position r.2))
  | noMember {name : String} {program : Program} {index : Nat} {stack : List Key}
      {slot : σ × Payload} :
      (∀ members, slot.2 = .object members → Member.lookup name members = none) →
      Walks s h (.part (.name name) program index) stack slot [] stack slot
  | noItem {position : Nat} {program : Program} {index : Nat} {stack : List Key}
      {slot : σ × Payload} :
      (∀ items, slot.2 = .array items → items[position]? = none) →
      Walks s h (.part (.index position) program index) stack slot [] stack slot

variable {w : Work} {slot r r' : σ × Payload} {trace trace' : List (List Place)}
  {stack stack' : List Key} {log : List Encounter} {descents : Nat}

theorem run_strict (slot : (σ × List Mismatch) × Payload) :
    (w.run s descents h.strict slot).map unseen = w.run s descents h (unseen slot) := by
  cases w with
  | whole programs => exact runPrograms_strict descents programs slot
  | part key program index => exact runAt_strict descents key (program.drop index) slot

/-- Work comes to an end within the depth of the payload. -/
theorem run_isSome (level : h.Level) (slot : σ × Payload) :
    (w.run s slot.2.depth h slot).isSome = true := by
  cases w with
  | whole programs => exact runPrograms_isSome s level programs slot
  | part key program index => exact runAt_isSome s level key (program.drop index) slot.1 slot.2

theorem executes_of_run (hr : w.run s descents h slot = some r) :
    ∃ trace, w.Executes s h slot trace r := by
  cases w with
  | whole programs => exact exists_executes_of_runPrograms hr
  | part key program index => exact exists_executesAt_of_runAt hr

theorem Executes.deterministic (hx : w.Executes s h slot trace r)
    (hx' : w.Executes s h slot trace' r') : trace = trace' ∧ r = r' := by
  cases w with
  | whole programs => exact ApiDecl.Executes.deterministic hx hx'
  | part key program index => exact ExecutesAt.deterministic hx hx'

theorem Executes.walks (hx : w.Executes s h slot trace r) : ∃ log, w.Walks s h [] slot log [] r := by
  cases w with
  | whole programs =>
    obtain ⟨log, hw⟩ := ApiDecl.Executes.walks hx
    exact ⟨log, .whole hw⟩
  | part key program index =>
    cases hx with
    | member hl hx =>
      obtain ⟨log, hw⟩ := hx.walks
      exact ⟨log, .member hl hw⟩
    | item hi hx =>
      obtain ⟨log, hw⟩ := hx.walks
      exact ⟨log, .item hi hw⟩
    | noMember hn => exact ⟨[], .noMember hn⟩
    | noItem hn => exact ⟨[], .noItem hn⟩

theorem Walks.stack_eq (hw : w.Walks s h stack slot log stack' r) : stack' = stack := by
  cases hw with
  | whole hw => exact hw.stack_eq
  | member _ hw | item _ hw => rw [hw.stack_eq, List.tail_cons]
  | noMember | noItem => rfl

theorem Walks.executes (hw : w.Walks s h [] slot log stack' r) :
    ∃ trace, w.Executes s h slot trace r := by
  cases hw with
  | whole hw => exact hw.executes rfl
  | member hl hw =>
    obtain ⟨trace, hx⟩ := hw.executes rfl
    exact ⟨_, .member hl hx⟩
  | item hi hw =>
    obtain ⟨trace, hx⟩ := hw.executes rfl
    exact ⟨_, .item hi hx⟩
  | noMember hn => exact ⟨_, .noMember hn⟩
  | noItem hn => exact ⟨_, .noItem hn⟩

theorem Walks.mismatches_eq {slot r : (σ × List Mismatch) × Payload}
    (hw : w.Walks s h.strict [] slot log stack' r) : r.1.2 = slot.1.2 ++ mismatchesOf log := by
  cases hw with
  | whole hw => exact hw.mismatches_eq rfl
  | member _ hw | item _ hw => exact hw.mismatches_eq rfl
  | noMember | noItem => exact (List.append_nil _).symm

end Work

/-! ### Calls in a row -/

/-- A call of an interpreter. -/
structure Job where
  work : Work
  /-- The payload, or the container of the part. -/
  payload : Payload
  /-- A limit on nested descents. -/
  descents : Nat

/-- What one call leaves behind: the encounters of its walk, and the stack of keys. -/
structure Record where
  log : List Encounter
  stack : List Key

/-- Calls are walked in a row, each from the stack and the state that the call before has left. -/
inductive WalksAll (s : Section) (h : Handler σ) : List Job → List Key → σ → List Record → σ →
    List Payload → Prop
  | nil {stack : List Key} {state : σ} : WalksAll s h [] stack state [] state []
  | cons {job : Job} {jobs : List Job} {stack stack' : List Key} {state middle final : σ}
      {log : List Encounter} {payload : Payload} {records : List Record} {payloads : List Payload} :
      job.work.Walks s h stack (state, job.payload) log stack' (middle, payload) →
      WalksAll s h jobs stack' middle records final payloads →
      WalksAll s h (job :: jobs) stack state (⟨log, stack'⟩ :: records) final (payload :: payloads)

namespace Interpreter

/-- A call of the interpreter. -/
def work (i : Interpreter) (t : Table) (h : Handler σ) (state : σ) (job : Job) :
    Option (Interpreter × σ × Payload) :=
  match job.work with
  | .whole programs => i.runPrograms t h job.descents programs (state, job.payload)
  | .part key program index => i.runAt t h job.descents key program index (state, job.payload)

/-- Calls of one interpreter in a row, with the payload that each leaves. -/
def works (t : Table) (h : Handler σ) : Interpreter → σ → List Job →
    Option (Interpreter × σ × List Payload)
  | i, state, [] => some (i, state, [])
  | i, state, job :: jobs => (i.work t h state job).bind fun (i, state, payload) =>
    (works t h i state jobs).map fun (i, state, payloads) => (i, state, payload :: payloads)

variable {i i' : Interpreter} {t : Table} {state : σ} {job : Job} {jobs : List Job}

theorem work_eq_observe : i.work t h state job =
    i.observe h (job.work.run (t.entries i.kind) job.descents) (state, job.payload) := by
  unfold work
  cases job.work with
  | whole programs => rfl
  | part key program index =>
    unfold Interpreter.runAt observe
    simp only [runAtFrom_eq_runAt]
    rfl

/-- Beside the interpreter, a call leaves what the run of its work does. -/
theorem work_map_snd : (i.work t h state job).map Prod.snd =
    job.work.run (t.entries i.kind) job.descents h (state, job.payload) := by
  rw [work_eq_observe]
  unfold observe
  split_ifs
  · rw [Option.map_map]
    exact Work.run_strict ((state, i.mismatches), job.payload)
  · rw [Option.map_map]
    exact Option.map_id'

/-- A call changes nothing of the interpreter but its mismatches. -/
theorem kind_of_work {r : σ × Payload} (hw : i.work t h state job = some (i', r)) :
    i'.kind = i.kind ∧ i'.strict = i.strict := by
  rw [work_eq_observe, observe] at hw
  split_ifs at hw
  · obtain ⟨_, -, he⟩ := Option.map_eq_some_iff.mp hw
    obtain ⟨rfl, -⟩ := Prod.mk.inj he
    exact ⟨rfl, rfl⟩
  · obtain ⟨_, -, he⟩ := Option.map_eq_some_iff.mp hw
    obtain ⟨rfl, -⟩ := Prod.mk.inj he
    exact ⟨rfl, rfl⟩

/-- In strict mode, a call is the run with the mismatches kept behind those met before. -/
theorem run_of_work {r : σ × Payload} (hs : i.strict = true)
    (hw : i.work t h state job = some (i', r)) :
    job.work.run (t.entries i.kind) job.descents h.strict ((state, i.mismatches), job.payload) =
      some ((r.1, i'.mismatches), r.2) := by
  rw [work_eq_observe, observe, if_pos hs] at hw
  obtain ⟨⟨⟨_, _⟩, _⟩, hr, he⟩ := Option.map_eq_some_iff.mp hw
  obtain ⟨rfl, rfl⟩ := Prod.mk.inj he
  exact hr

theorem works_cons_map_snd {middle : σ} {payload : Payload}
    (hw : i.work t h state job = some (i', middle, payload)) (jobs : List Job) :
    (works t h i state (job :: jobs)).map Prod.snd =
      ((works t h i' middle jobs).map Prod.snd).map fun r => (r.1, payload :: r.2) := by
  rw [works, hw, Option.bind_some]
  exact map_map_eq rfl fun _ => rfl

/-- **Calls in a row** leave the same states and payloads whatever the mode. -/
theorem works_map_snd : ∀ {i i' : Interpreter} {state : σ} {jobs : List Job}, i.kind = i'.kind →
    (works t h i state jobs).map Prod.snd = (works t h i' state jobs).map Prod.snd
  | _, _, _, [], _ => rfl
  | i, i', state, job :: jobs, hk => by
    -- the interpreters that the call leaves may differ, but not in their kind
    have hwork : (i.work t h state job).map Prod.snd = (i'.work t h state job).map Prod.snd := by
      rw [work_map_snd, work_map_snd, hk]
    cases hw : i.work t h state job with
    | none =>
      rw [hw, Option.map_none, eq_comm, Option.map_eq_none_iff] at hwork
      rw [works, works, hw, hwork]
    | some r =>
      obtain ⟨j, middle, payload⟩ := r
      rw [hw, Option.map_some, eq_comm, Option.map_eq_some_iff] at hwork
      obtain ⟨⟨j', r⟩, hw', rfl⟩ := hwork
      have hkind : j.kind = j'.kind := by rw [(kind_of_work hw).1, (kind_of_work hw').1, hk]
      rw [works_cons_map_snd hw, works_cons_map_snd hw', works_map_snd hkind]

theorem works_cons_eq_some {final : σ} {payloads : List Payload}
    (hr : works t h i state (job :: jobs) = some (i', final, payloads)) :
    ∃ j middle payload rest, i.work t h state job = some (j, middle, payload) ∧
      works t h j middle jobs = some (i', final, rest) ∧ payloads = payload :: rest := by
  rw [works, Option.bind_eq_some_iff] at hr
  obtain ⟨⟨j, middle, payload⟩, hw, hr⟩ := hr
  obtain ⟨⟨_, _, rest⟩, hrest, he⟩ := Option.map_eq_some_iff.mp hr
  cases he
  exact ⟨j, middle, payload, rest, hw, hrest, rfl⟩

/-- What a strict interpreter has been called for can be walked. -/
theorem exists_walksAll : ∀ {jobs : List Job} {i i' : Interpreter} {state final : σ}
    {payloads : List Payload}, i.strict = true →
      works t h i state jobs = some (i', final, payloads) →
      ∃ records, WalksAll (t.entries i.kind) h.strict jobs [] (state, i.mismatches) records
        (final, i'.mismatches) payloads
  | [], i, _, state, _, _, _, hr => by
    obtain ⟨rfl, he⟩ := Prod.mk.inj (Option.some.inj hr)
    obtain ⟨rfl, rfl⟩ := Prod.mk.inj he
    exact ⟨[], .nil⟩
  | job :: jobs, i, _, state, _, _, hs, hr => by
    obtain ⟨j, middle, payload, rest, hw, hrest, rfl⟩ := works_cons_eq_some hr
    obtain ⟨hkind, hstrict⟩ := kind_of_work hw
    obtain ⟨trace, hx⟩ := Work.executes_of_run (run_of_work hs hw)
    obtain ⟨log, hwalk⟩ := hx.walks
    obtain ⟨records, hwalks⟩ := exists_walksAll (hstrict.trans hs) hrest
    rw [hkind] at hwalks
    exact ⟨_, .cons hwalk hwalks⟩

/-- However it is walked, each walk leaves no key behind, and the mismatches are those met. -/
theorem works_of_walksAll : ∀ {jobs : List Job} {i i' : Interpreter} {state final : σ}
    {payloads payloads' : List Payload} {final' : σ × List Mismatch} {records : List Record},
      i.strict = true → works t h i state jobs = some (i', final, payloads) →
      WalksAll (t.entries i.kind) h.strict jobs [] (state, i.mismatches) records final' payloads' →
      final' = (final, i'.mismatches) ∧ payloads' = payloads ∧
        (∀ record ∈ records, record.stack = []) ∧
        i'.mismatches = i.mismatches ++ records.flatMap fun record => mismatchesOf record.log
  | [], i, _, state, _, _, _, _, _, _, hr, .nil => by
    obtain ⟨rfl, he⟩ := Prod.mk.inj (Option.some.inj hr)
    obtain ⟨rfl, rfl⟩ := Prod.mk.inj he
    exact ⟨rfl, rfl, fun _ hm => absurd hm List.not_mem_nil, (List.append_nil _).symm⟩
  | job :: jobs, i, i', state, _, _, _, _, _, hs, hr, .cons hwalk hwalks => by
    obtain ⟨j, middle, payload, rest, hw, hrest, rfl⟩ := works_cons_eq_some hr
    obtain ⟨hkind, hstrict⟩ := kind_of_work hw
    -- the next call is walked from the empty stack, too
    obtain rfl := hwalk.stack_eq
    obtain ⟨_, hx⟩ := Work.executes_of_run (run_of_work hs hw)
    obtain ⟨_, hx'⟩ := hwalk.executes
    obtain ⟨-, he⟩ := hx'.deterministic hx
    obtain ⟨rfl, rfl⟩ := Prod.mk.inj he
    have hmismatches : j.mismatches = i.mismatches ++ mismatchesOf _ := hwalk.mismatches_eq
    rw [← hkind] at hwalks
    obtain ⟨hfinal, rfl, hstacks, hseen⟩ := works_of_walksAll (hstrict.trans hs) hrest hwalks
    refine ⟨hfinal, rfl, List.forall_mem_cons.mpr ⟨rfl, hstacks⟩, ?_⟩
    rw [hseen, hmismatches, List.flatMap_cons, List.append_assoc]

/-- Calls come to an end, if their limits are the depths of their payloads. -/
theorem works_isSome (level : h.Level) : ∀ {jobs : List Job} {i : Interpreter} {state : σ},
    (∀ job ∈ jobs, job.descents = job.payload.depth) → (works t h i state jobs).isSome = true
  | [], _, _, _ => rfl
  | job :: jobs, i, state, hd => by
    rw [List.forall_mem_cons] at hd
    have hrun : (i.work t h state job).isSome = true := by
      rw [← Option.isSome_map (f := Prod.snd), work_map_snd, hd.1]
      exact Work.run_isSome level (state, job.payload)
    obtain ⟨⟨j, middle, payload⟩, hw⟩ := Option.isSome_iff_exists.mp hrun
    rw [← Option.isSome_map (f := Prod.snd), works_cons_map_snd hw, Option.isSome_map,
      Option.isSome_map]
    exact works_isSome level hd.2

/-- **Strict mode observes without interfering.**  Whatever the table, the conversion and the calls in
a row, a strict interpreter leaves the payloads, the state and the values converted that a lenient one
leaves.  Its calls can be walked along a stack of keys; however they are, the stack is empty behind
each call, and the mismatches are those among the encounters, in their order.  If no conversion nests
deeper, and the limits are the depths of the payloads, the calls come to an end. -/
theorem strict_only_observes {σ : Type} (t : Table) (kind : Kind)
    (convert : σ → Payload → σ × Payload) (state : σ) (jobs : List Job) :
    (works t (.recording convert) (.new kind true) (state, []) jobs).map Prod.snd =
        (works t (.recording convert) (.new kind false) (state, []) jobs).map Prod.snd ∧
      (∀ i final payloads,
        works t (.recording convert) (.new kind true) (state, []) jobs = some (i, final, payloads) →
        (∃ records, WalksAll (t.entries kind) (Handler.recording convert).strict jobs []
          ((state, []), []) records (final, i.mismatches) payloads) ∧
        ∀ records final' payloads', WalksAll (t.entries kind) (Handler.recording convert).strict jobs
            [] ((state, []), []) records final' payloads' →
          final' = (final, i.mismatches) ∧ payloads' = payloads ∧
            (∀ record ∈ records, record.stack = []) ∧
            i.mismatches = records.flatMap fun record => mismatchesOf record.log) ∧
      ((∀ state v, (convert state v).2.depth ≤ v.depth) →
        (∀ job ∈ jobs, job.descents = job.payload.depth) →
        (works t (.recording convert) (.new kind true) (state, []) jobs).isSome = true) := by
  refine ⟨works_map_snd rfl, fun i final payloads hr => ⟨exists_walksAll rfl hr, ?_⟩, ?_⟩
  · exact fun records final' payloads' hw => works_of_walksAll rfl hr hw
  · exact fun level hd => works_isSome (fun state v => level state.1 v) hd

end Interpreter

/-! ### Two mismatches -/

/-- A program at a list with an item of another shape, and one from its second step on at a part. -/
def loggedJobs : List Job :=
  [⟨.whole [[.access "items", .loop, .access "at", .this]],
      .object [("items", .array [.object [("at", .string "a")], .string "b"])], 3⟩,
    ⟨.part (.name "items") [.this, .entries] 1, .object [("items", .array [.string "c"])], 2⟩]

/-- The mismatches of both calls. -/
def loggedMismatches : List Mismatch :=
  [⟨"$.items[1]", "access", "string"⟩, ⟨"$.items", "entries", "array"⟩]

/-- Both mismatches are told from the roots of their calls. -/
theorem Interpreter.strict_only_observes_logged :
    (∀ (_ : Nat) (v : Payload), v.depth ≤ v.depth) ∧
      (∀ job ∈ loggedJobs, job.descents = job.payload.depth) ∧
      works ⟨none, none⟩ (.recording fun n v => (n + 1, v)) (.new .date true) (0, []) loggedJobs =
        some (⟨.date, true, loggedMismatches⟩, (1, [.string "a"]), loggedJobs.map Job.payload) ∧
      (works ⟨none, none⟩ (.recording fun n v => (n + 1, v)) (.new .date false) (0, [])
        loggedJobs).map Prod.snd = some ((1, [.string "a"]), loggedJobs.map Job.payload) ∧
      (∃ records, WalksAll [] (Handler.recording fun n v => (n + 1, v)).strict loggedJobs []
        ((0, []), []) records ((1, [.string "a"]), loggedMismatches) (loggedJobs.map Job.payload) ∧
          (∀ record ∈ records, record.stack = []) ∧
          loggedMismatches = records.flatMap fun record => mismatchesOf record.log) ∧
      (works ⟨none, none⟩ (.recording fun n v => (n + 1, v)) (.new .date true) (0, [])
        loggedJobs).isSome = true := by
  have level : ∀ (_ : Nat) (v : Payload), v.depth ≤ v.depth := fun _ _ => Nat.le_refl _
  have hd : ∀ job ∈ loggedJobs, job.descents = job.payload.depth := by decide
  have hr : works ⟨none, none⟩ (.recording fun n v => (n + 1, v)) (.new .date true) (0, [])
      loggedJobs = some (⟨.date, true, loggedMismatches⟩, (1, [.string "a"]),
        loggedJobs.map Job.payload) := by
    cbv
  obtain ⟨hlenient, hwalks, hends⟩ :=
    strict_only_observes ⟨none, none⟩ .date (fun n v => (n + 1, v)) 0 loggedJobs
  obtain ⟨⟨records, hw⟩, hall⟩ := hwalks _ _ _ hr
  obtain ⟨-, -, hstacks, hseen⟩ := hall records _ _ hw
  refine ⟨level, hd, hr, ?_, ⟨records, hw, hstacks, hseen⟩, hends level hd⟩
  rw [← hlenient, hr]
  rfl

end ApiDecl
