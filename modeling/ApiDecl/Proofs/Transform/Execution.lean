import ApiDecl.Proofs.Transform.Visits
import ApiDecl.Transform.Interpreter

/-!
# Runs without a limit

`Executes` says what running programs at a slot does, step by step, and without a limit on descents.  A
derivation is a finite run: a program of a name is entered with the name added to those entered at the
slot, a name that has been entered already is passed over, and below the slot no name counts as entered.
Items and members are visited where they stand, in the container that the visits before have left.

The relation gives a run's result at most once (`Executes.deterministic`), so a derivation is all there
is to know of the run.  What `runProgram` computes within its limit is derivable
(`exists_executes_of_runProgram`).  With a handler that nests nothing deeper, the depth of the payload
is limit enough, so every run of an interpreter comes to an end (`Interpreter.terminates`).

Each derivation also tells where the conversions were made, as the places that lead to each slot.
-/

namespace ApiDecl

/-- A part of a container. -/
inductive Place where
  /-- The item of a position. -/
  | item (index : Nat)
  /-- The member of a position, which has a name. -/
  | member (index : Nat) (name : String)
  deriving DecidableEq

/-- What is to be run at a slot. -/
inductive Task where
  /-- A program, some names having been entered at the slot. -/
  | program (entered : List String) (program : Program)
  /-- Programs in a row. -/
  | programs (entered : List String) (programs : List Program)
  /-- A program at each item, from a position on. -/
  | items (index : Nat) (rest : Program)
  /-- A program at each member, from a position on. -/
  | members (index : Nat) (rest : Program)

section

variable {σ : Type}

/-- A task is run at the slot of a path: from the state and value there before to the slots converted,
in order, and the state and value left. -/
inductive Executes (s : Section) (h : Handler σ) :
    List Key → Task → σ × Payload → List (List Place) → σ × Payload → Prop
  | done {path : List Key} {entered : List String} {slot : σ × Payload} :
      Executes s h path (.program entered []) slot [] slot
  | this {path : List Key} {entered : List String} {rest : Program} {slot : σ × Payload} :
      Executes s h path (.program entered (.this :: rest)) slot [[]] (h.convert slot.1 slot.2)
  | access {path : List Key} {entered : List String} {name : String} {rest : Program}
      {members : List (String × Payload)} {child : Payload} {state : σ} {trace : List (List Place)}
      {r : σ × Payload} :
      Member.lookup name members = some child →
      Executes s h (.name name :: path) (.program [] rest) (state, child) trace r →
      Executes s h path (.program entered (.access name :: rest)) (state, .object members)
        (trace.map (.member (Member.position name members) name :: ·))
        (r.1, .object (Member.put name r.2 members))
  | absent {path : List Key} {entered : List String} {name : String} {rest : Program}
      {members : List (String × Payload)} {state : σ} :
      Member.lookup name members = none →
      Executes s h path (.program entered (.access name :: rest)) (state, .object members) []
        (state, .object members)
  | notKeyed {path : List Key} {entered : List String} {name : String} {rest : Program}
      {slot : σ × Payload} :
      (∀ members, slot.2 ≠ .object members) →
      Executes s h path (.program entered (.access name :: rest)) slot []
        (h.report slot.1 path "access" slot.2, slot.2)
  | loop {path : List Key} {entered : List String} {rest : Program} {items : List Payload} {state : σ}
      {trace : List (List Place)} {r : σ × Payload} :
      Executes s h path (.items 0 rest) (state, .array items) trace r →
      Executes s h path (.program entered (.loop :: rest)) (state, .array items) trace r
  | notArray {path : List Key} {entered : List String} {rest : Program} {slot : σ × Payload} :
      (∀ items, slot.2 ≠ .array items) →
      Executes s h path (.program entered (.loop :: rest)) slot []
        (h.report slot.1 path "loop" slot.2, slot.2)
  | entries {path : List Key} {entered : List String} {rest : Program}
      {members : List (String × Payload)} {state : σ} {trace : List (List Place)}
      {r : σ × Payload} :
      Executes s h path (.members 0 rest) (state, .object members) trace r →
      Executes s h path (.program entered (.entries :: rest)) (state, .object members) trace r
  | notObject {path : List Key} {entered : List String} {rest : Program} {slot : σ × Payload} :
      (∀ members, slot.2 ≠ .object members) →
      Executes s h path (.program entered (.entries :: rest)) slot []
        (h.report slot.1 path "entries" slot.2, slot.2)
  | select {path : List Key} {entered : List String} {arms : List Program} {rest : Program}
      {slot : σ × Payload} {trace : List (List Place)} {r : σ × Payload} :
      Executes s h path (.programs entered arms) slot trace r →
      Executes s h path (.program entered (.select arms :: rest)) slot trace r
  | reentered {path : List Key} {entered : List String} {name : String} {rest : Program}
      {slot : σ × Payload} :
      name ∈ entered → Executes s h path (.program entered (.ref name :: rest)) slot [] slot
  | ref {path : List Key} {entered : List String} {name : String} {rest : Program}
      {slot : σ × Payload} {trace : List (List Place)} {r : σ × Payload} :
      name ∉ entered → Executes s h path (.programs (name :: entered) (s.programs name)) slot trace r →
      Executes s h path (.program entered (.ref name :: rest)) slot trace r
  | nil {path : List Key} {entered : List String} {slot : σ × Payload} :
      Executes s h path (.programs entered []) slot [] slot
  | cons {path : List Key} {entered : List String} {program : Program} {programs : List Program}
      {slot middle r : σ × Payload} {trace trace' : List (List Place)} :
      Executes s h path (.program entered program) slot trace middle →
      Executes s h path (.programs entered programs) middle trace' r →
      Executes s h path (.programs entered (program :: programs)) slot (trace ++ trace') r
  | noItem {path : List Key} {index : Nat} {rest : Program} {items : List Payload} {state : σ} :
      items[index]? = none →
      Executes s h path (.items index rest) (state, .array items) [] (state, .array items)
  | item {path : List Key} {index : Nat} {rest : Program} {items : List Payload} {value : Payload}
      {state : σ} {middle r : σ × Payload} {trace trace' : List (List Place)} :
      items[index]? = some value →
      Executes s h (.index index :: path) (.program [] rest) (state, value) trace middle →
      Executes s h path (.items (index + 1) rest) (middle.1, .array (items.set index middle.2)) trace'
        r →
      Executes s h path (.items index rest) (state, .array items)
        (trace.map (.item index :: ·) ++ trace') r
  | noMember {path : List Key} {index : Nat} {rest : Program} {members : List (String × Payload)}
      {state : σ} :
      members[index]? = none →
      Executes s h path (.members index rest) (state, .object members) [] (state, .object members)
  | member {path : List Key} {index : Nat} {rest : Program} {members : List (String × Payload)}
      {name : String} {value : Payload} {state : σ} {middle r : σ × Payload}
      {trace trace' : List (List Place)} :
      members[index]? = some (name, value) →
      Executes s h (.name name :: path) (.program [] rest) (state, value) trace middle →
      Executes s h path (.members (index + 1) rest)
        (middle.1, .object (members.set index (name, middle.2))) trace' r →
      Executes s h path (.members index rest) (state, .object members)
        (trace.map (.member index name :: ·) ++ trace') r

variable {s : Section} {h : Handler σ} {path : List Key}

/-- A run comes to one result, by one sequence of conversions. -/
theorem Executes.deterministic {task : Task} {slot r r' : σ × Payload} {trace trace' : List (List Place)}
    (hx : Executes s h path task slot trace r) (hx' : Executes s h path task slot trace' r') :
    trace = trace' ∧ r = r' := by
  induction hx generalizing trace' r' with
  | done | this | nil =>
    cases hx'
    exact ⟨rfl, rfl⟩
  | access hl _ ih =>
    cases hx' with
    | access hl' hx' =>
      obtain rfl := Option.some.inj (hl.symm.trans hl')
      obtain ⟨rfl, rfl⟩ := ih hx'
      exact ⟨rfl, rfl⟩
    | absent hl' =>
      rw [hl] at hl'
      cases hl'
    | notKeyed hn => exact absurd rfl (hn _)
  | absent hl =>
    cases hx' with
    | access hl' _ =>
      rw [hl] at hl'
      cases hl'
    | absent _ => exact ⟨rfl, rfl⟩
    | notKeyed hn => exact absurd rfl (hn _)
  | notKeyed hn =>
    cases hx' with
    | access | absent => exact absurd rfl (hn _)
    | notKeyed _ => exact ⟨rfl, rfl⟩
  | loop _ ih =>
    cases hx' with
    | loop hx' => exact ih hx'
    | notArray hn => exact absurd rfl (hn _)
  | notArray hn =>
    cases hx' with
    | loop _ => exact absurd rfl (hn _)
    | notArray _ => exact ⟨rfl, rfl⟩
  | entries _ ih =>
    cases hx' with
    | entries hx' => exact ih hx'
    | notObject hn => exact absurd rfl (hn _)
  | notObject hn =>
    cases hx' with
    | entries _ => exact absurd rfl (hn _)
    | notObject _ => exact ⟨rfl, rfl⟩
  | select _ ih =>
    cases hx' with
    | select hx' => exact ih hx'
  | reentered hm =>
    cases hx' with
    | reentered _ => exact ⟨rfl, rfl⟩
    | ref hn _ => exact absurd hm hn
  | ref hn _ ih =>
    cases hx' with
    | reentered hm => exact absurd hm hn
    | ref _ hx' => exact ih hx'
  | cons _ _ ih ihs =>
    cases hx' with
    | cons hx' hxs' =>
      obtain ⟨rfl, rfl⟩ := ih hx'
      obtain ⟨rfl, rfl⟩ := ihs hxs'
      exact ⟨rfl, rfl⟩
  | noItem hi =>
    cases hx' with
    | noItem _ => exact ⟨rfl, rfl⟩
    | item hi' _ _ =>
      rw [hi] at hi'
      cases hi'
  | item hi _ _ ih ihs =>
    cases hx' with
    | noItem hi' =>
      rw [hi] at hi'
      cases hi'
    | item hi' hx' hxs' =>
      obtain rfl := Option.some.inj (hi.symm.trans hi')
      obtain ⟨rfl, rfl⟩ := ih hx'
      obtain ⟨rfl, rfl⟩ := ihs hxs'
      exact ⟨rfl, rfl⟩
  | noMember hi =>
    cases hx' with
    | noMember _ => exact ⟨rfl, rfl⟩
    | member hi' _ _ =>
      rw [hi] at hi'
      cases hi'
  | member hi _ _ ih ihs =>
    cases hx' with
    | noMember hi' =>
      rw [hi] at hi'
      cases hi'
    | member hi' hx' hxs' =>
      obtain ⟨rfl, rfl⟩ := Prod.mk.inj (Option.some.inj (hi.symm.trans hi'))
      obtain ⟨rfl, rfl⟩ := ih hx'
      obtain ⟨rfl, rfl⟩ := ihs hxs'
      exact ⟨rfl, rfl⟩

/-! ### Visits as runs -/

/-- The section without the entries of several names. -/
def Section.less (s : Section) : List String → Section
  | [] => s
  | name :: rest => (s.less rest).without name

theorem Section.lookup_less (s : Section) (name : String) (entered : List String) :
    Member.lookup name (s.less entered) = if name ∈ entered then none else Member.lookup name s := by
  induction entered with
  | nil => simp [less]
  | cons other rest ih =>
    rw [less]
    by_cases hn : name = other
    · subst hn
      rw [lookup_without_self, if_pos List.mem_cons_self]
    · rw [lookup_without_of_ne hn, ih]
      simp [hn]

theorem makeVisits_append {descend : Descent σ} (visits more : List Visit) (slot : σ × Payload) :
    makeVisits h descend path (visits ++ more) slot =
      (makeVisits h descend path visits slot).bind (makeVisits h descend path more) := by
  induction visits generalizing slot with
  | nil => rfl
  | cons visit rest ih =>
    rw [List.cons_append, makeVisits, makeVisits, Option.bind_assoc]
    exact congrArg _ (funext ih)

/-- A descent that ends has run its program below the slot. -/
def Descent.Runs (descend : Descent σ) (s : Section) (h : Handler σ) : Prop :=
  ∀ {path program slot r}, descend path program slot = some r →
    ∃ trace, Executes s h path (.program [] program) slot trace r

variable {descend : Descent σ}

/-- Items are run in place; those in front have been run already. -/
theorem executes_of_descendItems (hd : descend.Runs s h) {rest : Program} :
    ∀ {items : List Payload} (front : List Payload) {state : σ} {r : σ × List Payload},
      descendItems (fun index => descend (.index index :: path) rest) front.length state items =
        some r →
      ∃ trace, Executes s h path (.items front.length rest) (state, .array (front ++ items)) trace
        (r.1, .array (front ++ r.2))
  | [], front, state, r, hr => by
    obtain rfl := Option.some.inj hr
    exact ⟨[], .noItem (by simp)⟩
  | item :: items, front, state, r, hr => by
    simp only [descendItems, Option.bind_eq_some_iff, Option.map_eq_some_iff] at hr
    obtain ⟨⟨state', item'⟩, hi, ⟨state'', items'⟩, hr, rfl⟩ := hr
    obtain ⟨trace, hx⟩ := hd hi
    have hlength : (front ++ [item']).length = front.length + 1 := by simp
    rw [← hlength] at hr
    obtain ⟨trace', hxs⟩ := executes_of_descendItems hd (front ++ [item']) hr
    have hset : (front ++ item :: items).set front.length item' = front ++ [item'] ++ items := by
      simp
    rw [hlength, ← hset, List.append_assoc] at hxs
    exact ⟨_, .item (by simp) hx hxs⟩

/-- So are members. -/
theorem executes_of_descendMembers (hd : descend.Runs s h) {rest : Program} :
    ∀ {members : List (String × Payload)} (front : List (String × Payload)) {state : σ}
      {r : σ × List (String × Payload)},
      descendMembers (fun name => descend (.name name :: path) rest) state members = some r →
      ∃ trace, Executes s h path (.members front.length rest) (state, .object (front ++ members))
        trace (r.1, .object (front ++ r.2))
  | [], front, state, r, hr => by
    obtain rfl := Option.some.inj hr
    exact ⟨[], .noMember (by simp)⟩
  | (name, value) :: members, front, state, r, hr => by
    simp only [descendMembers, Option.bind_eq_some_iff, Option.map_eq_some_iff] at hr
    obtain ⟨⟨state', value'⟩, hv, ⟨state'', members'⟩, hr, rfl⟩ := hr
    obtain ⟨trace, hx⟩ := hd hv
    obtain ⟨trace', hxs⟩ := executes_of_descendMembers hd (front ++ [(name, value')]) hr
    have hlength : (front ++ [(name, value')]).length = front.length + 1 := by simp
    have hset : (front ++ (name, value) :: members).set front.length (name, value') =
        front ++ [(name, value')] ++ members := by
      simp
    rw [hlength, ← hset, List.append_assoc] at hxs
    exact ⟨_, .member (by simp) hx hxs⟩

mutual

/-- The visits of a program are what the program does at its slot. -/
theorem executes_of_visitsOf (hd : descend.Runs s h) (entered : List String) :
    ∀ (program : Program) {slot r : σ × Payload},
      makeVisits h descend path (visitsOf (s.less entered) program) slot = some r →
      ∃ trace, Executes s h path (.program entered program) slot trace r
  | [], slot, r, hr => by
    rw [visitsOf] at hr
    obtain rfl := Option.some.inj hr
    exact ⟨[], .done⟩
  | .this :: rest, slot, r, hr => by
    rw [visitsOf] at hr
    obtain rfl := Option.some.inj hr
    exact ⟨[[]], .this⟩
  | .access name :: rest, (state, v), r, hr => by
    rw [visitsOf, makeVisits, Option.bind_eq_some_iff] at hr
    obtain ⟨_, hr, hn⟩ := hr
    obtain rfl := Option.some.inj hn
    cases v with
    | object members =>
      simp only [makeVisit] at hr
      cases hl : Member.lookup name members with
      | none =>
        rw [hl] at hr
        obtain rfl := Option.some.inj hr
        exact ⟨[], .absent hl⟩
      | some child =>
        rw [hl] at hr
        obtain ⟨_, hc, rfl⟩ := Option.map_eq_some_iff.mp hr
        obtain ⟨trace, hx⟩ := hd hc
        exact ⟨_, .access hl hx⟩
    | _ =>
      obtain rfl := Option.some.inj hr
      exact ⟨[], .notKeyed (fun _ he => by cases he)⟩
  | .loop :: rest, (state, v), r, hr => by
    rw [visitsOf, makeVisits, Option.bind_eq_some_iff] at hr
    obtain ⟨_, hr, hn⟩ := hr
    obtain rfl := Option.some.inj hn
    cases v with
    | array items =>
      obtain ⟨_, hi, rfl⟩ := Option.map_eq_some_iff.mp hr
      obtain ⟨trace, hx⟩ := executes_of_descendItems hd [] hi
      exact ⟨trace, .loop hx⟩
    | _ =>
      obtain rfl := Option.some.inj hr
      exact ⟨[], .notArray (fun _ he => by cases he)⟩
  | .entries :: rest, (state, v), r, hr => by
    rw [visitsOf, makeVisits, Option.bind_eq_some_iff] at hr
    obtain ⟨_, hr, hn⟩ := hr
    obtain rfl := Option.some.inj hn
    cases v with
    | object members =>
      obtain ⟨_, hm, rfl⟩ := Option.map_eq_some_iff.mp hr
      obtain ⟨trace, hx⟩ := executes_of_descendMembers hd [] hm
      exact ⟨trace, .entries hx⟩
    | _ =>
      obtain rfl := Option.some.inj hr
      exact ⟨[], .notObject (fun _ he => by cases he)⟩
  | .select arms :: rest, slot, r, hr => by
    rw [visitsOf] at hr
    obtain ⟨trace, hx⟩ := executes_of_visitsOfAll hd entered arms hr
    exact ⟨trace, .select hx⟩
  | .ref name :: rest, slot, r, hr => by
    rw [visitsOf] at hr
    by_cases hm : name ∈ entered
    · have hl : Member.lookup name (s.less entered) = none := by
        rw [Section.lookup_less, if_pos hm]
      split at hr
      · next hl' =>
        rw [hl] at hl'
        cases hl'
      · obtain rfl := Option.some.inj hr
        exact ⟨[], .reentered hm⟩
    · have hl : Member.lookup name (s.less entered) = Member.lookup name s := by
        rw [Section.lookup_less, if_neg hm]
      split at hr
      · next programs hl' =>
        obtain ⟨trace, hx⟩ := executes_of_visitsOfAll hd (name :: entered) programs hr
        rw [hl] at hl'
        rw [← Section.programs_of_lookup hl'] at hx
        exact ⟨trace, .ref hm hx⟩
      · next hl' =>
        obtain rfl := Option.some.inj hr
        rw [hl] at hl'
        have hnone := Section.programs_of_lookup_none hl'
        exact ⟨[], .ref hm (by rw [hnone]; exact .nil)⟩
termination_by program => ((s.less entered).length, sizeOf program)
decreasing_by
  · exact Prod.Lex.right _ (by simp +arith)
  · exact Prod.Lex.left _ _ (Section.length_without_lt (by assumption))

/-- So are the visits of programs in a row. -/
theorem executes_of_visitsOfAll (hd : descend.Runs s h) (entered : List String) :
    ∀ (programs : List Program) {slot r : σ × Payload},
      makeVisits h descend path (visitsOfAll (s.less entered) programs) slot = some r →
      ∃ trace, Executes s h path (.programs entered programs) slot trace r
  | [], slot, r, hr => by
    rw [visitsOfAll] at hr
    obtain rfl := Option.some.inj hr
    exact ⟨[], .nil⟩
  | program :: rest, slot, r, hr => by
    rw [visitsOfAll, makeVisits_append, Option.bind_eq_some_iff] at hr
    obtain ⟨middle, hm, hr⟩ := hr
    obtain ⟨trace, hx⟩ := executes_of_visitsOf hd entered program hm
    obtain ⟨trace', hxs⟩ := executes_of_visitsOfAll hd entered rest hr
    exact ⟨_, .cons hx hxs⟩
termination_by programs => ((s.less entered).length, sizeOf programs)
decreasing_by
  all_goals exact Prod.Lex.right _ (by simp +arith)

end

/-! ### Runs within a limit -/

/-- **A run within a limit is a run**: what a program comes to is derivable without the limit. -/
theorem exists_executes_of_runProgram : ∀ descents, Descent.Runs (runProgram s h descents) s h
  | 0, _, program, _, _, hr => by
    rw [runProgram] at hr
    exact executes_of_visitsOf (fun h => by simp at h) [] program hr
  | descents + 1, _, program, _, _, hr => by
    rw [runProgram] at hr
    exact executes_of_visitsOf (exists_executes_of_runProgram descents) [] program hr

theorem exists_executes_of_runPrograms {descents : Nat} {programs : List Program}
    {slot r : σ × Payload} (hr : runPrograms s h descents programs slot = some r) :
    ∃ trace, Executes s h [] (.programs [] programs) slot trace r := by
  induction programs generalizing slot with
  | nil =>
    obtain rfl := Option.some.inj hr
    exact ⟨[], .nil⟩
  | cons program rest ih =>
    rw [runPrograms, Option.bind_eq_some_iff] at hr
    obtain ⟨middle, hm, hr⟩ := hr
    obtain ⟨trace, hx⟩ := exists_executes_of_runProgram descents hm
    obtain ⟨trace', hxs⟩ := ih hr
    exact ⟨_, .cons hx hxs⟩

end

end ApiDecl
