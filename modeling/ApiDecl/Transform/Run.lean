import ApiDecl.Payload.Basic
import ApiDecl.Transform.Table

/-!
# Running programs

A program runs at a slot of a payload.  What happens at the slot itself does not depend on the value
there: `visitsOf` unfolds `select` and `ref` into the list of *visits* that programs make, each of them a
conversion of the slot or a descent with the rest of a program.  A name is entered at most once on the
way to a visit, since entering it takes its entry off the section that further names are looked up in;
below the slot all names may be entered again.

Visits are made in order, each on the value that the visit before left.  Conversions belong to a
`Handler`, which may carry a state of any type and is told where a visit met a value of the wrong shape.

* `Payload.part?`, `Payload.setPart`: the part of a container that a key leads to;
* `visitsOf`: the visits of a program;
* `runProgram`: a program run with a limit on nested descents, `none` beyond the limit;
* `runPrograms`, `runAt`: programs run at a whole payload, and a program run at one part of it;
* `Handler.Level`: no conversion nests its result deeper than its argument;
* `runPrograms_isSome`: then the depth of the payload is limit enough, so `run` always has a result.
-/

namespace ApiDecl

/-- A way from a container to a slot in it. -/
inductive Key where
  /-- The member of a name. -/
  | name (name : String)
  /-- The item of a position. -/
  | index (index : Nat)
  deriving DecidableEq

/-- The text of a key in a path. -/
def Key.text : Key → String
  | .name key => "." ++ key
  | .index position => "[" ++ toString position ++ "]"

/-- The text of the path to a slot, whose keys are given last one first. -/
def pathText (path : List Key) : String := "$" ++ String.join (path.reverse.map Key.text)

/-! ### Parts of containers -/

namespace Payload

/-- The part of a container that a key leads to. -/
def part? : Payload → Key → Option Payload
  | .object members, .name name => Member.lookup name members
  | .array items, .index index => items[index]?
  | _, _ => none

/-- The container with another value for the part of a key. -/
def setPart : Payload → Key → Payload → Payload
  | .object members, .name name, value => .object (Member.put name value members)
  | .array items, .index index, value => .array (items.set index value)
  | container, _, _ => container

theorem depth_le_of_part? {v child : Payload} {key : Key} (h : v.part? key = some child) :
    child.depth ≤ v.depth := by
  cases v with
  | object members =>
    cases key with
    | name name => exact Nat.le_succ_of_le (depth_le_of_lookup h)
    | index => cases h
  | array items =>
    cases key with
    | name => cases h
    | index index => exact Nat.le_succ_of_le (depth_le_of_getElem? index h)
  | _ => cases h

end Payload

/-! ### Visits -/

/-- What a program does at its slot. -/
inductive Visit where
  /-- Convert the value. -/
  | convert
  /-- Descend into the member of a name. -/
  | field (name : String) (rest : Program)
  /-- Descend into every item. -/
  | items (rest : Program)
  /-- Descend into every member. -/
  | members (rest : Program)

/-- The section without the entries of a name. -/
def Section.without (s : Section) (name : String) : Section := s.filter fun entry => entry.1 != name

theorem Section.length_without_lt {s : Section} {name : String} {programs : List Program}
    (h : Member.lookup name s = some programs) : (s.without name).length < s.length := by
  induction s with
  | nil => simp [Member.lookup] at h
  | cons entry rest ih =>
    by_cases he : entry.1 = name
    · have : (rest.filter fun e => e.1 != name).length ≤ rest.length := List.length_filter_le ..
      simp [Section.without, he] at *
      omega
    · have : Member.lookup name rest = some programs := by
        obtain ⟨key, value⟩ := entry
        simpa [Member.lookup, he] using h
      have := ih this
      simp [Section.without, he] at *
      omega

mutual

/-- The visits of a program at its slot, with the section of the names that may be entered. -/
def visitsOf (s : Section) : Program → List Visit
  | [] => []
  | .this :: _ => [.convert]
  | .access name :: rest => [.field name rest]
  | .loop :: rest => [.items rest]
  | .entries :: rest => [.members rest]
  | .select arms :: _ => visitsOfAll s arms
  | .ref name :: _ =>
    match _hl : Member.lookup name s with
    | some programs => visitsOfAll (s.without name) programs
    | none => []
termination_by program => (s.length, sizeOf program)
decreasing_by
  · apply Prod.Lex.right; simp +arith
  · apply Prod.Lex.left; exact Section.length_without_lt _hl

/-- The visits of programs in their order. -/
def visitsOfAll (s : Section) : List Program → List Visit
  | [] => []
  | program :: rest => visitsOf s program ++ visitsOfAll s rest
termination_by programs => (s.length, sizeOf programs)
decreasing_by
  all_goals apply Prod.Lex.right; simp +arith

end

/-! ### Handlers -/

/-- Receives the values to convert and the mismatches, along with a state. -/
structure Handler (σ : Type) where
  /-- Converts a value. -/
  convert : σ → Payload → σ × Payload
  /-- A visit for a step, at a path, found a value of another type. -/
  mismatch : σ → List Key → (step found : String) → σ

/-- A value that a visit could not descend into. -/
structure Mismatch where
  /-- The path of the slot, from the root. -/
  path : String
  /-- The name of the step. -/
  step : String
  /-- The name of the value's type. -/
  found : String
  deriving DecidableEq

/-- The sentence for a mismatch. -/
def Mismatch.text (m : Mismatch) : String :=
  "`" ++ m.step ++ "` step expected another shape at " ++ m.path ++ ", found " ++ m.found

namespace Handler

variable {σ : Type}

/-- A conversion without state; mismatches pass unseen. -/
def ofFunction (f : Payload → Payload) : Handler Unit := ⟨fun _ value => ((), f value), fun _ _ _ _ => ()⟩

/-- Keeps the mismatches in order, and else does what another handler does. -/
def strict (h : Handler σ) : Handler (σ × List Mismatch) :=
  ⟨fun (state, seen) value =>
      let (state, value) := h.convert state value
      ((state, seen), value),
    fun (state, seen) path step found =>
      (h.mismatch state path step found, seen ++ [⟨pathText path, step, found⟩])⟩

/-- No conversion nests its result deeper than its argument. -/
def Level (h : Handler σ) : Prop := ∀ state value, (h.convert state value).2.depth ≤ value.depth

theorem level_strict {h : Handler σ} (level : h.Level) : h.strict.Level :=
  fun (state, _) value => level state value

theorem level_ofFunction {f : Payload → Payload} (level : ∀ value, (f value).depth ≤ value.depth) :
    (ofFunction f).Level :=
  fun _ value => level value

/-- Reports a value of the wrong shape, unless it is null. -/
def report (h : Handler σ) (state : σ) (path : List Key) (step : String) (value : Payload) : σ :=
  if value.isNull then state else h.mismatch state path step value.typeName

end Handler

/-! ### Descents -/

/-- A run at a slot: from a path, a program and the value with a state to the value and state left. -/
abbrev Descent (σ : Type) := List Key → Program → σ × Payload → Option (σ × Payload)

section

variable {σ : Type}

/-- Descends into each item, the first at a given position. -/
def descendItems (run : Nat → σ × Payload → Option (σ × Payload)) :
    Nat → σ → List Payload → Option (σ × List Payload)
  | _, state, [] => some (state, [])
  | index, state, item :: rest =>
    (run index (state, item)).bind fun (state, item) =>
      (descendItems run (index + 1) state rest).map fun (state, rest) => (state, item :: rest)

/-- Descends into each member. -/
def descendMembers (run : String → σ × Payload → Option (σ × Payload)) :
    σ → List (String × Payload) → Option (σ × List (String × Payload))
  | state, [] => some (state, [])
  | state, (name, value) :: rest =>
    (run name (state, value)).bind fun (state, value) =>
      (descendMembers run state rest).map fun (state, rest) => (state, (name, value) :: rest)

/-- Makes one visit at a slot. -/
def makeVisit (h : Handler σ) (descend : Descent σ) (path : List Key) (slot : σ × Payload) :
    Visit → Option (σ × Payload)
  | .convert => some (h.convert slot.1 slot.2)
  | .field name rest =>
    match slot.2 with
    | .object members =>
      match Member.lookup name members with
      | none => some slot
      | some child => (descend (.name name :: path) rest (slot.1, child)).map fun (state, child) =>
        (state, .object (Member.put name child members))
    | value => some (h.report slot.1 path "access" value, value)
  | .items rest =>
    match slot.2 with
    | .array items =>
      (descendItems (fun index => descend (.index index :: path) rest) 0 slot.1 items).map
        fun (state, items) => (state, .array items)
    | value => some (h.report slot.1 path "loop" value, value)
  | .members rest =>
    match slot.2 with
    | .object members =>
      (descendMembers (fun name => descend (.name name :: path) rest) slot.1 members).map
        fun (state, members) => (state, .object members)
    | value => some (h.report slot.1 path "entries" value, value)

/-- Makes visits in order. -/
def makeVisits (h : Handler σ) (descend : Descent σ) (path : List Key) :
    List Visit → σ × Payload → Option (σ × Payload)
  | [], slot => some slot
  | visit :: rest, slot => (makeVisit h descend path slot visit).bind (makeVisits h descend path rest)

/-- Runs a program at a slot with at most `descents` descents one below the other. -/
def runProgram (s : Section) (h : Handler σ) : (descents : Nat) → Descent σ
  | 0, path, program, slot => makeVisits h (fun _ _ _ => none) path (visitsOf s program) slot
  | descents + 1, path, program, slot =>
    makeVisits h (runProgram s h descents) path (visitsOf s program) slot

/-- Runs programs in order at a whole payload. -/
def runPrograms (s : Section) (h : Handler σ) (descents : Nat) :
    List Program → σ × Payload → Option (σ × Payload)
  | [], slot => some slot
  | program :: rest, slot => (runProgram s h descents [] program slot).bind (runPrograms s h descents rest)

/-- Runs a program at one part of a container; without such a part nothing happens. -/
def runAt (s : Section) (h : Handler σ) (descents : Nat) (key : Key) (program : Program)
    (slot : σ × Payload) : Option (σ × Payload) :=
  match key, slot.2 with
  | .name name, .object members =>
    match Member.lookup name members with
    | none => some slot
    | some child => (runProgram s h descents [key] program (slot.1, child)).map fun (state, child) =>
      (state, .object (Member.put name child members))
  | .index index, .array items =>
    match items[index]? with
    | none => some slot
    | some child => (runProgram s h descents [key] program (slot.1, child)).map fun (state, child) =>
      (state, .array (items.set index child))
  | _, _ => some slot

/-- A run at one part replaces that part by what the run leaves. -/
theorem runAt_eq (s : Section) (h : Handler σ) (descents : Nat) (key : Key) (program : Program)
    (slot : σ × Payload) :
    runAt s h descents key program slot =
      match slot.2.part? key with
      | none => some slot
      | some child => (runProgram s h descents [key] program (slot.1, child)).map fun r =>
        (r.1, slot.2.setPart key r.2) := by
  obtain ⟨state, v⟩ := slot
  cases key <;> cases v <;> rfl

/-! ### Termination -/

/-- A descent into values of bounded depth has a result, and one that is no deeper. -/
def Descent.Bounded (descend : Descent σ) (bound : Nat) : Prop :=
  ∀ path program state value, value.depth ≤ bound →
    ∃ r, descend path program (state, value) = some r ∧ r.2.depth ≤ value.depth

theorem descendItems_bounded {run : Nat → σ × Payload → Option (σ × Payload)} {bound : Nat}
    (hrun : ∀ index state value, value.depth ≤ bound →
      ∃ r, run index (state, value) = some r ∧ r.2.depth ≤ value.depth) :
    ∀ (items : List Payload) (index : Nat) (state : σ), Payload.depthItems items ≤ bound →
      ∃ r, descendItems run index state items = some r
        ∧ Payload.depthItems r.2 ≤ Payload.depthItems items
  | [], _, state, _ => ⟨(state, []), rfl, Nat.le_refl _⟩
  | item :: rest, index, state, hd => by
    rw [Payload.depthItems, Nat.max_le] at hd
    obtain ⟨r, hr, hrd⟩ := hrun index state item hd.1
    obtain ⟨q, hq, hqd⟩ := descendItems_bounded hrun rest (index + 1) r.1 hd.2
    refine ⟨(q.1, r.2 :: q.2), by simp [descendItems, hr, hq], ?_⟩
    simp only [Payload.depthItems]
    omega

theorem descendMembers_bounded {run : String → σ × Payload → Option (σ × Payload)} {bound : Nat}
    (hrun : ∀ name state value, value.depth ≤ bound →
      ∃ r, run name (state, value) = some r ∧ r.2.depth ≤ value.depth) :
    ∀ (members : List (String × Payload)) (state : σ), Payload.depthMembers members ≤ bound →
      ∃ r, descendMembers run state members = some r
        ∧ Payload.depthMembers r.2 ≤ Payload.depthMembers members
  | [], state, _ => ⟨(state, []), rfl, Nat.le_refl _⟩
  | (name, value) :: rest, state, hd => by
    rw [Payload.depthMembers, Nat.max_le] at hd
    obtain ⟨r, hr, hrd⟩ := hrun name state value hd.1
    obtain ⟨q, hq, hqd⟩ := descendMembers_bounded hrun rest r.1 hd.2
    refine ⟨(q.1, (name, r.2) :: q.2), by simp [descendMembers, hr, hq], ?_⟩
    simp only [Payload.depthMembers]
    omega

/-- A visit to a container descends by one level. -/
theorem makeVisit_bounded {h : Handler σ} (level : h.Level) {descend : Descent σ} {bound : Nat}
    (hd : ∀ b, b + 1 = bound → descend.Bounded b) (path : List Key) (state : σ) (value : Payload)
    (hv : value.depth ≤ bound) (visit : Visit) :
    ∃ r, makeVisit h descend path (state, value) visit = some r ∧ r.2.depth ≤ value.depth := by
  have inner {d : Nat} (hle : d + 1 ≤ bound) : ∃ b, b + 1 = bound ∧ d ≤ b :=
    ⟨bound - 1, by omega, by omega⟩
  cases visit with
  | convert => exact ⟨_, rfl, level state value⟩
  | field name rest =>
    cases value with
    | object members =>
      rw [Payload.depth] at hv
      obtain ⟨b, hb, hle⟩ := inner hv
      cases hl : Member.lookup name members with
      | none => exact ⟨_, by simp [makeVisit, hl]; rfl, by simp [Payload.depth]⟩
      | some child =>
        have hc := Payload.depth_le_of_lookup hl
        obtain ⟨r, hr, hrd⟩ := hd b hb (.name name :: path) rest state child (by omega)
        refine ⟨(r.1, .object (Member.put name r.2 members)), by simp [makeVisit, hl, hr], ?_⟩
        have := Payload.depthMembers_put_le name (Nat.le_trans hrd hc)
          (Nat.le_refl (Payload.depthMembers members))
        simpa [Payload.depth] using this
    | _ => exact ⟨_, rfl, Nat.le_refl _⟩
  | items rest =>
    cases value with
    | array items =>
      rw [Payload.depth] at hv
      obtain ⟨b, hb, hle⟩ := inner hv
      obtain ⟨r, hr, hrd⟩ := descendItems_bounded
        (fun index state value hval => hd b hb (.index index :: path) rest state value hval)
        items 0 state hle
      exact ⟨(r.1, .array r.2), by simp [makeVisit, hr], by simpa [Payload.depth] using hrd⟩
    | _ => exact ⟨_, rfl, Nat.le_refl _⟩
  | members rest =>
    cases value with
    | object members =>
      rw [Payload.depth] at hv
      obtain ⟨b, hb, hle⟩ := inner hv
      obtain ⟨r, hr, hrd⟩ := descendMembers_bounded
        (fun name state value hval => hd b hb (.name name :: path) rest state value hval)
        members state hle
      exact ⟨(r.1, .object r.2), by simp [makeVisit, hr], by simpa [Payload.depth] using hrd⟩
    | _ => exact ⟨_, rfl, Nat.le_refl _⟩

theorem makeVisits_bounded {h : Handler σ} (level : h.Level) {descend : Descent σ} {bound : Nat}
    (hd : ∀ b, b + 1 = bound → descend.Bounded b) (path : List Key) :
    ∀ (visits : List Visit) (state : σ) (value : Payload), value.depth ≤ bound →
      ∃ r, makeVisits h descend path visits (state, value) = some r ∧ r.2.depth ≤ value.depth
  | [], state, value, _ => ⟨(state, value), rfl, Nat.le_refl _⟩
  | visit :: rest, state, value, hv => by
    obtain ⟨r, hr, hrd⟩ := makeVisit_bounded level hd path state value hv visit
    obtain ⟨q, hq, hqd⟩ := makeVisits_bounded level hd path rest r.1 r.2 (by omega)
    exact ⟨q, by simp [makeVisits, hr, hq], by omega⟩

/-- A run has a result, and one that is no deeper, if the limit is at least the depth. -/
theorem runProgram_bounded (s : Section) {h : Handler σ} (level : h.Level) :
    ∀ descents, Descent.Bounded (runProgram s h descents) descents
  | 0 => fun path program state value hv => by
    obtain ⟨r, hr, hrd⟩ := makeVisits_bounded level (fun b hb => by omega) path
      (visitsOf s program) state value hv
    exact ⟨r, by rw [runProgram]; exact hr, hrd⟩
  | descents + 1 => fun path program state value hv => by
    obtain ⟨r, hr, hrd⟩ := makeVisits_bounded level
      (fun b hb => by obtain rfl : b = descents := by omega
                      exact runProgram_bounded s level b)
      path (visitsOf s program) state value hv
    exact ⟨r, by rw [runProgram]; exact hr, hrd⟩

theorem runPrograms_bounded (s : Section) {h : Handler σ} (level : h.Level) (bound : Nat) :
    ∀ (programs : List Program) (state : σ) (value : Payload), value.depth ≤ bound →
      ∃ r, runPrograms s h bound programs (state, value) = some r ∧ r.2.depth ≤ value.depth
  | [], state, value, _ => ⟨(state, value), rfl, Nat.le_refl _⟩
  | program :: rest, state, value, hv => by
    obtain ⟨r, hr, hrd⟩ := runProgram_bounded s level bound [] program state value hv
    obtain ⟨q, hq, hqd⟩ := runPrograms_bounded s level bound rest r.1 r.2 (by omega)
    exact ⟨q, by rw [runPrograms, hr]; exact hq, by omega⟩

/-- Programs at a whole payload have a result, if the limit is the depth of the payload. -/
theorem runPrograms_isSome (s : Section) {h : Handler σ} (level : h.Level) (programs : List Program)
    (slot : σ × Payload) : (runPrograms s h slot.2.depth programs slot).isSome := by
  obtain ⟨r, hr, _⟩ := runPrograms_bounded s level _ programs slot.1 slot.2 (Nat.le_refl _)
  rw [hr]; rfl

/-- So does a program at one part of a payload. -/
theorem runAt_isSome (s : Section) {h : Handler σ} (level : h.Level) (key : Key) (program : Program)
    (state : σ) (value : Payload) :
    (runAt s h value.depth key program (state, value)).isSome := by
  rw [runAt_eq]
  cases hp : value.part? key with
  | none => rfl
  | some child =>
    obtain ⟨r, hr, _⟩ := runProgram_bounded s level value.depth [key] program state child
      (Payload.depth_le_of_part? hp)
    simp [hr]

end

end ApiDecl
