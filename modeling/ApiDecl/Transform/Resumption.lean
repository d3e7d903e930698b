import ApiDecl.Transform.Run

/-!
# Programs run from a step on

A program is shared by all the slots that it is run at.  How far it has come at a slot is told by the
position of its next step; a descent goes on with the position behind, and the programs that `select`
and `ref` lead to begin at their first step.

* `takeStep`: what the step of a position does at a slot;
* `runFrom`: a program run from a position on, with a limit on nested descents;
* `runAtFrom`: such a run at one part of a container;
* `Table.applyAt`, `Table.applyAll`: a conversion applied to one part of a container, by a program from
  a position on, and to a whole payload, by programs.
-/

namespace ApiDecl

/-- A run at a slot: from a path, a program and the position of its next step. -/
abbrev Resumption (σ : Type) := List Key → Program → (index : Nat) → σ × Payload → Option (σ × Payload)

section

variable {σ : Type}

mutual

/-- Takes the step of a position at a slot, with the section of the names that may be entered.  Behind
the last step there is nothing to do. -/
def takeStep (h : Handler σ) (resume : Resumption σ) (s : Section) (path : List Key)
    (program : Program) (index : Nat) (slot : σ × Payload) : Option (σ × Payload) :=
  -- a visit holds the whole program: the descent goes on behind the step it was made by
  let descend : Descent σ := fun path program => resume path program (index + 1)
  match _hstep : program[index]? with
  | none => some slot
  | some .this => some (h.convert slot.1 slot.2)
  | some (.access name) => makeVisit h descend path slot (.field name program)
  | some .loop => makeVisit h descend path slot (.items program)
  | some .entries => makeVisit h descend path slot (.members program)
  | some (.select arms) => takeFirstSteps h resume s path arms slot
  | some (.ref name) =>
    match _hl : Member.lookup name s with
    | some programs => takeFirstSteps h resume (s.without name) path programs slot
    | none => some slot
termination_by (s.length, sizeOf program)
decreasing_by
  · have := List.sizeOf_lt_of_mem (List.mem_of_getElem? _hstep)
    rw [Step.select.sizeOf_spec] at this
    apply Prod.Lex.right; omega
  · apply Prod.Lex.left; exact Section.length_without_lt _hl

/-- Takes the first step of each program, in their order. -/
def takeFirstSteps (h : Handler σ) (resume : Resumption σ) (s : Section) (path : List Key) :
    List Program → σ × Payload → Option (σ × Payload)
  | [], slot => some slot
  | program :: rest, slot =>
    (takeStep h resume s path program 0 slot).bind (takeFirstSteps h resume s path rest)
termination_by programs => (s.length, sizeOf programs)
decreasing_by
  all_goals apply Prod.Lex.right; simp +arith

end

/-- Runs a program from a position on, with at most `descents` descents one below the other. -/
def runFrom (s : Section) (h : Handler σ) : (descents : Nat) → Resumption σ
  | 0 => takeStep h (fun _ _ _ _ => none) s
  | descents + 1 => takeStep h (runFrom s h descents) s

/-- Runs a program from a position on at one part of a container; without such a part nothing
happens. -/
def runAtFrom (s : Section) (h : Handler σ) (descents : Nat) (key : Key) (program : Program)
    (index : Nat) (slot : σ × Payload) : Option (σ × Payload) :=
  match slot.2.part? key with
  | none => some slot
  | some child => (runFrom s h descents [key] program index (slot.1, child)).map fun (state, child) =>
    (state, slot.2.setPart key child)

end

/-! ### Conversions applied -/

/-- A conversion that may keep a state; mismatches pass unseen. -/
def Handler.ofConversion {σ : Type} (convert : σ → Payload → σ × Payload) : Handler σ :=
  ⟨convert, fun state _ _ _ => state⟩

namespace Table

variable {σ : Type}

/-- Applies a conversion to a whole payload, where programs lead to. -/
def applyAll (t : Table) (kind : Kind) (convert : σ → Payload → σ × Payload) (descents : Nat)
    (programs : List Program) (slot : σ × Payload) : Option (σ × Payload) :=
  runPrograms (t.entries kind) (.ofConversion convert) descents programs slot

/-- Applies a conversion to one part of a container, where a program leads to from a position on. -/
def applyAt (t : Table) (kind : Kind) (convert : σ → Payload → σ × Payload) (descents : Nat)
    (key : Key) (program : Program) (index : Nat) (slot : σ × Payload) : Option (σ × Payload) :=
  runAtFrom (t.entries kind) (.ofConversion convert) descents key program index slot

end Table

end ApiDecl
