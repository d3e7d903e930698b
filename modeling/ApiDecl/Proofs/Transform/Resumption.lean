import ApiDecl.Proofs.Transform.Grouping
import ApiDecl.Proofs.Transform.Position

/-!
# Two ways to apply a program

A program can be applied to one part of a container, from one of its steps on (`Table.applyAt`), and
to a whole payload (`Table.applyAll`).  The first way goes through the program by the position of the
next step, the second by what is left of it, and both do the same (`runsRest_runFrom`).  So the part
becomes what the rest of the program makes of it by itself, and all other parts of the
container stay (`Table.untouched_applyAt`).  What differs is the path that the run starts from, but no
conversion sees it (`runProgram_pathless`).
-/

namespace ApiDecl

variable {σ : Type} {s : Section} {h : Handler σ}

/-! ### Parts and the rest of a container -/

namespace Payload

variable {v new child : Payload} {key other : Key}

/-- The keys of a container's parts, in order. -/
def keys : Payload → List Key
  | .object members => members.map fun member => .name member.1
  | .array items => (List.range items.length).map .index
  | _ => []

/-- Another value for a part leaves the keys as they are. -/
theorem keys_setPart (hp : v.part? key = some child) (new : Payload) :
    (v.setPart key new).keys = v.keys := by
  cases v with
  | object members =>
    cases key with
    | name name =>
      have hm : name ∈ members.map Prod.fst := by
        by_contra hn
        rw [part?, Member.lookup_eq_none_iff.mpr hn] at hp
        cases hp
      have hnames : ((Member.put name new members).map Prod.fst).map Key.name =
          (members.map Prod.fst).map Key.name :=
        congrArg _ (Member.map_fst_put_of_mem hm)
      simpa [setPart, keys, Function.comp_def] using hnames
    | index => rfl
  | array items =>
    cases key with
    | name => rfl
    | index index => simp [setPart, keys]
  | _ => rfl

/-- The other parts stay what they are. -/
theorem part?_setPart_of_ne (hne : other ≠ key) (v new : Payload) :
    (v.setPart key new).part? other = v.part? other := by
  cases v with
  | object members =>
    cases key with
    | name name =>
      cases other with
      | name rival => exact Member.lookup_put_of_ne (fun he => hne (congrArg Key.name he)) new members
      | index => rfl
    | index => rfl
  | array items =>
    cases key with
    | name => rfl
    | index index =>
      cases other with
      | name => rfl
      | index position => exact List.getElem?_set_ne fun he => hne (congrArg Key.index he.symm)
  | _ => rfl

end Payload

/-! ### Runs whose mismatches pass unseen -/

section

variable {convert : σ → Payload → σ × Payload}

theorem report_ofConversion (state : σ) (path : List Key) (step : String) (v : Payload) :
    (Handler.ofConversion convert).report state path step v = state :=
  ite_self state

section

variable {descend : Descent σ} (hd : ∀ path path', descend path = descend path')
include hd

theorem makeVisit_pathless (path path' : List Key) (slot : σ × Payload) (visit : Visit) :
    makeVisit (.ofConversion convert) descend path slot visit =
      makeVisit (.ofConversion convert) descend path' slot visit := by
  have hbelow (key : Key) : descend (key :: path) = descend (key :: path') := hd _ _
  obtain ⟨state, v⟩ := slot
  cases visit <;> cases v <;> simp only [makeVisit, report_ofConversion, hbelow]

theorem makeVisits_pathless (path path' : List Key) : ∀ (visits : List Visit) (slot : σ × Payload),
    makeVisits (.ofConversion convert) descend path visits slot =
      makeVisits (.ofConversion convert) descend path' visits slot
  | [], _ => rfl
  | visit :: rest, slot => by
    rw [makeVisits, makeVisits, makeVisit_pathless hd path path',
      funext (makeVisits_pathless path path' rest)]

end

/-- Without mismatches, the path to a slot makes no difference. -/
theorem runProgram_pathless : ∀ (descents : Nat) (path path' : List Key),
    runProgram s (.ofConversion convert) descents path =
      runProgram s (.ofConversion convert) descents path'
  | 0, path, path' => funext fun program => funext fun slot =>
    makeVisits_pathless (fun _ _ => rfl) path path' (visitsOf s program) slot
  | descents + 1, path, path' => funext fun program => funext fun slot =>
    makeVisits_pathless (runProgram_pathless descents) path path' (visitsOf s program) slot

/-- A run at a member is one step deeper at the whole object. -/
theorem runAt_name (descents : Nat) (name : String) (program : Program) (slot : σ × Payload) :
    runAt s (.ofConversion convert) descents (.name name) program slot =
      runProgram s (.ofConversion convert) (descents + 1) [] (.access name :: program) slot := by
  have hvisits : visitsOf s (.access name :: program) = [.field name program] :=
    visitsOf_of_descends rfl program
  rw [runProgram, hvisits, makeVisits_singleton, runAt_eq]
  obtain ⟨state, v⟩ := slot
  cases v with
  | object members => simp only [makeVisit, Payload.part?, Payload.setPart]
  | _ => simp only [makeVisit, report_ofConversion, Payload.part?]

end

theorem runPrograms_singleton (descents : Nat) (program : Program) (slot : σ × Payload) :
    runPrograms s h descents [program] slot = runProgram s h descents [] program slot :=
  Option.bind_fun_some _

/-! ### Both entry points -/

namespace Table

variable {convert : σ → Payload → σ × Payload} {descents : Nat} {key : Key} {program : Program}
  {index : Nat} {v : Payload}

theorem applyAt_eq_runAt (t : Table) (kind : Kind) (slot : σ × Payload) :
    t.applyAt kind convert descents key program index slot =
      runAt (t.entries kind) (.ofConversion convert) descents key (program.drop index) slot :=
  runAtFrom_eq_runAt descents key program index slot

theorem applyAll_singleton (t : Table) (kind : Kind) (program : Program) (slot : σ × Payload)
    (path : List Key) : t.applyAll kind convert descents [program] slot =
      runProgram (t.entries kind) (.ofConversion convert) descents path program slot := by
  rw [applyAll, runPrograms_singleton, runProgram_pathless descents [] path]

/-- What a part is replaced by is what the rest of the program makes of it. -/
theorem applyAt_eq (t : Table) (kind : Kind) (state : σ) :
    t.applyAt kind convert descents key program index (state, v) =
      match v.part? key with
      | none => some (state, v)
      | some child =>
        (t.applyAll kind convert descents [program.drop index] (state, child)).map fun r =>
          (r.1, v.setPart key r.2) := by
  rw [applyAt_eq_runAt, runAt_eq]
  cases v.part? key with
  | none => rfl
  | some child => exact congrArg (Option.map _) (applyAll_singleton t kind _ _ [key]).symm

/-- Nothing else in the container is replaced. -/
theorem untouched_applyAt {t : Table} {kind : Kind} {state : σ} {r : σ × Payload}
    (hr : t.applyAt kind convert descents key program index (state, v) = some r) :
    r.2.keys = v.keys ∧ ∀ other, other ≠ key → r.2.part? other = v.part? other := by
  rw [applyAt_eq] at hr
  cases hp : v.part? key with
  | none =>
    rw [hp] at hr
    obtain rfl := Option.some.inj hr
    exact ⟨rfl, fun _ _ => rfl⟩
  | some child =>
    rw [hp] at hr
    obtain ⟨left, -, rfl⟩ := Option.map_eq_some_iff.mp hr
    exact ⟨Payload.keys_setPart hp left.2, fun other hne => Payload.part?_setPart_of_ne hne v left.2⟩

/-- **Both entry points agree.**  Whatever the table, the container and the conversion, and within any
limit on descents, a program applied from a position on to a part makes of it what the rest of the
program, applied to it as a whole payload, makes of it, and nothing happens without such a part.  The
keys and all other parts stay.  For a member, this is the rest of the program applied to the container
behind a step to the member, one descent above.  It comes to an end if no conversion nests deeper. -/
theorem applyAt_eq_applyAll (t : Table) (kind : Kind) (convert : σ → Payload → σ × Payload)
    (descents : Nat) (key : Key) (program : Program) (index : Nat) (state : σ) (v : Payload) :
    (t.applyAt kind convert descents key program index (state, v) =
      match v.part? key with
      | none => some (state, v)
      | some child =>
        (t.applyAll kind convert descents [program.drop index] (state, child)).map fun r =>
          (r.1, v.setPart key r.2)) ∧
    (∀ r, t.applyAt kind convert descents key program index (state, v) = some r →
      r.2.keys = v.keys ∧ ∀ other, other ≠ key → r.2.part? other = v.part? other) ∧
    (∀ name, key = .name name →
      t.applyAt kind convert descents key program index (state, v) =
        t.applyAll kind convert (descents + 1) [.access name :: program.drop index] (state, v)) ∧
    ((∀ state v, (convert state v).2.depth ≤ v.depth) →
      (t.applyAt kind convert v.depth key program index (state, v)).isSome = true) := by
  refine ⟨applyAt_eq t kind state, fun r => untouched_applyAt, ?_, fun level => ?_⟩
  · rintro name rfl
    rw [applyAt_eq_runAt, runAt_name, applyAll_singleton t kind _ _ []]
  · have hlevel : (Handler.ofConversion convert).Level := level
    rw [applyAt_eq_runAt]
    exact runAt_isSome (t.entries kind) hlevel key (program.drop index) state v

end Table

/-! ### A list within an object -/

/-- Strings numbered in the order of their conversion. -/
def numbered (n : Nat) : Payload → Nat × Payload
  | .string _ => (n + 1, .number (.int n))
  | v => (n, v)

/-- A name with one conversion. -/
def leafTable : Table := ⟨some [("Leaf", [[.this]])], none⟩

/-- A conversion, and behind it a descent with two arms. -/
def branching : Program := [.this, .loop, .select [[.ref "Leaf"], [.access "x", .this]]]

/-- A list, and a member beside it. -/
def listed : Payload :=
  .object [("items", .array [.string "a", .object [("x", .string "b")]]), ("other", .string "c")]

/-- The same with its strings numbered below the list. -/
def numberedListed : Payload :=
  .object [("items", .array [.number (.int 0), .object [("x", .number (.int 1))]]),
    ("other", .string "c")]

/-- From its second step on, the program converts below the list. -/
theorem Table.applyAt_eq_applyAll_branching :
    (∀ n v, (numbered n v).2.depth ≤ v.depth) ∧ Key.name "other" ≠ .name "items" ∧
      leafTable.applyAt .date numbered 2 (.name "items") branching 1 (0, listed) =
        some (2, numberedListed) ∧
      leafTable.applyAll .date numbered 3 [.access "items" :: branching.drop 1] (0, listed) =
        some (2, numberedListed) ∧
      numberedListed.keys = listed.keys ∧
      numberedListed.part? (.name "other") = listed.part? (.name "other") ∧
      (leafTable.applyAt .date numbered listed.depth (.name "items") branching 1
        (0, listed)).isSome = true := by
  have level (n : Nat) (v : Payload) : (numbered n v).2.depth ≤ v.depth := by
    cases v <;> exact Nat.le_refl _
  have hne : Key.name "other" ≠ .name "items" := by decide
  obtain ⟨-, hframe, hname, hends⟩ :=
    Table.applyAt_eq_applyAll leafTable .date numbered 2 (.name "items") branching 1 0 listed
  have hall : leafTable.applyAll .date numbered 3 [.access "items" :: branching.drop 1]
      (0, listed) = some (2, numberedListed) := by cbv
  have hat := (hname "items" rfl).trans hall
  obtain ⟨hkeys, hother⟩ := hframe _ hat
  exact ⟨level, hne, hat, hall, hkeys, hother _ hne, hends level⟩

end ApiDecl
