import ApiDecl.Proofs.Payload.Route
import ApiDecl.Proofs.Transform.Visits
import ApiDecl.Transform.Interpreter

/-!
# What programs do

`Addresses` says which slots of a payload a program addresses, without a word on how programs are
run: no guard, no order, no value left behind.  A run converts exactly these slots.

* `makeVisit_denotes`, `makeVisits_denotes`: one visit and visits in a row convert the slots that
  they address; a conversion that is `Leafwise` keeps the shape of the payload, so later visits
  address the same slots as if none had been made before (`addresses_of_shape`);
* `runProgram_denotes`, `runPrograms_denotes`: so does a program, by induction on the limit, and so
  do programs in a row;
* `run_converts_addressed`: an interpreter in either mode has a result, and it is this one.
-/

namespace ApiDecl

open Payload

/-- A program addresses the slot of a route in a payload. -/
inductive Addresses (s : Section) : Program → Payload → Route → Prop
  | this {rest : Program} {v : Payload} : Addresses s (.this :: rest) v []
  | access {name : String} {rest : Program} {members : List (String × Payload)} {child : Payload}
      {route : Route} : members[Member.position name members]? = some (name, child) →
      Addresses s rest child route →
        Addresses s (.access name :: rest) (.object members) (Member.position name members :: route)
  | loop {rest : Program} {items : List Payload} {i : Nat} {item : Payload} {route : Route} :
      items[i]? = some item → Addresses s rest item route →
        Addresses s (.loop :: rest) (.array items) (i :: route)
  | entries {rest : Program} {members : List (String × Payload)} {i : Nat} {name : String}
      {child : Payload} {route : Route} : members[i]? = some (name, child) →
      Addresses s rest child route → Addresses s (.entries :: rest) (.object members) (i :: route)
  | select {arms : List Program} {arm rest : Program} {v : Payload} {route : Route} :
      arm ∈ arms → Addresses s arm v route → Addresses s (.select arms :: rest) v route
  | ref {name : String} {program rest : Program} {v : Payload} {route : Route} :
      program ∈ s.programs name → Addresses s program v route →
        Addresses s (.ref name :: rest) v route

/-- Some of the programs addresses the slot. -/
def AddressedBy (s : Section) (programs : List Program) (v : Payload) (route : Route) : Prop :=
  ∃ program ∈ programs, Addresses s program v route

/-- A visit addresses the slot of a route in a payload. -/
inductive VisitAddresses (s : Section) : Visit → Payload → Route → Prop
  | convert {v : Payload} : VisitAddresses s .convert v []
  | field {name : String} {rest : Program} {members : List (String × Payload)} {child : Payload}
      {route : Route} : members[Member.position name members]? = some (name, child) →
      Addresses s rest child route →
        VisitAddresses s (.field name rest) (.object members)
          (Member.position name members :: route)
  | items {rest : Program} {items : List Payload} {i : Nat} {item : Payload} {route : Route} :
      items[i]? = some item → Addresses s rest item route →
        VisitAddresses s (.items rest) (.array items) (i :: route)
  | members {rest : Program} {members : List (String × Payload)} {i : Nat} {name : String}
      {child : Payload} {route : Route} : members[i]? = some (name, child) →
      Addresses s rest child route → VisitAddresses s (.members rest) (.object members) (i :: route)

variable {s : Section} {program : Program} {visit : Visit} {v w : Payload} {route : Route}

/-! ### Programs and their visits -/

theorem LeadsIn.addresses {n : Nat} (h : LeadsIn s n program visit)
    (hv : VisitAddresses s visit v route) : Addresses s program v route := by
  induction h with
  | this => cases hv; exact .this
  | access => cases hv with | field hi ha => exact .access hi ha
  | loop => cases hv with | items hi ha => exact .loop hi ha
  | entries => cases hv with | members hi ha => exact .entries hi ha
  | select harm _ ih => exact .select harm (ih hv)
  | ref hq _ ih => exact .ref hq (ih hv)

/-- A program addresses what its visits address. -/
theorem addresses_iff :
    Addresses s program v route ↔ ∃ visit ∈ visitsOf s program, VisitAddresses s visit v route := by
  constructor
  · intro h
    suffices ∃ visit, Leads s program visit ∧ VisitAddresses s visit v route by
      obtain ⟨visit, hl, hv⟩ := this
      exact ⟨visit, mem_visitsOf_iff.mpr hl, hv⟩
    induction h with
    | this => exact ⟨_, ⟨0, .this⟩, .convert⟩
    | access hi ha _ => exact ⟨_, ⟨0, .access⟩, .field hi ha⟩
    | loop hi ha _ => exact ⟨_, ⟨0, .loop⟩, .items hi ha⟩
    | entries hi ha _ => exact ⟨_, ⟨0, .entries⟩, .members hi ha⟩
    | select harm _ ih =>
      obtain ⟨visit, ⟨n, hn⟩, hv⟩ := ih
      exact ⟨visit, ⟨n + 1, .select harm hn⟩, hv⟩
    | ref hq _ ih =>
      obtain ⟨visit, ⟨n, hn⟩, hv⟩ := ih
      exact ⟨visit, ⟨n + 1, .ref hq hn⟩, hv⟩
  · rintro ⟨visit, hm, hv⟩
    obtain ⟨n, hn⟩ := mem_visitsOf_iff.mp hm
    exact hn.addresses hv

/-- Which slots are addressed depends on the shape of the payload only. -/
theorem addresses_of_shape (h : Addresses s program v route) (hs : shape v = shape w) :
    Addresses s program w route := by
  induction h generalizing w with
  | this => exact .this
  | access hi _ ih =>
    obtain ⟨members', rfl, hn, hm⟩ := exists_of_shape_object hs
    obtain ⟨child', hi', hc⟩ := hm _ _ _ hi
    rw [Member.position_congr hn] at hi' ⊢
    exact .access hi' (ih hc)
  | loop hi _ ih =>
    obtain ⟨items', rfl, hm⟩ := exists_of_shape_array hs
    obtain ⟨item', hi', hc⟩ := hm _ _ hi
    exact .loop hi' (ih hc)
  | entries hi _ ih =>
    obtain ⟨members', rfl, -, hm⟩ := exists_of_shape_object hs
    obtain ⟨child', hi', hc⟩ := hm _ _ _ hi
    exact .entries hi' (ih hc)
  | select harm _ ih => exact .select harm (ih hs)
  | ref hq _ ih => exact .ref hq (ih hs)

theorem visitAddresses_of_shape (h : VisitAddresses s visit v route) (hs : shape v = shape w) :
    VisitAddresses s visit w route := by
  cases h with
  | convert => exact .convert
  | field hi ha =>
    obtain ⟨members', rfl, hn, hm⟩ := exists_of_shape_object hs
    obtain ⟨child', hi', hc⟩ := hm _ _ _ hi
    rw [Member.position_congr hn] at hi' ⊢
    exact .field hi' (addresses_of_shape ha hc)
  | items hi ha =>
    obtain ⟨items', rfl, hm⟩ := exists_of_shape_array hs
    obtain ⟨item', hi', hc⟩ := hm _ _ hi
    exact .items hi' (addresses_of_shape ha hc)
  | members hi ha =>
    obtain ⟨members', rfl, -, hm⟩ := exists_of_shape_object hs
    obtain ⟨child', hi', hc⟩ := hm _ _ _ hi
    exact .members hi' (addresses_of_shape ha hc)

/-! ### Visits in a run -/

section Run

variable {σ : Type} {h : Handler σ} {f : Payload → Payload} {descend : Descent σ}

/-- A handler converts by a function, whatever it remembers and reports besides. -/
def Handler.Performs (h : Handler σ) (f : Payload → Payload) : Prop :=
  ∀ state v, (h.convert state v).2 = f v

/-- A descent that ends has converted the slots that its program addresses. -/
def Descent.Denotes (descend : Descent σ) (s : Section) (f : Payload → Payload) : Prop :=
  ∀ {path program slot r}, descend path program slot = some r →
    r.2 = slot.2.convertAt f (Addresses s program slot.2)

/-- Each item is converted by itself. -/
theorem descendItems_eq_map {run : Nat → σ × Payload → Option (σ × Payload)} {F : Payload → Payload}
    (hrun : ∀ {i slot r}, run i slot = some r → r.2 = F slot.2) :
    ∀ {items : List Payload} {i : Nat} {state : σ} {r : σ × List Payload},
      descendItems run i state items = some r → r.2 = items.map F
  | [], _, _, _, hr => by
    obtain rfl := Option.some.inj hr
    rfl
  | item :: rest, i, state, r, hr => by
    simp only [descendItems, Option.bind_eq_some_iff, Option.map_eq_some_iff] at hr
    obtain ⟨⟨state', item'⟩, hi, ⟨state'', rest'⟩, hd, rfl⟩ := hr
    rw [List.map_cons, ← hrun hi, ← descendItems_eq_map hrun hd]

/-- Each member is converted by itself and keeps its name. -/
theorem descendMembers_eq_map {run : String → σ × Payload → Option (σ × Payload)}
    {F : Payload → Payload} (hrun : ∀ {name slot r}, run name slot = some r → r.2 = F slot.2) :
    ∀ {members : List (String × Payload)} {state : σ} {r : σ × List (String × Payload)},
      descendMembers run state members = some r → r.2 = members.map fun m => (m.1, F m.2)
  | [], _, _, hr => by
    obtain rfl := Option.some.inj hr
    rfl
  | (name, value) :: rest, state, r, hr => by
    simp only [descendMembers, Option.bind_eq_some_iff, Option.map_eq_some_iff] at hr
    obtain ⟨⟨state', value'⟩, hi, ⟨state'', rest'⟩, hd, rfl⟩ := hr
    rw [List.map_cons, ← hrun hi, ← descendMembers_eq_map hrun hd]

/-- **One visit** converts the slots that it addresses. -/
theorem makeVisit_denotes (hf : Leafwise f) (hh : h.Performs f) (hd : descend.Denotes s f)
    {path : List Key} {slot r : σ × Payload} (hr : makeVisit h descend path slot visit = some r) :
    r.2 = slot.2.convertAt f (VisitAddresses s visit slot.2) := by
  obtain ⟨state, v⟩ := slot
  -- a visit that finds another shape addresses nothing and changes nothing
  have skip (hn : ∀ route, ¬ VisitAddresses s visit v route) (he : r.2 = v) :
      r.2 = v.convertAt f (VisitAddresses s visit v) := by
    rw [he, convertAt_of_not hn]
  cases visit with
  | convert =>
    obtain rfl := Option.some.inj hr
    have hroot : ∀ route, VisitAddresses s .convert v route ↔ route = [] := fun route =>
      ⟨fun h => by cases h; rfl, fun h => by rw [h]; exact .convert⟩
    rw [convertAt_congr hroot, convertAt_root hf, hh]
  | field name rest =>
    cases v with
    | object members =>
      simp only [makeVisit] at hr
      cases hl : Member.lookup name members with
      | none =>
        rw [hl] at hr
        obtain rfl := Option.some.inj hr
        refine skip (fun route ha => ?_) rfl
        cases ha with
        | field hi _ => rw [← Member.lookup_eq_some_iff, hl] at hi; cases hi
      | some child =>
        rw [hl] at hr
        obtain ⟨⟨state', child'⟩, hc, rfl⟩ := Option.map_eq_some_iff.mp hr
        have hat := Member.lookup_eq_some_iff.mp hl
        rw [convertAt_member hf hl (B := Addresses s rest child) fun i route => ?_, ← hd hc]
        constructor
        · intro ha
          cases ha with
          | field hi ha =>
            rw [hat] at hi
            cases hi; exact ⟨rfl, ha⟩
        · rintro ⟨rfl, ha⟩
          exact .field hat ha
    | _ =>
      obtain rfl := Option.some.inj hr
      exact skip (fun route ha => by cases ha) rfl
  | items rest =>
    cases v with
    | array items =>
      simp only [makeVisit, Option.map_eq_some_iff] at hr
      obtain ⟨⟨state', items'⟩, hi, rfl⟩ := hr
      have hmap := descendItems_eq_map (F := fun item => item.convertAt f (Addresses s rest item))
        (fun h => hd h) hi
      rw [convertAt_items hf (B := Addresses s rest) fun i item hat route => ?_, ← hmap]
      constructor
      · intro ha
        cases ha with
        | items hi' ha =>
          rw [hat] at hi'
          cases hi'; exact ha
      · exact fun ha => .items hat ha
    | _ =>
      obtain rfl := Option.some.inj hr
      exact skip (fun route ha => by cases ha) rfl
  | members rest =>
    cases v with
    | object members =>
      simp only [makeVisit, Option.map_eq_some_iff] at hr
      obtain ⟨⟨state', members'⟩, hi, rfl⟩ := hr
      have hmap := descendMembers_eq_map (F := fun v => v.convertAt f (Addresses s rest v))
        (fun h => hd h) hi
      rw [convertAt_members hf (B := Addresses s rest) fun i name child hat route => ?_, ← hmap]
      constructor
      · intro ha
        cases ha with
        | members hi' ha =>
          rw [hat] at hi'
          cases hi'; exact ha
      · exact fun ha => .members hat ha
    | _ =>
      obtain rfl := Option.some.inj hr
      exact skip (fun route ha => by cases ha) rfl

/-- **Visits in a row** convert the slots that any of them addresses. -/
theorem makeVisits_denotes (hf : Leafwise f) (hh : h.Performs f) (hd : descend.Denotes s f)
    {path : List Key} : ∀ {visits : List Visit} {slot r : σ × Payload},
      makeVisits h descend path visits slot = some r →
        r.2 = slot.2.convertAt f fun route => ∃ visit ∈ visits, VisitAddresses s visit slot.2 route
  | [], slot, r, hr => by
    obtain rfl := Option.some.inj hr
    rw [convertAt_of_not (by simp)]
  | visit :: rest, slot, r, hr => by
    obtain ⟨middle, hm, hr⟩ := Option.bind_eq_some_iff.mp hr
    have h1 := makeVisit_denotes hf hh hd hm
    have hs : shape middle.2 = shape slot.2 := by rw [h1, hf.shape_convertAt]
    rw [makeVisits_denotes hf hh hd hr, h1, hf.convertAt_convertAt, ← h1]
    refine convertAt_congr (fun route => ?_) f _
    rw [List.exists_mem_cons_iff]
    refine or_congr_right (exists_congr fun other => and_congr_right fun _ => ?_)
    exact ⟨fun h => visitAddresses_of_shape h hs, fun h => visitAddresses_of_shape h hs.symm⟩

/-! ### Runs -/

/-- **A program** that ends within its limit has converted the slots that it addresses. -/
theorem runProgram_denotes (hf : Leafwise f) (hh : h.Performs f) :
    ∀ descents, Descent.Denotes (runProgram s h descents) s f
  | 0, path, program, slot, r, hr => by
    rw [runProgram] at hr
    rw [makeVisits_denotes hf hh (fun h => by simp at h) hr]
    exact convertAt_congr (fun route => addresses_iff.symm) f _
  | descents + 1, path, program, slot, r, hr => by
    rw [runProgram] at hr
    rw [makeVisits_denotes hf hh (runProgram_denotes hf hh descents) hr]
    exact convertAt_congr (fun route => addresses_iff.symm) f _

/-- Programs in a row convert the slots that any of them addresses. -/
theorem runPrograms_denotes (hf : Leafwise f) (hh : h.Performs f) (descents : Nat) :
    ∀ {programs : List Program} {slot r : σ × Payload},
      runPrograms s h descents programs slot = some r →
        r.2 = slot.2.convertAt f (AddressedBy s programs slot.2)
  | [], slot, r, hr => by
    obtain rfl := Option.some.inj hr
    rw [convertAt_of_not (by simp [AddressedBy])]
  | program :: rest, slot, r, hr => by
    obtain ⟨middle, hm, hr⟩ := Option.bind_eq_some_iff.mp hr
    have h1 := runProgram_denotes hf hh descents hm
    have hs : shape middle.2 = shape slot.2 := by rw [h1, hf.shape_convertAt]
    rw [runPrograms_denotes hf hh descents hr, h1, hf.convertAt_convertAt, ← h1]
    refine convertAt_congr (fun route => ?_) f _
    unfold AddressedBy
    rw [List.exists_mem_cons_iff]
    refine or_congr_right (exists_congr fun other => and_congr_right fun _ => ?_)
    exact ⟨fun h => addresses_of_shape h hs, fun h => addresses_of_shape h hs.symm⟩

theorem Handler.Performs.strict (hh : h.Performs f) : h.strict.Performs f :=
  fun (state, _) v => hh state v

theorem performs_ofFunction (f : Payload → Payload) : (Handler.ofFunction f).Performs f :=
  fun _ _ => rfl

/-- Programs run within the depth of the payload end, with the slots converted that they address. -/
theorem runPrograms_converts (hf : Leafwise f) (hh : h.Performs f) (level : h.Level)
    {descents : Nat} (programs : List Program) (state : σ) {v : Payload} (hd : v.depth ≤ descents) :
    ∃ state', runPrograms s h descents programs (state, v) =
      some (state', v.convertAt f (AddressedBy s programs v)) := by
  obtain ⟨⟨state', v'⟩, hr, -⟩ := runPrograms_bounded s level descents programs state v hd
  obtain rfl := runPrograms_denotes hf hh descents hr
  exact ⟨state', hr⟩

end Run

/-- **What a run does**: in either mode, with any table and any programs, exactly the slots are
converted that the programs address, and all else stays as it is. -/
theorem run_converts_addressed (t : Table) (i : Interpreter) (programs : List Program)
    {f : Payload → Payload} (hf : Leafwise f) (v : Payload) {descents : Nat}
    (hd : v.depth ≤ descents) :
    ∃ i', i.runPrograms t (.ofFunction f) descents programs ((), v) =
      some (i', (), v.convertAt f (AddressedBy (t.entries i.kind) programs v)) := by
  obtain ⟨kind, strict, mismatches⟩ := i
  cases strict with
  | true =>
    obtain ⟨⟨_, mismatches'⟩, hr⟩ := runPrograms_converts (s := t.entries kind) hf
      (performs_ofFunction f).strict (Handler.level_strict hf.level) programs ((), mismatches) hd
    refine ⟨⟨kind, true, mismatches'⟩, ?_⟩
    simp only [Interpreter.runPrograms, Interpreter.observe, if_true]
    rw [hr]
    rfl
  | false =>
    obtain ⟨_, hr⟩ := runPrograms_converts (s := t.entries kind) hf (performs_ofFunction f)
      hf.level programs () hd
    refine ⟨⟨kind, false, mismatches⟩, ?_⟩
    simp only [Interpreter.runPrograms, Interpreter.observe, Bool.false_eq_true, if_false]
    rw [hr]
    rfl

/-- A name whose first program refers to itself and whose last one to itself further down. -/
theorem run_converts_addressed_of_cycle :
    Leafwise parseDate ∧
      (Payload.object [("next", .object [("at", .string "2020-01-02")])]).depth ≤ 2 ∧
      ∃ i', (Interpreter.new .date true).runPrograms
        ⟨some [("Node", [[.ref "Node"], [.access "at", .this],
          [.access "next", .ref "Node"]])], none⟩
        (.ofFunction parseDate) 2 [[.ref "Node"]]
        ((), .object [("next", .object [("at", .string "2020-01-02")])]) =
      some (i', (),
        (Payload.object [("next", .object [("at", .string "2020-01-02")])]).convertAt parseDate
          (AddressedBy [("Node", [[.ref "Node"], [.access "at", .this],
            [.access "next", .ref "Node"]])] [[.ref "Node"]]
            (.object [("next", .object [("at", .string "2020-01-02")])]))) :=
  have hd : (Payload.object [("next", .object [("at", .string "2020-01-02")])]).depth ≤ 2 := by
    simp [Payload.depth, Payload.depthMembers]
  ⟨leafwise_parseDate, hd, run_converts_addressed _ _ _ leafwise_parseDate _ hd⟩

end ApiDecl
