import ApiDecl.Proofs.Transform.Calls
import ApiDecl.Proofs.Transform.NormalForm
import ApiDecl.Proofs.Transform.Termination

/-!
# Live names lead to conversions

`Calls` says that running a task comes to a conversion.  Up to its first conversion a run changes
nothing, so with any handler it is the same (`Calls.transfer`), and the run of a program comes to one
exactly if the program leads to some slot of the value (`calls_iff_addressedBy`).  Of a run that ends,
`Calls` says that its trace is not empty (`Executes.calls_iff`), and that some value has been recorded
(`calls_iff_recorded`).

So a name is live just if there is a payload on which running it comes to a conversion
(`Table.mem_liveNames_iff_calls`).  A payload is built along the program that makes the name live,
around the payload of the name that the program ends in; and whatever a program addresses, its last
step leads there, so that the program ends in live names.
-/

namespace ApiDecl

section

variable {σ : Type}

/-- Running the task at a slot comes to a conversion, the first of the run. -/
inductive Calls (s : Section) (h : Handler σ) : List Key → Task → σ × Payload → Prop
  | this {path : List Key} {entered : List String} {rest : Program} {slot : σ × Payload} :
      Calls s h path (.program entered (.this :: rest)) slot
  | access {path : List Key} {entered : List String} {name : String} {rest : Program}
      {members : List (String × Payload)} {child : Payload} {state : σ} :
      Member.lookup name members = some child →
      Calls s h (.name name :: path) (.program [] rest) (state, child) →
      Calls s h path (.program entered (.access name :: rest)) (state, .object members)
  | loop {path : List Key} {entered : List String} {rest : Program} {items : List Payload}
      {state : σ} :
      Calls s h path (.items 0 rest) (state, .array items) →
      Calls s h path (.program entered (.loop :: rest)) (state, .array items)
  | entries {path : List Key} {entered : List String} {rest : Program}
      {members : List (String × Payload)} {state : σ} :
      Calls s h path (.members 0 rest) (state, .object members) →
      Calls s h path (.program entered (.entries :: rest)) (state, .object members)
  | select {path : List Key} {entered : List String} {arms : List Program} {rest : Program}
      {slot : σ × Payload} :
      Calls s h path (.programs entered arms) slot →
      Calls s h path (.program entered (.select arms :: rest)) slot
  | ref {path : List Key} {entered : List String} {name : String} {rest : Program}
      {slot : σ × Payload} :
      name ∉ entered → Calls s h path (.programs (name :: entered) (s.programs name)) slot →
      Calls s h path (.program entered (.ref name :: rest)) slot
  | first {path : List Key} {entered : List String} {program : Program} {programs : List Program}
      {slot : σ × Payload} :
      Calls s h path (.program entered program) slot →
      Calls s h path (.programs entered (program :: programs)) slot
  | later {path : List Key} {entered : List String} {program : Program} {programs : List Program}
      {slot middle : σ × Payload} :
      Executes s h path (.program entered program) slot [] middle →
      Calls s h path (.programs entered programs) middle →
      Calls s h path (.programs entered (program :: programs)) slot
  | item {path : List Key} {index : Nat} {rest : Program} {items : List Payload} {value : Payload}
      {state : σ} :
      items[index]? = some value →
      Calls s h (.index index :: path) (.program [] rest) (state, value) →
      Calls s h path (.items index rest) (state, .array items)
  | laterItem {path : List Key} {index : Nat} {rest : Program} {items : List Payload}
      {value : Payload} {state : σ} {middle : σ × Payload} :
      items[index]? = some value →
      Executes s h (.index index :: path) (.program [] rest) (state, value) [] middle →
      Calls s h path (.items (index + 1) rest) (middle.1, .array (items.set index middle.2)) →
      Calls s h path (.items index rest) (state, .array items)
  | member {path : List Key} {index : Nat} {rest : Program} {members : List (String × Payload)}
      {name : String} {value : Payload} {state : σ} :
      members[index]? = some (name, value) →
      Calls s h (.name name :: path) (.program [] rest) (state, value) →
      Calls s h path (.members index rest) (state, .object members)
  | laterMember {path : List Key} {index : Nat} {rest : Program}
      {members : List (String × Payload)} {name : String} {value : Payload} {state : σ}
      {middle : σ × Payload} :
      members[index]? = some (name, value) →
      Executes s h (.name name :: path) (.program [] rest) (state, value) [] middle →
      Calls s h path (.members (index + 1) rest)
        (middle.1, .object (members.set index (name, middle.2))) →
      Calls s h path (.members index rest) (state, .object members)

variable {s : Section} {h : Handler σ} {path : List Key} {task : Task} {slot r : σ × Payload}
  {trace : List (List Place)}

/-! ### Runs without a conversion -/

/-- An element put where it stands. -/
theorem set_of_getElem? {α : Type} {l : List α} {i : Nat} {x : α} (h : l[i]? = some x) :
    l.set i x = l := by
  obtain ⟨hi, rfl⟩ := List.getElem?_eq_some_iff.mp h
  exact List.set_getElem_self hi

/-- A run without a conversion leaves the value as it is. -/
theorem Executes.value_eq (hx : Executes s h path task slot trace r) (ht : trace = []) :
    r.2 = slot.2 := by
  induction hx with
  | this => cases ht
  | done | absent | notKeyed | notArray | notObject | reentered | nil | noItem | noMember => rfl
  | access hl _ ih =>
    change Payload.object (Member.put _ _ _) = _
    rw [ih (List.map_eq_nil_iff.mp ht), Member.put_of_lookup hl]
  | loop _ ih | entries _ ih | select _ ih | ref _ _ ih => exact ih ht
  | cons _ _ ih ihs =>
    obtain ⟨ht, hts⟩ := List.append_eq_nil_iff.mp ht
    exact (ihs hts).trans (ih ht)
  | item hi _ _ ih ihs =>
    obtain ⟨ht, hts⟩ := List.append_eq_nil_iff.mp ht
    rw [ihs hts, ih (List.map_eq_nil_iff.mp ht), set_of_getElem? hi]
  | member hi _ _ ih ihs =>
    obtain ⟨ht, hts⟩ := List.append_eq_nil_iff.mp ht
    rw [ihs hts, ih (List.map_eq_nil_iff.mp ht), set_of_getElem? hi]

/-- A run without a conversion is one with any handler. -/
theorem Executes.transfer {τ : Type} (hx : Executes s h path task slot trace r) (ht : trace = [])
    (h' : Handler τ) (state : τ) :
    ∃ state', Executes s h' path task (state, slot.2) [] (state', slot.2) := by
  induction hx generalizing state with
  | this => cases ht
  | done => exact ⟨state, .done⟩
  | absent hl => exact ⟨state, .absent hl⟩
  | notKeyed hn => exact ⟨_, .notKeyed hn⟩
  | notArray hn => exact ⟨_, .notArray hn⟩
  | notObject hn => exact ⟨_, .notObject hn⟩
  | reentered hm => exact ⟨state, .reentered hm⟩
  | nil => exact ⟨state, .nil⟩
  | noItem hi => exact ⟨state, .noItem hi⟩
  | noMember hi => exact ⟨state, .noMember hi⟩
  | @access path entered name rest members child _ _ _ hl _ ih =>
    obtain ⟨state', hx⟩ := ih (List.map_eq_nil_iff.mp ht) state
    have hx : Executes s h' path (.program entered (.access name :: rest)) (state, .object members) []
      (state', .object (Member.put name child members)) := .access hl hx
    rw [Member.put_of_lookup hl] at hx
    exact ⟨state', hx⟩
  | loop _ ih =>
    obtain ⟨state', hx⟩ := ih ht state
    exact ⟨state', .loop hx⟩
  | entries _ ih =>
    obtain ⟨state', hx⟩ := ih ht state
    exact ⟨state', .entries hx⟩
  | select _ ih =>
    obtain ⟨state', hx⟩ := ih ht state
    exact ⟨state', .select hx⟩
  | ref hn _ ih =>
    obtain ⟨state', hx⟩ := ih ht state
    exact ⟨state', .ref hn hx⟩
  | cons hx _ ih ihs =>
    obtain ⟨ht, hts⟩ := List.append_eq_nil_iff.mp ht
    obtain ⟨state', hx'⟩ := ih ht state
    obtain ⟨state'', hxs⟩ := ihs hts state'
    rw [hx.value_eq ht] at hxs
    exact ⟨state'', .cons hx' hxs⟩
  | item hi hx _ ih ihs =>
    obtain ⟨ht, hts⟩ := List.append_eq_nil_iff.mp ht
    obtain ⟨state', hx'⟩ := ih (List.map_eq_nil_iff.mp ht) state
    obtain ⟨state'', hxs⟩ := ihs hts state'
    rw [hx.value_eq (List.map_eq_nil_iff.mp ht), set_of_getElem? hi] at hxs
    exact ⟨state'', .item hi hx' (by rw [set_of_getElem? hi]; exact hxs)⟩
  | member hi hx _ ih ihs =>
    obtain ⟨ht, hts⟩ := List.append_eq_nil_iff.mp ht
    obtain ⟨state', hx'⟩ := ih (List.map_eq_nil_iff.mp ht) state
    obtain ⟨state'', hxs⟩ := ihs hts state'
    rw [hx.value_eq (List.map_eq_nil_iff.mp ht), set_of_getElem? hi] at hxs
    exact ⟨state'', .member hi hx' (by rw [set_of_getElem? hi]; exact hxs)⟩

/-- Up to its first conversion a run is one with any handler. -/
theorem Calls.transfer {τ : Type} (hc : Calls s h path task slot) (h' : Handler τ) (state : τ) :
    Calls s h' path task (state, slot.2) := by
  induction hc generalizing state with
  | this => exact .this
  | access hl _ ih => exact .access hl (ih state)
  | loop _ ih => exact .loop (ih state)
  | entries _ ih => exact .entries (ih state)
  | select _ ih => exact .select (ih state)
  | ref hn _ ih => exact .ref hn (ih state)
  | first _ ih => exact .first (ih state)
  | later hx _ ih =>
    obtain ⟨state', hx'⟩ := hx.transfer rfl h' state
    rw [hx.value_eq rfl] at ih
    exact .later hx' (ih state')
  | item hi _ ih => exact .item hi (ih state)
  | laterItem hi hx _ ih =>
    obtain ⟨state', hx'⟩ := hx.transfer rfl h' state
    rw [hx.value_eq rfl] at ih
    exact .laterItem hi hx' (ih state')
  | member hi _ ih => exact .member hi (ih state)
  | laterMember hi hx _ ih =>
    obtain ⟨state', hx'⟩ := hx.transfer rfl h' state
    rw [hx.value_eq rfl] at ih
    exact .laterMember hi hx' (ih state')

/-! ### Runs that end -/

theorem Executes.calls (hx : Executes s h path task slot trace r) (ht : trace ≠ []) :
    Calls s h path task slot := by
  induction hx with
  | done | absent | notKeyed | notArray | notObject | reentered | nil | noItem | noMember =>
    exact absurd rfl ht
  | this => exact .this
  | access hl _ ih => exact .access hl (ih (mt List.map_eq_nil_iff.mpr ht))
  | loop _ ih => exact .loop (ih ht)
  | entries _ ih => exact .entries (ih ht)
  | select _ ih => exact .select (ih ht)
  | ref hn _ ih => exact .ref hn (ih ht)
  | @cons _ _ _ _ _ _ _ trace trace' hx _ ih ihs =>
    by_cases hfirst : trace = []
    · subst hfirst
      exact .later hx (ihs ht)
    · exact .first (ih hfirst)
  | @item _ _ _ _ _ _ _ _ trace trace' hi hx _ ih ihs =>
    by_cases hfirst : trace = []
    · subst hfirst
      exact .laterItem hi hx (ihs ht)
    · exact .item hi (ih hfirst)
  | @member _ _ _ _ _ _ _ _ _ trace trace' hi hx _ ih ihs =>
    by_cases hfirst : trace = []
    · subst hfirst
      exact .laterMember hi hx (ihs ht)
    · exact .member hi (ih hfirst)

theorem Calls.trace_ne_nil (hc : Calls s h path task slot)
    (hx : Executes s h path task slot trace r) : trace ≠ [] := by
  induction hc generalizing trace r with
  | this =>
    cases hx
    exact List.cons_ne_nil _ _
  | access hl _ ih =>
    cases hx with
    | access hl' hx =>
      obtain rfl := Option.some.inj (hl.symm.trans hl')
      exact mt List.map_eq_nil_iff.mp (ih hx)
    | absent hl' =>
      rw [hl] at hl'
      cases hl'
    | notKeyed hn => exact absurd rfl (hn _)
  | loop _ ih =>
    cases hx with
    | loop hx => exact ih hx
    | notArray hn => exact absurd rfl (hn _)
  | entries _ ih =>
    cases hx with
    | entries hx => exact ih hx
    | notObject hn => exact absurd rfl (hn _)
  | select _ ih =>
    cases hx with
    | select hx => exact ih hx
  | ref hn _ ih =>
    cases hx with
    | reentered hm => exact absurd hm hn
    | ref _ hx => exact ih hx
  | first _ ih =>
    cases hx with
    | cons hx _ => exact List.append_ne_nil_of_left_ne_nil (ih hx) _
  | later hx' _ ih =>
    cases hx with
    | cons hx hxs =>
      obtain ⟨rfl, rfl⟩ := hx'.deterministic hx
      exact ih hxs
  | item hi _ ih =>
    cases hx with
    | noItem hi' =>
      rw [hi] at hi'
      cases hi'
    | item hi' hx _ =>
      obtain rfl := Option.some.inj (hi.symm.trans hi')
      exact List.append_ne_nil_of_left_ne_nil (mt List.map_eq_nil_iff.mp (ih hx)) _
  | laterItem hi hx' _ ih =>
    cases hx with
    | noItem hi' =>
      rw [hi] at hi'
      cases hi'
    | item hi' hx hxs =>
      obtain rfl := Option.some.inj (hi.symm.trans hi')
      obtain ⟨rfl, rfl⟩ := hx'.deterministic hx
      exact ih hxs
  | member hi _ ih =>
    cases hx with
    | noMember hi' =>
      rw [hi] at hi'
      cases hi'
    | member hi' hx _ =>
      obtain ⟨rfl, rfl⟩ := Prod.mk.inj (Option.some.inj (hi.symm.trans hi'))
      exact List.append_ne_nil_of_left_ne_nil (mt List.map_eq_nil_iff.mp (ih hx)) _
  | laterMember hi hx' _ ih =>
    cases hx with
    | noMember hi' =>
      rw [hi] at hi'
      cases hi'
    | member hi' hx hxs =>
      obtain ⟨rfl, rfl⟩ := Prod.mk.inj (Option.some.inj (hi.symm.trans hi'))
      obtain ⟨rfl, rfl⟩ := hx'.deterministic hx
      exact ih hxs

/-- A run that ends comes to a conversion just if its trace has one. -/
theorem Executes.calls_iff (hx : Executes s h path task slot trace r) :
    Calls s h path task slot ↔ trace ≠ [] :=
  ⟨fun hc => hc.trace_ne_nil hx, hx.calls⟩

end

/-! ### Slots that a task leads to -/

/-- The task leads to a slot of the value, a name being entered once only at each slot. -/
def Task.LeadsTo (s : Section) : Task → Payload → Prop
  | .program entered p, v =>
    ∃ visit ∈ visitsOf (s.less entered) p, ∃ route, VisitAddresses s visit v route
  | .programs entered ps, v =>
    ∃ visit ∈ visitsOfAll (s.less entered) ps, ∃ route, VisitAddresses s visit v route
  | .items index rest, v => ∃ items, v = .array items ∧ ∃ i item, index ≤ i ∧
    items[i]? = some item ∧ ∃ route, Addresses s rest item route
  | .members index rest, v => ∃ members, v = .object members ∧ ∃ i name child, index ≤ i ∧
    members[i]? = some (name, child) ∧ ∃ route, Addresses s rest child route

namespace Task

variable {s : Section} {entered : List String} {rest : Program} {v : Payload} {index : Nat}

theorem leadsTo_program_iff :
    (Task.program [] rest).LeadsTo s v ↔ ∃ route, Addresses s rest v route := by
  simp only [LeadsTo, Section.less, addresses_iff]
  constructor
  · rintro ⟨visit, hm, route, hv⟩
    exact ⟨route, visit, hm, hv⟩
  · rintro ⟨route, visit, hm, hv⟩
    exact ⟨visit, hm, route, hv⟩

theorem leadsTo_programs_iff {programs : List Program} :
    (Task.programs [] programs).LeadsTo s v ↔ ∃ route, AddressedBy s programs v route := by
  simp only [LeadsTo, Section.less, mem_visitsOfAll, AddressedBy, addresses_iff]
  constructor
  · rintro ⟨visit, ⟨p, hp, hm⟩, route, hv⟩
    exact ⟨route, p, hp, visit, hm, hv⟩
  · rintro ⟨route, p, hp, visit, hm, hv⟩
    exact ⟨visit, ⟨p, hp, hm⟩, route, hv⟩

theorem not_leadsTo_nil : ¬ (Task.program entered []).LeadsTo s v := by simp [LeadsTo, visitsOf]

theorem leadsTo_this : (Task.program entered (.this :: rest)).LeadsTo s v :=
  ⟨.convert, by simp [visitsOf], [], .convert⟩

theorem leadsTo_access {name : String} : (Task.program entered (.access name :: rest)).LeadsTo s v ↔
    ∃ members child, v = .object members ∧ Member.lookup name members = some child ∧
      (Task.program [] rest).LeadsTo s child := by
  simp only [leadsTo_program_iff]
  simp only [LeadsTo, visitsOf, List.mem_singleton, exists_eq_left]
  constructor
  · rintro ⟨_, hv⟩
    cases hv with
    | field hi ha => exact ⟨_, _, rfl, Member.lookup_eq_some_iff.mpr hi, _, ha⟩
  · rintro ⟨members, child, rfl, hl, route, ha⟩
    exact ⟨_, .field (Member.lookup_eq_some_iff.mp hl) ha⟩

theorem leadsTo_loop :
    (Task.program entered (.loop :: rest)).LeadsTo s v ↔ (Task.items 0 rest).LeadsTo s v := by
  simp only [LeadsTo, visitsOf, List.mem_singleton, exists_eq_left]
  constructor
  · rintro ⟨_, hv⟩
    cases hv with
    | items hi ha => exact ⟨_, rfl, _, _, Nat.zero_le _, hi, _, ha⟩
  · rintro ⟨items, rfl, i, item, -, hi, route, ha⟩
    exact ⟨_, .items hi ha⟩

theorem leadsTo_entries :
    (Task.program entered (.entries :: rest)).LeadsTo s v ↔ (Task.members 0 rest).LeadsTo s v := by
  simp only [LeadsTo, visitsOf, List.mem_singleton, exists_eq_left]
  constructor
  · rintro ⟨_, hv⟩
    cases hv with
    | members hi ha => exact ⟨_, rfl, _, _, _, Nat.zero_le _, hi, _, ha⟩
  · rintro ⟨members, rfl, i, name, child, -, hi, route, ha⟩
    exact ⟨_, .members hi ha⟩

theorem leadsTo_select {arms : List Program} :
    (Task.program entered (.select arms :: rest)).LeadsTo s v ↔
      (Task.programs entered arms).LeadsTo s v := by
  rw [LeadsTo, visitsOf, LeadsTo]

theorem leadsTo_ref {name : String} (hn : name ∉ entered) :
    (Task.program entered (.ref name :: rest)).LeadsTo s v ↔
      (Task.programs (name :: entered) (s.programs name)).LeadsTo s v := by
  rw [LeadsTo, visitsOf_ref_less rest hn, LeadsTo]

/-- A name that has been entered leads nowhere. -/
theorem not_leadsTo_ref {name : String} (hm : name ∈ entered) :
    ¬ (Task.program entered (.ref name :: rest)).LeadsTo s v := by
  have hl : Member.lookup name (s.less entered) = none := by rw [Section.lookup_less, if_pos hm]
  rw [LeadsTo, visitsOf]
  split
  · next hl' =>
    rw [hl] at hl'
    cases hl'
  · simp

theorem leadsTo_cons {program : Program} {programs : List Program} :
    (Task.programs entered (program :: programs)).LeadsTo s v ↔
      (Task.program entered program).LeadsTo s v ∨ (Task.programs entered programs).LeadsTo s v := by
  simp only [LeadsTo, visitsOfAll, List.mem_append, or_and_right, exists_or]

theorem leadsTo_items {items : List Payload} {value : Payload} (hi : items[index]? = some value) :
    (Task.items index rest).LeadsTo s (.array items) ↔ (Task.program [] rest).LeadsTo s value ∨
      (Task.items (index + 1) rest).LeadsTo s (.array items) := by
  rw [leadsTo_program_iff]
  simp only [LeadsTo, Payload.array.injEq, exists_eq_left']
  constructor
  · rintro ⟨i, item, hle, hat, ha⟩
    rcases Nat.eq_or_lt_of_le hle with rfl | hlt
    · obtain rfl := Option.some.inj (hi.symm.trans hat)
      exact Or.inl ha
    · exact Or.inr ⟨i, item, hlt, hat, ha⟩
  · rintro (ha | ⟨i, item, hlt, hat, ha⟩)
    · exact ⟨index, value, Nat.le_refl _, hi, ha⟩
    · exact ⟨i, item, Nat.le_of_lt hlt, hat, ha⟩

theorem not_leadsTo_items {items : List Payload} (hi : items[index]? = none) :
    ¬ (Task.items index rest).LeadsTo s (.array items) := by
  rintro ⟨_, ⟨⟩, i, item, hle, hat, -⟩
  have hlength := (List.getElem?_eq_some_iff.mp hat).1
  rw [List.getElem?_eq_none_iff] at hi
  omega

theorem leadsTo_members {members : List (String × Payload)} {name : String} {value : Payload}
    (hi : members[index]? = some (name, value)) :
    (Task.members index rest).LeadsTo s (.object members) ↔
      (Task.program [] rest).LeadsTo s value ∨
        (Task.members (index + 1) rest).LeadsTo s (.object members) := by
  rw [leadsTo_program_iff]
  simp only [LeadsTo, Payload.object.injEq, exists_eq_left']
  constructor
  · rintro ⟨i, name', child, hle, hat, ha⟩
    rcases Nat.eq_or_lt_of_le hle with rfl | hlt
    · obtain ⟨rfl, rfl⟩ := Prod.mk.inj (Option.some.inj (hi.symm.trans hat))
      exact Or.inl ha
    · exact Or.inr ⟨i, name', child, hlt, hat, ha⟩
  · rintro (ha | ⟨i, name', child, hlt, hat, ha⟩)
    · exact ⟨index, name, value, Nat.le_refl _, hi, ha⟩
    · exact ⟨i, name', child, Nat.le_of_lt hlt, hat, ha⟩

theorem not_leadsTo_members {members : List (String × Payload)} (hi : members[index]? = none) :
    ¬ (Task.members index rest).LeadsTo s (.object members) := by
  rintro ⟨_, ⟨⟩, i, name, child, hle, hat, -⟩
  have hlength := (List.getElem?_eq_some_iff.mp hat).1
  rw [List.getElem?_eq_none_iff] at hi
  omega

end Task

section

variable {σ : Type} {s : Section} {h : Handler σ} {path : List Key} {task : Task}
  {slot r : σ × Payload} {trace : List (List Place)}

/-- What a run comes to convert, its task leads to. -/
theorem Calls.leadsTo (hc : Calls s h path task slot) : task.LeadsTo s slot.2 := by
  induction hc with
  | this => exact Task.leadsTo_this
  | access hl _ ih => exact Task.leadsTo_access.mpr ⟨_, _, rfl, hl, ih⟩
  | loop _ ih => exact Task.leadsTo_loop.mpr ih
  | entries _ ih => exact Task.leadsTo_entries.mpr ih
  | select _ ih => exact Task.leadsTo_select.mpr ih
  | ref hn _ ih => exact (Task.leadsTo_ref hn).mpr ih
  | first _ ih => exact Task.leadsTo_cons.mpr (Or.inl ih)
  | later hx _ ih => exact Task.leadsTo_cons.mpr (Or.inr (hx.value_eq rfl ▸ ih))
  | item hi _ ih => exact (Task.leadsTo_items hi).mpr (Or.inl ih)
  | laterItem hi hx _ ih =>
    rw [hx.value_eq rfl, set_of_getElem? hi] at ih
    exact (Task.leadsTo_items hi).mpr (Or.inr ih)
  | member hi _ ih => exact (Task.leadsTo_members hi).mpr (Or.inl ih)
  | laterMember hi hx _ ih =>
    rw [hx.value_eq rfl, set_of_getElem? hi] at ih
    exact (Task.leadsTo_members hi).mpr (Or.inr ih)

/-- A run that ends without a conversion has a task that leads nowhere. -/
theorem Executes.not_leadsTo (hx : Executes s h path task slot trace r) (ht : trace = []) :
    ¬ task.LeadsTo s slot.2 := by
  induction hx with
  | this => cases ht
  | done => exact Task.not_leadsTo_nil
  | nil => simp [Task.LeadsTo, visitsOfAll]
  | absent hl =>
    rw [Task.leadsTo_access]
    rintro ⟨_, _, ⟨⟩, hl', -⟩
    rw [hl] at hl'
    cases hl'
  | notKeyed hn =>
    rw [Task.leadsTo_access]
    rintro ⟨_, _, he, -⟩
    exact hn _ he
  | notArray hn =>
    rw [Task.leadsTo_loop]
    rintro ⟨_, he, -⟩
    exact hn _ he
  | notObject hn =>
    rw [Task.leadsTo_entries]
    rintro ⟨_, he, -⟩
    exact hn _ he
  | reentered hm => exact Task.not_leadsTo_ref hm
  | noItem hi => exact Task.not_leadsTo_items hi
  | noMember hi => exact Task.not_leadsTo_members hi
  | access hl _ ih =>
    rw [Task.leadsTo_access]
    rintro ⟨_, _, ⟨⟩, hl', hleads⟩
    obtain rfl := Option.some.inj (hl.symm.trans hl')
    exact ih (List.map_eq_nil_iff.mp ht) hleads
  | loop _ ih => exact mt Task.leadsTo_loop.mp (ih ht)
  | entries _ ih => exact mt Task.leadsTo_entries.mp (ih ht)
  | select _ ih => exact mt Task.leadsTo_select.mp (ih ht)
  | ref hn _ ih => exact mt (Task.leadsTo_ref hn).mp (ih ht)
  | cons hx _ ih ihs =>
    obtain ⟨ht, hts⟩ := List.append_eq_nil_iff.mp ht
    have hrest := ihs hts
    rw [hx.value_eq ht] at hrest
    rw [Task.leadsTo_cons, not_or]
    exact ⟨ih ht, hrest⟩
  | item hi hx _ ih ihs =>
    obtain ⟨ht, hts⟩ := List.append_eq_nil_iff.mp ht
    have hrest := ihs hts
    rw [hx.value_eq (List.map_eq_nil_iff.mp ht), set_of_getElem? hi] at hrest
    rw [Task.leadsTo_items hi, not_or]
    exact ⟨ih (List.map_eq_nil_iff.mp ht), hrest⟩
  | member hi hx _ ih ihs =>
    obtain ⟨ht, hts⟩ := List.append_eq_nil_iff.mp ht
    have hrest := ihs hts
    rw [hx.value_eq (List.map_eq_nil_iff.mp ht), set_of_getElem? hi] at hrest
    rw [Task.leadsTo_members hi, not_or]
    exact ⟨ih (List.map_eq_nil_iff.mp ht), hrest⟩

/-- **Programs come to a conversion** just if they address a slot of the payload, whatever the
handler does. -/
theorem calls_iff_addressedBy {programs : List Program} :
    Calls s h [] (.programs [] programs) slot ↔ ∃ route, AddressedBy s programs slot.2 route := by
  rw [← Task.leadsTo_programs_iff]
  refine ⟨Calls.leadsTo, fun hleads => ?_⟩
  -- a run that converts nothing to something else ends, and it is the same up to a conversion
  obtain ⟨⟨state, v⟩, hr⟩ := Option.isSome_iff_exists.mp
    (runPrograms_isSome s (Handler.level_ofFunction fun v => Nat.le_refl v.depth) programs
      ((), slot.2))
  obtain ⟨trace, hx⟩ := exists_executes_of_runPrograms hr
  exact (hx.calls fun ht => hx.not_leadsTo ht hleads).transfer h slot.1

/-- As many values are recorded as conversions are made. -/
theorem Executes.length_recorded {convert : σ → Payload → σ × Payload}
    {slot r : (σ × List Payload) × Payload}
    (hx : Executes s (.recording convert) path task slot trace r) :
    r.1.2.length = slot.1.2.length + trace.length := by
  have hsilent : (Handler.recording convert).Silent := fun _ _ _ _ => rfl
  induction hx with
  | done | absent | reentered | nil | noItem | noMember => rfl
  | notKeyed | notArray | notObject => rw [hsilent.report]; rfl
  | this => simp [Handler.recording]
  | access _ _ ih => rw [List.length_map]; exact ih
  | loop _ ih | entries _ ih | select _ ih | ref _ _ ih => exact ih
  | cons _ _ ih ihs => rw [ihs, ih, List.length_append, Nat.add_assoc]
  | item _ _ _ ih ihs | member _ _ _ ih ihs =>
    rw [List.length_append, List.length_map, ← Nat.add_assoc, ← ih]
    exact ihs

/-- A run that ends has recorded a value just if it comes to a conversion. -/
theorem calls_iff_recorded {convert : σ → Payload → σ × Payload} {programs : List Program}
    {descents : Nat} {state : σ} {v : Payload} {r : (σ × List Payload) × Payload}
    (hr : runPrograms s (.recording convert) descents programs ((state, []), v) = some r) :
    Calls s (.recording convert) [] (.programs [] programs) ((state, []), v) ↔ r.1.2 ≠ [] := by
  obtain ⟨trace, hx⟩ := exists_executes_of_runPrograms hr
  have hlength : r.1.2.length = trace.length := by simpa using hx.length_recorded
  rw [hx.calls_iff, ← List.length_pos_iff, ← List.length_pos_iff, hlength]

end

/-! ### Live names -/

namespace Section

variable {s : Section} {program : Program} {v : Payload} {route : Route} {name : String}

/-- What a program addresses, its last step leads to, so the program ends in live names. -/
theorem endsIn_of_addresses (hs : s.StopsLast) (ha : Addresses s program v route)
    (hp : stopsLast program = true) : EndsIn {name | name ∈ liveNames s} program := by
  induction ha with
  | this =>
    obtain rfl := eq_nil_of_stopsLast hp rfl
    exact .this
  | access _ _ ih | loop _ _ ih | entries _ _ ih => exact .behind _ (ih (stopsLast_tail hp))
  | select harm _ ih =>
    obtain rfl := eq_nil_of_stopsLast hp rfl
    exact .select harm (ih (allStopLast_iff.mp hp _ harm))
  | @ref name program rest v route hq _ ih =>
    obtain rfl := eq_nil_of_stopsLast hp rfl
    cases hl : Member.lookup name s with
    | none =>
      rw [programs_of_lookup_none hl] at hq
      cases hq
    | some programs =>
      rw [programs_of_lookup hl] at hq
      have hends := ih (allStopLast_iff.mp (hs name programs hl) program hq)
      exact .ref (s.isLeast_liveNames.1 name program ⟨programs, Member.mem_of_lookup hl, hq⟩ hends)

/-- A program that ends in names with a payload has one, too: around that of the name, one
container for each step. -/
theorem exists_addresses_of_endsIn {P : Set String}
    (hP : ∀ name ∈ P, ∃ v route, Addresses s [.ref name] v route) (h : EndsIn P program)
    (hp : stopsLast program = true) : ∃ v route, Addresses s program v route := by
  induction h with
  | this => exact ⟨.null, [], .this⟩
  | ref hn => exact hP _ hn
  | select harm _ ih =>
    obtain ⟨v, route, ha⟩ := ih (allStopLast_iff.mp hp _ harm)
    exact ⟨v, route, .select harm ha⟩
  | @behind first rest h ih =>
    obtain ⟨v, route, ha⟩ := ih (stopsLast_tail hp)
    have hfirst : first.descends = true := by
      by_contra hno
      obtain rfl := eq_nil_of_stopsLast hp (by simpa using hno)
      exact not_endsIn_nil h
    cases first with
    | access key => exact ⟨.object [(key, v)], _, .access (by simp) ha⟩
    | loop => exact ⟨.array [v], 0 :: route, .loop rfl ha⟩
    | entries => exact ⟨.object [("", v)], 0 :: route, .entries rfl ha⟩
    | this | select | ref => cases hfirst

/-- **A name is live** just if its programs address a slot of some payload. -/
theorem mem_liveNames_iff_addresses (hd : (s.map Prod.fst).Nodup) (hs : s.StopsLast) :
    name ∈ liveNames s ↔ ∃ v route, Addresses s [.ref name] v route := by
  constructor
  · have hclosed : s.EndClosed {name | ∃ v route, Addresses s [.ref name] v route} := by
      rintro name program ⟨programs, hm, hp⟩ hends
      have hl := Member.lookup_of_mem hd hm
      obtain ⟨v, route, ha⟩ := exists_addresses_of_endsIn (fun _ h => h) hends
        (allStopLast_iff.mp (hs name programs hl) program hp)
      exact ⟨v, route, .ref (by rwa [programs_of_lookup hl]) ha⟩
    exact fun hn => s.isLeast_liveNames.2 hclosed hn
  · rintro ⟨v, route, ha⟩
    cases endsIn_of_addresses hs ha rfl with
    | ref hn => exact hn
    | behind _ h => exact absurd h not_endsIn_nil

end Section

/-- **Liveness is exact**: in a table that lists a name once, and whose programs convert and refer
in their last steps only, a name is live just if there is a payload on which the program that refers
to it comes to a conversion, whatever the conversion does.  If no conversion nests deeper, the run
ends, and then it has been called. -/
theorem Table.mem_liveNames_iff_calls {σ : Type} (t : Table) (kind : Kind)
    (hd : (t.names kind).Nodup) (ht : ∀ entry ∈ t.entries kind, allStopLast entry.2 = true)
    (convert : σ → Payload → σ × Payload) (state : σ) (name : String) :
    (name ∈ t.prune.2.names kind ↔ ∃ v, Calls (t.entries kind) (.recording convert) []
      (.programs [] [[.ref name]]) ((state, []), v)) ∧
    ((∀ state v, (convert state v).2.depth ≤ v.depth) →
      (name ∈ t.prune.2.names kind ↔ ∃ v state' calls w, calls ≠ [] ∧
        runPrograms (t.entries kind) (.recording convert) v.depth [[.ref name]] ((state, []), v) =
          some ((state', calls), w))) := by
  have hcalls : name ∈ t.prune.2.names kind ↔ ∃ v, Calls (t.entries kind) (.recording convert) []
      (.programs [] [[.ref name]]) ((state, []), v) := by
    rw [Table.names_prune, Section.mem_liveNames_iff_addresses hd (Section.stopsLast_of_forall ht)]
    simp only [calls_iff_addressedBy, AddressedBy, List.mem_singleton, exists_eq_left]
  refine ⟨hcalls, fun level => hcalls.trans (exists_congr fun v => ?_)⟩
  have hlevel : (Handler.recording convert).Level := fun state v => level state.1 v
  constructor
  · intro hc
    obtain ⟨⟨⟨state', calls⟩, w⟩, hr⟩ := Option.isSome_iff_exists.mp
      (runPrograms_isSome (t.entries kind) hlevel [[.ref name]] ((state, []), v))
    exact ⟨state', calls, w, (calls_iff_recorded hr).mp hc, hr⟩
  · rintro ⟨state', calls, w, hne, hr⟩
    exact (calls_iff_recorded hr).mpr hne

/-- A name that converts below the names that lead back to it, and one that leads to itself only. -/
theorem Table.mem_liveNames_iff_calls_mixedTable :
    (mixedTable.names .date).Nodup ∧
      (∀ entry ∈ mixedTable.entries .date, allStopLast entry.2 = true) ∧
      (∀ (_ : Nat) (v : Payload), v.depth ≤ v.depth) ∧
      (∃ v state' calls w, calls ≠ [] ∧
        runPrograms (mixedTable.entries .date) (.recording fun n v => (n + 1, v)) v.depth
          [[.ref "A"]] ((0, []), v) = some ((state', calls), w)) ∧
      ¬ ∃ v, Calls (mixedTable.entries .date) (.recording fun n v => (n + 1, v)) []
        (.programs [] [[.ref "D"]]) ((0, []), v) :=
  have hd : (mixedTable.names .date).Nodup := by decide
  have ht : ∀ entry ∈ mixedTable.entries .date, allStopLast entry.2 = true := by decide
  have level : ∀ (n : Nat) (v : Payload), v.depth ≤ v.depth := fun _ _ => Nat.le_refl _
  ⟨hd, ht, level,
    ((Table.mem_liveNames_iff_calls mixedTable .date hd ht (fun n v => (n + 1, v)) 0 "A").2 level).mp
      (by decide),
    mt (Table.mem_liveNames_iff_calls mixedTable .date hd ht (fun n v => (n + 1, v)) 0 "D").1.mpr
      (by decide)⟩

end ApiDecl
