import ApiDecl.Json.Basic
import Mathlib.Data.List.Nodup

/-!
# Positions of members

The first member of a name stands at `position`: `lookup` reads what is there
(`lookup_eq_some_iff`) and `put` writes there and nowhere else (`getElem?_put`).

Members with distinct names are what is looked up, whatever their order (`lookup_of_perm`,
`perm_of_lookup`).  What is found by a condition on names is looked up by the name found
(`find?_fst`).  Changing values keeps the names (`map_fst_modify`) and changes what is looked up
(`lookup_modify_self`, `lookup_map_snd`).
-/

namespace ApiDecl.Member

variable {α : Type} {name : String} {value : α} {members : List (String × α)}

/-- The position of the first member of a name; behind all members if there is none. -/
def position (name : String) (members : List (String × α)) : Nat :=
  (members.map Prod.fst).idxOf name

@[simp] theorem position_cons_self (value : α) (rest : List (String × α)) :
    position name ((name, value) :: rest) = 0 := by
  simp [position]

theorem position_cons_of_ne {key : String} (h : key ≠ name) (value : α) (rest : List (String × α)) :
    position name ((key, value) :: rest) = position name rest + 1 := by
  simp [position, List.idxOf_cons_ne _ h]

theorem position_congr {β : Type} {members' : List (String × β)}
    (h : members.map Prod.fst = members'.map Prod.fst) :
    position name members = position name members' := by
  unfold position; rw [h]

/-- What is looked up stands at the position of the name. -/
theorem lookup_eq_some_iff :
    lookup name members = some value ↔ members[position name members]? = some (name, value) := by
  induction members with
  | nil => simp [lookup]
  | cons m rest ih =>
    obtain ⟨key, old⟩ := m
    by_cases h : key = name
    · subst h; simp [lookup]
    · rw [lookup, if_neg h, ih, position_cons_of_ne h, List.getElem?_cons_succ]

theorem lookup_eq_none_iff : lookup name members = none ↔ name ∉ members.map Prod.fst := by
  induction members with
  | nil => simp [lookup]
  | cons m rest ih =>
    obtain ⟨key, old⟩ := m
    by_cases h : key = name
    · simp [lookup, h]
    · rw [lookup, if_neg h, ih]
      simp [Ne.symm h]

theorem mem_of_lookup (h : lookup name members = some value) : (name, value) ∈ members :=
  List.mem_of_getElem? (lookup_eq_some_iff.mp h)

/-- Among distinct names, every member is the one looked up by its name. -/
theorem lookup_of_mem (hd : (members.map Prod.fst).Nodup) (h : (name, value) ∈ members) :
    lookup name members = some value := by
  induction members with
  | nil => cases h
  | cons m rest ih =>
    obtain ⟨key, first⟩ := m
    rw [List.map_cons, List.nodup_cons] at hd
    rcases List.mem_cons.mp h with he | h
    · obtain ⟨rfl, rfl⟩ := Prod.mk.inj he
      rw [lookup, if_pos rfl]
    · have hk : key ≠ name := by
        rintro rfl
        exact hd.1 (List.mem_map.mpr ⟨_, h, rfl⟩)
      rw [lookup, if_neg hk, ih hd.2 h]

/-- Distinct names are looked up to the same in any order of the members. -/
theorem lookup_of_perm {members' : List (String × α)} (hd : (members.map Prod.fst).Nodup)
    (hp : members.Perm members') (name : String) : lookup name members = lookup name members' := by
  have hd' : (members'.map Prod.fst).Nodup := (hp.map Prod.fst).nodup_iff.mp hd
  refine Option.ext fun value => ⟨fun h => ?_, fun h => ?_⟩
  · exact lookup_of_mem hd' (hp.mem_iff.mp (mem_of_lookup h))
  · exact lookup_of_mem hd (hp.mem_iff.mpr (mem_of_lookup h))

/-- Members with distinct names are those that are looked up, in some order. -/
theorem perm_of_lookup {members' : List (String × α)} (hd : (members.map Prod.fst).Nodup)
    (hd' : (members'.map Prod.fst).Nodup)
    (h : ∀ name, lookup name members = lookup name members') : members.Perm members' := by
  refine (List.perm_ext_iff_of_nodup (List.Nodup.of_map _ hd)
    (List.Nodup.of_map _ hd')).mpr fun ⟨name, value⟩ => ?_
  constructor
  · exact fun hm => mem_of_lookup ((h name).symm.trans (lookup_of_mem hd hm))
  · exact fun hm => mem_of_lookup ((h name).trans (lookup_of_mem hd' hm))

/-- Writing over a member changes what stands at its position. -/
theorem getElem?_put {old : α} (h : lookup name members = some old) (new : α) (i : Nat) :
    (put name new members)[i]? =
      if i = position name members then some (name, new) else members[i]? := by
  induction members generalizing i with
  | nil => simp [lookup] at h
  | cons m rest ih =>
    obtain ⟨key, current⟩ := m
    by_cases hk : key = name
    · subst hk
      rw [put, if_pos rfl, position_cons_self]
      cases i <;> simp
    · rw [lookup, if_neg hk] at h
      rw [put, if_neg hk, position_cons_of_ne hk]
      cases i with
      | zero => simp
      | succ i => simp [ih h]

/-- Writing what is there already changes nothing. -/
theorem put_of_lookup (h : lookup name members = some value) :
    put name value members = members := by
  refine List.ext_getElem? fun i => ?_
  rw [getElem?_put h]
  split_ifs with hi
  · rw [hi, lookup_eq_some_iff.mp h]
  · rfl

/-- Of two values written one after the other, the second stays. -/
theorem put_put (name : String) (old new : α) :
    ∀ members : List (String × α), put name new (put name old members) = put name new members
  | [] => by simp [put]
  | (key, value) :: rest => by
    by_cases hk : key = name
    · simp [put, hk]
    · simp [put, hk, put_put name old new rest]

theorem eq_or_mem_of_mem_put {key : String} (h : key ∈ (put name value members).map Prod.fst) :
    key = name ∨ key ∈ members.map Prod.fst := by
  induction members with
  | nil => left; simpa [put] using h
  | cons m rest ih =>
    rw [put] at h
    split_ifs at h with hk
    · right; simpa using h
    · rcases List.mem_cons.mp h with h | h
      · right; simp [h]
      · exact (ih h).imp_right fun h => List.mem_cons_of_mem _ h

/-- What is written is the value, or was there before. -/
theorem entry_of_mem_put {entry : String × α} : ∀ {members : List (String × α)},
    entry ∈ put name value members → entry.2 = value ∨ entry ∈ members
  | [], h => by
    rw [List.mem_singleton.mp h]
    exact Or.inl rfl
  | (key, old) :: rest, h => by
    rw [put] at h
    split_ifs at h
    · rcases List.mem_cons.mp h with rfl | h
      · exact Or.inl rfl
      · exact Or.inr (List.mem_cons_of_mem _ h)
    · rcases List.mem_cons.mp h with rfl | h
      · exact Or.inr List.mem_cons_self
      · exact (entry_of_mem_put h).imp_right (List.mem_cons_of_mem _)

/-- Writing keeps distinct names distinct. -/
theorem nodup_put (hd : (members.map Prod.fst).Nodup) (name : String) (value : α) :
    ((put name value members).map Prod.fst).Nodup := by
  induction members with
  | nil => simp [put]
  | cons m rest ih =>
    rw [List.map_cons, List.nodup_cons] at hd
    rw [put]
    split_ifs with hk
    · rw [List.map_cons, List.nodup_cons]; exact hd
    · rw [List.map_cons, List.nodup_cons]
      refine ⟨fun h => ?_, ih hd.2⟩
      rcases eq_or_mem_of_mem_put h with h | h
      · exact hk h
      · exact hd.1 h

/-- Writing over a member keeps the names. -/
theorem map_fst_put_of_mem (h : name ∈ members.map Prod.fst) :
    (put name value members).map Prod.fst = members.map Prod.fst := by
  induction members with
  | nil => cases h
  | cons m rest ih =>
    rw [put]
    split_ifs with hk
    · rfl
    · rw [List.map_cons, List.mem_cons] at h
      rw [List.map_cons, List.map_cons, ih (h.resolve_left (Ne.symm hk))]

/-- A member with a new name stands behind all others. -/
theorem put_of_not_mem (h : name ∉ members.map Prod.fst) :
    put name value members = members ++ [(name, value)] := by
  induction members with
  | nil => rfl
  | cons m rest ih =>
    rw [List.map_cons, List.mem_cons, not_or] at h
    rw [put, if_neg (Ne.symm h.1), ih h.2, List.cons_append]

/-! ### Members found, left out and added -/

/-- The member found by its name is the one that its name looks up. -/
theorem find?_fst (meant : String → Bool) (members : List (String × α)) :
    (members.find? fun member => meant member.1).map Prod.snd =
      ((members.map Prod.fst).find? meant).bind fun name => lookup name members := by
  induction members with
  | nil => rfl
  | cons m rest ih =>
    obtain ⟨key, value⟩ := m
    cases hm : meant key with
    | true => simp [hm, lookup]
    | false =>
      rw [List.find?_cons_of_neg (by simp [hm]), ih, List.map_cons,
        List.find?_cons_of_neg (by simp [hm])]
      refine Option.bind_congr fun name hname => ?_
      have hne : key ≠ name := by
        rintro rfl
        exact Bool.false_ne_true (hm.symm.trans (List.find?_some hname))
      rw [lookup, if_neg hne]

theorem lookup_append (members rest : List (String × α)) :
    lookup name (members ++ rest) = (lookup name members).or (lookup name rest) := by
  induction members with
  | nil => rfl
  | cons m members ih =>
    rw [List.cons_append, lookup, lookup, ih]
    split_ifs <;> rfl

theorem lookup_filter_self (name : String) (members : List (String × α)) :
    lookup name (members.filter fun member => member.1 != name) = none := by
  rw [lookup_eq_none_iff]
  simp

theorem lookup_filter_of_ne {other : String} (h : other ≠ name) (members : List (String × α)) :
    lookup other (members.filter fun member => member.1 != name) = lookup other members := by
  induction members with
  | nil => rfl
  | cons m rest ih =>
    obtain ⟨key, value⟩ := m
    by_cases hk : key = name
    · rw [List.filter_cons_of_neg (by simp [hk]), ih, lookup,
        if_neg (fun he => h (by rw [← he, hk]))]
    · rw [List.filter_cons_of_pos (by simp [hk]), lookup, lookup, ih]

/-! ### Values changed -/

/-- Changing a member is writing over it, if there is one. -/
theorem modify_eq (name : String) (change : α → α) (members : List (String × α)) :
    modify name change members =
      match lookup name members with
      | some value => put name (change value) members
      | none => members := by
  induction members with
  | nil => rfl
  | cons m rest ih =>
    obtain ⟨key, value⟩ := m
    by_cases hk : key = name
    · simp [modify, lookup, put, hk]
    · rw [modify, if_neg hk, lookup, if_neg hk, ih]
      cases lookup name rest <;> simp [put, hk]

theorem map_fst_modify (name : String) (change : α → α) (members : List (String × α)) :
    (modify name change members).map Prod.fst = members.map Prod.fst := by
  induction members with
  | nil => rfl
  | cons m rest ih =>
    obtain ⟨key, value⟩ := m
    rw [modify]
    split_ifs
    · rfl
    · rw [List.map_cons, List.map_cons, ih]

theorem lookup_modify_self (name : String) (change : α → α) (members : List (String × α)) :
    lookup name (modify name change members) = (lookup name members).map change := by
  rw [modify_eq]
  cases h : lookup name members with
  | none => exact h
  | some value => exact lookup_put_self name (change value) members

theorem lookup_modify_of_ne {other : String} (h : other ≠ name) (change : α → α)
    (members : List (String × α)) :
    lookup other (modify name change members) = lookup other members := by
  rw [modify_eq]
  cases lookup name members with
  | none => rfl
  | some value => exact lookup_put_of_ne h (change value) members

theorem lookup_map_snd {β : Type} (change : α → β) (members : List (String × α)) (name : String) :
    lookup name (members.map fun m => (m.1, change m.2)) = (lookup name members).map change := by
  induction members with
  | nil => rfl
  | cons m rest ih =>
    obtain ⟨key, value⟩ := m
    rw [List.map_cons, lookup, lookup]
    split_ifs
    · rfl
    · exact ih

end ApiDecl.Member
