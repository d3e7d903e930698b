import ApiDecl.Proofs.Transform.Reordering
import ApiDecl.Proofs.Types.Closure

/-!
# Programs as they were last registered

Tables and links both keep lists of programs in slots, a table by kind and name and links by kind.
Both are filled by insertions and pruned now and then (`Store`).  Where an insertion leaves the
other slots alone, a list stays as it was inserted until the slot is written again or everything is
pruned (`Store.Writes.programs_after`).

An empty list takes away what links have for the kind, but a table passes it over.  So links always
give the list inserted last, while a table gives an older one where the last one was empty
(`programs_after_insert`).  After whatever changes, the names of a table are those with programs
(`Table.Listed`, `Table.listed_after`).
-/

namespace ApiDecl

/-! ### Stores -/

/-- How programs are kept in slots of type `ι`, and pruned by what is live. -/
structure Store (σ ι π : Type) where
  empty : σ
  insert : σ → ι → List Program → σ
  prune : σ → π → σ
  programs : σ → ι → List Program

/-- A change to a store. -/
inductive Change (ι π : Type) where
  | insert (slot : ι) (programs : List Program)
  | prune (live : π)

/-- The change neither writes the slot nor prunes. -/
def Change.Spares {ι π : Type} (slot : ι) : Change ι π → Prop
  | .insert other _ => other ≠ slot
  | .prune _ => False

namespace Store

variable {σ ι π : Type} {S : Store σ ι π}

/-- Makes a change. -/
def change (S : Store σ ι π) (s : σ) : Change ι π → σ
  | .insert slot programs => S.insert s slot programs
  | .prune live => S.prune s live

/-- What the changes make of the empty store. -/
def after (S : Store σ ι π) (changes : List (Change ι π)) : σ := changes.foldl S.change S.empty

/-- What holds of the empty store and is kept by each change holds after any changes. -/
theorem after_induction {P : σ → Prop} (hempty : P S.empty)
    (hinsert : ∀ s slot programs, P s → P (S.insert s slot programs))
    (hprune : ∀ s live, P s → P (S.prune s live)) (changes : List (Change ι π)) :
    P (S.after changes) := by
  refine List.foldlRecOn changes S.change hempty fun s hs change _ => ?_
  cases change with
  | insert slot programs => exact hinsert s slot programs hs
  | prune live => exact hprune s live hs

/-- An insertion leaves in its slot what `kept` makes of the old programs and the new ones, and
other slots as they are. -/
structure Writes (S : Store σ ι π) (kept : List Program → List Program → List Program) : Prop where
  self : ∀ s slot programs,
    S.programs (S.insert s slot programs) slot = kept (S.programs s slot) programs
  other : ∀ s slot other programs, other ≠ slot →
    S.programs (S.insert s other programs) slot = S.programs s slot

/-- The slots hold the programs that were inserted last, until they are pruned. -/
def KeepsLast (S : Store σ ι π) : Prop :=
  ∀ changes slot programs more, (∀ change ∈ more, Change.Spares slot change) →
    S.programs (S.after (changes ++ .insert slot programs :: more)) slot = programs

variable {kept : List Program → List Program → List Program}

theorem Writes.programs_change (h : S.Writes kept) {slot : ι} {change : Change ι π}
    (hc : change.Spares slot) (s : σ) :
    S.programs (S.change s change) slot = S.programs s slot := by
  cases change with
  | insert other programs => exact h.other s slot other programs hc
  | prune => exact hc.elim

/-- **What is inserted stays** while the changes spare its slot. -/
theorem Writes.programs_after (h : S.Writes kept) (changes : List (Change ι π)) (slot : ι)
    (programs : List Program) {more : List (Change ι π)}
    (hmore : ∀ change ∈ more, Change.Spares slot change) :
    S.programs (S.after (changes ++ .insert slot programs :: more)) slot =
      kept (S.programs (S.after changes) slot) programs := by
  rw [after, List.foldl_append, List.foldl_cons]
  refine (List.foldlRecOn (motive := fun s => S.programs s slot =
    S.programs (S.insert (S.after changes) slot programs) slot) more S.change rfl
    fun s hs change hc => ?_).trans (h.self ..)
  rw [h.programs_change (hmore change hc), hs]

end Store

/-! ### Tables -/

/-- Tables as stores; what is live in a table is found when it is pruned. -/
def Table.store : Store Table (Kind × String) Unit where
  empty := .empty
  insert t slot programs := t.insert slot.1 slot.2 programs
  prune t _ := t.prune.1
  programs t slot := t.programs slot.1 slot.2

/-- A table passes an empty list over. -/
theorem Table.store_writes :
    Table.store.Writes fun old programs => if programs = [] then old else programs where
  self t slot programs := by
    simp only [store, programs_insert, true_and, ite_not]
  other t slot other programs hne := by
    simp only [store, programs_insert]
    refine if_neg fun h => hne ?_
    exact Prod.ext h.1.symm h.2.1.symm

namespace Table

variable {t : Table}

/-- No list of programs is empty. -/
def Nonempty (t : Table) : Prop := ∀ kind, ∀ entry ∈ t.entries kind, entry.2 ≠ []

/-- The names of a table are listed once, each with its programs; and there are programs for a name
just if it is listed. -/
structure Listed (t : Table) : Prop where
  nonempty : t.Nonempty
  nodup : ∀ kind, (t.names kind).Nodup
  mem_names : ∀ kind name, name ∈ t.names kind ↔ t.programs kind name ≠ []
  contains : ∀ kind name, t.contains kind name = true ↔ t.programs kind name ≠ []
  isEmpty : t.isEmpty = true ↔ ∀ kind name, t.programs kind name = []

theorem Nonempty.insert (h : t.Nonempty) (kind : Kind) (name : String) (programs : List Program) :
    (t.insert kind name programs).Nonempty := by
  unfold Table.insert
  split_ifs with hp
  · exact h
  · intro other entry hm
    by_cases hk : other = kind
    · subst hk
      rw [entries_setSection_self] at hm
      rcases Member.entry_of_mem_put hm with he | hm
      · rw [he]
        exact fun hnil => hp (List.isEmpty_iff.mpr hnil)
      · exact h _ entry hm
    · rw [entries_setSection_of_ne t hk] at hm
      exact h other entry hm

theorem nonempty_prune (t : Table) : t.prune.1.Nonempty := by
  intro kind entry hm
  rw [entries_prune] at hm
  simpa using (List.mem_filter.mp hm).2

/-- A name has programs just if it is listed, where no list of programs is empty. -/
theorem Nonempty.programs_eq_nil_iff (h : t.Nonempty) {kind : Kind} {name : String} :
    t.programs kind name = [] ↔ name ∉ t.names kind := by
  rw [names, ← Member.lookup_eq_none_iff, programs, Section.programs]
  cases hl : Member.lookup name (t.entries kind) with
  | none => simp
  | some programs => simpa using h kind _ (Member.mem_of_lookup hl)

theorem Nonempty.listed (h : t.Nonempty) (hd : ∀ kind, (t.names kind).Nodup) : t.Listed where
  nonempty := h
  nodup := hd
  mem_names kind name := by rw [Ne, h.programs_eq_nil_iff, not_not]
  contains kind name := by
    rw [Ne, h.programs_eq_nil_iff, not_not, contains, Member.has, Option.isSome_iff_ne_none, Ne,
      Member.lookup_eq_none_iff, not_not, names]
  isEmpty := by
    have hnames (kind : Kind) : t.entries kind = [] ↔ ∀ name, t.programs kind name = [] := by
      simp only [h.programs_eq_nil_iff, names, ← List.eq_nil_iff_forall_not_mem,
        List.map_eq_nil_iff]
    simp only [isEmpty, Kind.all, List.all_cons, List.all_nil, Bool.and_true, Bool.and_eq_true,
      List.isEmpty_iff, hnames]
    exact ⟨fun hall kind => by cases kind; exacts [hall.1, hall.2],
      fun hall => ⟨hall .date, hall .binary⟩⟩

/-- **After any changes** the names of a table are those with programs. -/
theorem listed_after (changes : List (Change (Kind × String) Unit)) :
    (store.after changes).Listed := by
  have h : (store.after changes).Nonempty ∧ ∀ kind, ((store.after changes).names kind).Nodup := by
    refine Store.after_induction (P := fun t : Table => t.Nonempty ∧ ∀ kind, (t.names kind).Nodup)
      ⟨?_, ?_⟩ ?_ ?_ changes
    · intro kind entry hm
      cases kind <;> cases hm
    · intro kind
      cases kind <;> exact List.nodup_nil
    · exact fun t slot programs ht =>
        ⟨ht.1.insert _ _ _, fun kind => nodup_names_insert (ht.2 kind) _ _ _⟩
    · refine fun t _ ht => ⟨t.nonempty_prune, fun kind => ?_⟩
      rw [names, store, entries_prune]
      exact nodup_names_prune (ht.2 kind) _
  exact h.1.listed h.2

end Table

/-! ### Links -/

/-- Links as stores. -/
def Links.store : Store Links Kind LiveNames where
  empty := .empty
  insert := .insert
  prune := .prune
  programs l := l.programs

/-- Links take any list, empty lists included. -/
theorem Links.store_writes : Links.store.Writes fun _ programs => programs where
  self _ kind _ := by cases kind <;> rfl
  other _ kind other _ hne := by
    cases kind <;> cases other <;> first | rfl | exact absurd rfl hne

theorem Links.isEmpty_iff (l : Links) : l.isEmpty = true ↔ ∀ kind, l.programs kind = [] := by
  simp only [isEmpty, Bool.and_eq_true, List.isEmpty_iff]
  exact ⟨fun h kind => by cases kind; exacts [h.1, h.2], fun h => ⟨h .date, h .binary⟩⟩

/-! ### What is read after an insertion -/

/-- **What was registered last is read**, from links always and from a table unless an empty list
came behind programs.  This stays so whatever is inserted elsewhere, until the store is pruned.  A
table never lists a name without programs. -/
theorem programs_after_insert (changes : List (Change (Kind × String) Unit)) (kind : Kind)
    (name : String) (programs : List Program) {more : List (Change (Kind × String) Unit)}
    (hmore : ∀ change ∈ more, Change.Spares (kind, name) change) :
    let before := Table.store.after changes
    let after := Table.store.after (changes ++ .insert (kind, name) programs :: more)
    before.Listed ∧
      after.programs kind name = (if programs = [] then before.programs kind name else programs) ∧
      (after.programs kind name = programs ↔ (programs = [] → before.programs kind name = [])) ∧
      Links.store.KeepsLast ∧
      ∀ changes, (Links.store.after changes).isEmpty = true ↔
        ∀ kind, (Links.store.after changes).programs kind = [] := by
  intro before after
  have hread : after.programs kind name =
      if programs = [] then before.programs kind name else programs :=
    Table.store_writes.programs_after changes (kind, name) programs hmore
  refine ⟨Table.listed_after _, hread, ?_,
    fun changes kind programs more hmore => Links.store_writes.programs_after _ _ _ hmore,
    fun changes => Links.isEmpty_iff _⟩
  rw [hread]
  by_cases hp : programs = [] <;> simp [hp]

/-- Insertions for another kind and for another name. -/
def elsewhere : List (Change (Kind × String) Unit) :=
  [.insert (.binary, "A") [], .insert (.date, "B") [[.this]]]

/-- Programs come back for a name that was pruned, and stay while another name loses its own. -/
theorem programs_after_insert_pruned :
    (∀ change ∈ elsewhere, Change.Spares (.date, "A") change) ∧
      (Table.store.after ([.insert (.date, "A") [[.ref "B"]], .prune ()] ++
        .insert (.date, "A") [[.loop, .ref "B"]] :: elsewhere)).programs .date "A" =
        [[.loop, .ref "B"]] :=
  have hmore : ∀ change ∈ elsewhere, Change.Spares (.date, "A") change := by
    simp [elsewhere, Change.Spares]
  ⟨hmore, (programs_after_insert _ _ _ _ hmore).2.1⟩

/-- An empty list does not take the place of programs in a table. -/
theorem tables_not_keepsLast : ¬ Table.store.KeepsLast := fun h =>
  absurd (h [.insert (.date, "A") [[.this]]] (.date, "A") [] [] (by simp)) (by decide)

end ApiDecl
