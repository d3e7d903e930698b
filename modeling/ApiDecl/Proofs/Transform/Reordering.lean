import ApiDecl.Operation.Basic
import ApiDecl.Proofs.Transform.References

/-!
# Tables in another order

The rounds that find live names go by the order of a section, but they end with the least names that
a round finds nothing beside (`liveNames_subset`).  So sections with the same programs for each name
have the same live names, in whatever order (`Section.Matches.mem_liveNames_iff`).

Pruning goes by what is live and not by the order of that (`prunedAll_congr`).  So tables with the
same programs are pruned to the same programs, in sections that differ by their order only
(`Table.Matches.programs_prune`, `Table.Matches.perm_prune`).
-/

namespace ApiDecl

variable {live live' : List String} {s s' : Section} {name : String}

/-! ### The least closed names -/

/-- A round finds nothing beyond names that are closed. -/
theorem newlyLive_subset (hclosed : newlyLive s live' = []) (hl : live ⊆ live') :
    newlyLive s live ⊆ live' := by
  intro name hn
  simp only [newlyLive, List.mem_map, List.mem_filter, Bool.and_eq_true] at hn
  obtain ⟨entry, ⟨hm, -, he⟩, rfl⟩ := hn
  by_contra hnot
  -- more live names only make more programs end live
  have hdead := newlyLive_eq_nil_iff.mp hclosed entry hm hnot
  rw [someEndsLive_mono hl entry.2 he] at hdead
  cases hdead

theorem liveFrom_subset (hclosed : newlyLive s live' = []) : ∀ (rounds : Nat) {live : List String},
    live ⊆ live' → liveFrom s live rounds ⊆ live'
  | 0, _, hl => hl
  | rounds + 1, live, hl => by
    rw [liveFrom]
    split
    · exact hl
    · exact liveFrom_subset hclosed rounds
        (List.append_subset.mpr ⟨hl, newlyLive_subset hclosed hl⟩)

/-- **The live names are the least** that a round finds nothing beside. -/
theorem liveNames_subset (hclosed : newlyLive s live' = []) : liveNames s ⊆ live' :=
  liveFrom_subset hclosed s.length (List.nil_subset _)

/-- Among distinct names, what a round finds goes by the programs of each name. -/
theorem newlyLive_eq_nil_iff_programs (hd : (s.map Prod.fst).Nodup) : newlyLive s live = [] ↔
    ∀ name, name ∉ live → someEndsLive live (s.programs name) = false := by
  rw [newlyLive_eq_nil_iff]
  constructor
  · intro h name hn
    cases hl : Member.lookup name s with
    | none => rw [Section.programs_of_lookup_none hl]; rfl
    | some programs =>
      rw [Section.programs_of_lookup hl]
      exact h _ (Member.mem_of_lookup hl) hn
  · rintro h ⟨name, programs⟩ hm hn
    have hdead := h name hn
    rwa [Section.programs_of_lookup (Member.lookup_of_mem hd hm)] at hdead

/-- Both sections list a name once, with the same programs. -/
structure Section.Matches (s s' : Section) : Prop where
  nodup : (s.map Prod.fst).Nodup
  nodup' : (s'.map Prod.fst).Nodup
  programs : ∀ name, s.programs name = s'.programs name

namespace Section.Matches

theorem symm (h : s.Matches s') : s'.Matches s :=
  ⟨h.nodup', h.nodup, fun name => (h.programs name).symm⟩

variable (h : s.Matches s')
include h

theorem newlyLive_iff (live : List String) : newlyLive s live = [] ↔ newlyLive s' live = [] := by
  simp only [newlyLive_eq_nil_iff_programs h.nodup, newlyLive_eq_nil_iff_programs h.nodup',
    h.programs]

/-- **The same names are live** in both sections. -/
theorem mem_liveNames_iff (name : String) : name ∈ liveNames s ↔ name ∈ liveNames s' :=
  ⟨fun hn => liveNames_subset ((h.newlyLive_iff _).mpr (newlyLive_liveNames s')) hn,
    fun hn => liveNames_subset ((h.newlyLive_iff _).mp (newlyLive_liveNames s)) hn⟩

end Section.Matches

/-! ### What is left -/

mutual

theorem prunedStep_congr (h : ∀ name, name ∈ live ↔ name ∈ live') :
    ∀ step : Step, prunedStep live step = prunedStep live' step
  | .this | .access _ | .loop | .entries => by simp only [prunedStep]
  | .ref name => by simp only [prunedStep, List.contains_eq_mem, h]
  | .select arms => by rw [prunedStep, prunedStep, prunedAll_congr h arms]

theorem pruned_congr (h : ∀ name, name ∈ live ↔ name ∈ live') :
    ∀ program : Program, pruned live program = pruned live' program
  | [] => by simp only [pruned]
  | [step] => by rw [pruned, pruned, prunedStep_congr h step]
  | _ :: next :: rest => by rw [pruned, pruned, pruned_congr h (next :: rest)]

/-- Pruning goes by which names are live. -/
theorem prunedAll_congr (h : ∀ name, name ∈ live ↔ name ∈ live') :
    ∀ programs : List Program, prunedAll live programs = prunedAll live' programs
  | [] => by simp only [prunedAll]
  | program :: rest => by
    rw [prunedAll_cons, prunedAll_cons, pruned_congr h program, prunedAll_congr h rest]

end

/-- Among distinct names, what is left of a section goes by the programs of each name. -/
theorem lookup_prune_programs (hd : (s.map Prod.fst).Nodup) (live : List String) :
    Member.lookup name (s.prune live) =
      if prunedAll live (s.programs name) = [] then none
      else some (prunedAll live (s.programs name)) := by
  rw [lookup_prune hd]
  cases hl : Member.lookup name s with
  | none => simp [Section.programs_of_lookup_none hl, prunedAll]
  | some programs => rw [Option.bind_some, Section.programs_of_lookup hl]

theorem Section.programs_prune (hd : (s.map Prod.fst).Nodup) (live : List String) :
    (s.prune live).programs name = prunedAll live (s.programs name) := by
  rw [Section.programs, lookup_prune_programs hd]
  split_ifs with h
  · exact h.symm
  · rfl

theorem nodup_names_prune (hd : (s.map Prod.fst).Nodup) (live : List String) :
    ((s.prune live).map Prod.fst).Nodup := by
  have hsub := (List.filter_sublist (p := fun entry : String × List Program => !entry.2.isEmpty)
    (l := s.map fun entry => (entry.1, prunedAll live entry.2))).map Prod.fst
  rw [List.map_map] at hsub
  exact hsub.nodup hd

/-- What is left of both sections differs by its order only. -/
theorem Section.Matches.perm_prune (h : s.Matches s') :
    (s.prune (liveNames s)).Perm (s'.prune (liveNames s')) := by
  refine Member.perm_of_lookup (nodup_names_prune h.nodup _) (nodup_names_prune h.nodup' _)
    fun name => ?_
  rw [lookup_prune_programs h.nodup, lookup_prune_programs h.nodup', h.programs,
    prunedAll_congr h.mem_liveNames_iff]

/-! ### Tables -/

/-- Both tables list a name once for each kind, with the same programs. -/
def Table.Matches (t t' : Table) : Prop := ∀ kind, (t.entries kind).Matches (t'.entries kind)

namespace Table

theorem programs_prune {t : Table} {kind : Kind} (hd : (t.names kind).Nodup) (name : String) :
    t.prune.1.programs kind name = prunedAll (t.prune.2.names kind) (t.programs kind name) := by
  rw [programs, entries_prune, Section.programs_prune hd, names_prune]
  rfl

/-- A section that is left of a table has a name. -/
theorem section?_prune (t : Table) (kind : Kind) :
    t.prune.1.section? kind = nonempty? (t.prune.1.entries kind) := by
  have hleft (s : Section) : nonempty? s = nonempty? ((nonempty? s).getD []) := by
    cases s <;> rfl
  have keep (o : Option Section) : (o.bind fun s => nonempty? (s.prune (ApiDecl.liveNames s))) =
      nonempty? ((o.bind fun s => nonempty? (s.prune (ApiDecl.liveNames s))).getD []) := by
    cases o with
    | none => rfl
    | some s => exact hleft _
  cases kind <;> exact keep _

theorem rel_nonempty? (h : s.Perm s') : Option.Rel List.Perm (nonempty? s) (nonempty? s') := by
  cases s with
  | nil =>
    obtain rfl := h.nil_eq
    exact .none
  | cons entry rest =>
    cases s' with
    | nil => cases h.eq_nil
    | cons entry' rest' => exact .some h

namespace Matches

variable {t t' : Table} (h : t.Matches t')
include h

theorem prunedAll_eq (kind : Kind) (programs : List Program) :
    prunedAll (t.prune.2.names kind) programs = prunedAll (t'.prune.2.names kind) programs := by
  rw [names_prune, names_prune]
  exact prunedAll_congr (h kind).mem_liveNames_iff programs

/-- **Each name keeps the same programs** when the tables are pruned. -/
theorem programs_prune (kind : Kind) (name : String) :
    t.prune.1.programs kind name = t'.prune.1.programs kind name := by
  rw [Table.programs_prune (h kind).nodup, Table.programs_prune (h kind).nodup', h.prunedAll_eq,
    programs, (h kind).programs]
  rfl

/-- **The pruned tables** differ by the order of their sections only. -/
theorem perm_prune (kind : Kind) :
    Option.Rel List.Perm (t.prune.1.section? kind) (t'.prune.1.section? kind) := by
  rw [section?_prune, section?_prune, entries_prune, entries_prune]
  exact rel_nonempty? (h kind).perm_prune

/-- The same is left of the links of an operation. -/
theorem prune_operation (o : OperationDeclaration) : o.prune t.prune.2 = o.prune t'.prune.2 := by
  have hlinks (links : Links) : links.prune t.prune.2 = links.prune t'.prune.2 := by
    simp only [Links.prune, h.prunedAll_eq]
  simp only [OperationDeclaration.prune, hlinks]

end Matches

end Table

end ApiDecl
