import ApiDecl.Proofs.Json.Member
import ApiDecl.Transform.Run
import Mathlib.Order.Nat

/-!
# The visits of a program

`visitsOf` never enters a name again on the way to a visit.  `Leads` is the relation without this
guard: a `select` leads wherever an arm of it leads, a `ref` wherever a program of its name leads,
however often a name has been entered on the way.  The two agree (`mem_visitsOf_iff`): a way that
enters a name twice can be cut short, so the shortest way to a visit enters no name twice
(`mem_visitsOf_or`).
-/

namespace ApiDecl

variable {s t : Section} {program : Program} {visit : Visit}

/-- A program leads to a visit by entering a number of arms and names. -/
inductive LeadsIn (s : Section) : Nat → Program → Visit → Prop
  | this {n : Nat} {rest : Program} : LeadsIn s n (.this :: rest) .convert
  | access {n : Nat} {name : String} {rest : Program} :
      LeadsIn s n (.access name :: rest) (.field name rest)
  | loop {n : Nat} {rest : Program} : LeadsIn s n (.loop :: rest) (.items rest)
  | entries {n : Nat} {rest : Program} : LeadsIn s n (.entries :: rest) (.members rest)
  | select {n : Nat} {arms : List Program} {arm rest : Program} {visit : Visit} :
      arm ∈ arms → LeadsIn s n arm visit → LeadsIn s (n + 1) (.select arms :: rest) visit
  | ref {n : Nat} {name : String} {program rest : Program} {visit : Visit} :
      program ∈ s.programs name → LeadsIn s n program visit →
        LeadsIn s (n + 1) (.ref name :: rest) visit

/-- A program leads to a visit. -/
def Leads (s : Section) (program : Program) (visit : Visit) : Prop := ∃ n, LeadsIn s n program visit

/-! ### Sections without some names -/

namespace Section

/-- What is registered in one section is registered alike in another. -/
def Within (t s : Section) : Prop :=
  ∀ name programs, Member.lookup name t = some programs → Member.lookup name s = some programs

theorem within_refl (s : Section) : s.Within s := fun _ _ h => h

theorem programs_of_lookup {name : String} {programs : List Program}
    (h : Member.lookup name s = some programs) : s.programs name = programs := by
  rw [Section.programs, h]; rfl

theorem programs_of_lookup_none {name : String} (h : Member.lookup name s = none) :
    s.programs name = [] := by
  rw [Section.programs, h]; rfl

theorem lookup_without_self (s : Section) (name : String) :
    Member.lookup name (s.without name) = none :=
  Member.lookup_filter_self name s

theorem lookup_without_of_ne {name other : String} (h : other ≠ name) (s : Section) :
    Member.lookup other (s.without name) = Member.lookup other s :=
  Member.lookup_filter_of_ne h s

theorem within_without (ht : t.Within s) (name : String) : (t.without name).Within s := by
  intro other programs h
  by_cases ho : other = name
  · subst ho; rw [lookup_without_self] at h; cases h
  · rw [lookup_without_of_ne ho] at h; exact ht _ _ h

end Section

/-! ### No visit too many -/

theorem mem_visitsOfAll {programs : List Program} :
    visit ∈ visitsOfAll s programs ↔ ∃ program ∈ programs, visit ∈ visitsOf s program := by
  induction programs with
  | nil => simp [visitsOfAll]
  | cons program rest ih =>
    rw [visitsOfAll, List.mem_append, ih]
    simp

/-- A program leads to its visits, also to those that keep away from some names. -/
theorem leads_of_mem_visitsOf : ∀ {t : Section} (_ : t.Within s) (program : Program),
    visit ∈ visitsOf t program → Leads s program visit
  | _, _, [], h => by simp [visitsOf] at h
  | _, _, .this :: _, h => by
    obtain rfl : visit = .convert := by simpa [visitsOf] using h
    exact ⟨0, .this⟩
  | _, _, .access name :: rest, h => by
    obtain rfl : visit = .field name rest := by simpa [visitsOf] using h
    exact ⟨0, .access⟩
  | _, _, .loop :: rest, h => by
    obtain rfl : visit = .items rest := by simpa [visitsOf] using h
    exact ⟨0, .loop⟩
  | _, _, .entries :: rest, h => by
    obtain rfl : visit = .members rest := by simpa [visitsOf] using h
    exact ⟨0, .entries⟩
  | _, ht, .select arms :: _, h => by
    rw [visitsOf, mem_visitsOfAll] at h
    obtain ⟨arm, harm, hv⟩ := h
    obtain ⟨n, hn⟩ := leads_of_mem_visitsOf ht arm hv
    exact ⟨n + 1, .select harm hn⟩
  | _, ht, .ref name :: _, h => by
    rw [visitsOf] at h
    split at h
    · next programs hl =>
      obtain ⟨q, hq, hv⟩ := mem_visitsOfAll.mp h
      obtain ⟨n, hn⟩ := leads_of_mem_visitsOf (Section.within_without ht name) q hv
      exact ⟨n + 1, .ref (by rw [Section.programs_of_lookup (ht _ _ hl)]; exact hq) hn⟩
    · simp at h
termination_by t _ program => (t.length, sizeOf program)
decreasing_by
  · have := List.sizeOf_lt_of_mem harm
    apply Prod.Lex.right
    simp only [List.cons.sizeOf_spec, Step.select.sizeOf_spec]
    omega
  · exact Prod.Lex.left _ _ (Section.length_without_lt (by assumption))

/-! ### No visit too few -/

/-- A program makes every visit that it leads to, or a shorter way to the visit starts from a name
that is kept away from. -/
theorem mem_visitsOf_or {n : Nat} (ht : t.Within s) (h : LeadsIn s n program visit) :
    visit ∈ visitsOf t program ∨
      ∃ name, Member.lookup name t = none ∧ ∃ m < n, ∃ q ∈ s.programs name,
        LeadsIn s m q visit := by
  induction n using Nat.strong_induction_on generalizing t program with
  | _ n ih =>
    cases h with
    | this => left; simp [visitsOf]
    | access => left; simp [visitsOf]
    | loop => left; simp [visitsOf]
    | entries => left; simp [visitsOf]
    | @select n arms arm rest _ harm hv =>
      rcases ih n (by omega) ht hv with hmem | ⟨name, hn, m, hm, q, hq, hl⟩
      · left; rw [visitsOf, mem_visitsOfAll]; exact ⟨arm, harm, hmem⟩
      · right; exact ⟨name, hn, m, by omega, q, hq, hl⟩
    | @ref n name q rest _ hq hv =>
      cases hl : Member.lookup name t with
      | none => right; exact ⟨name, hl, n, by omega, q, hq, hv⟩
      | some programs =>
        -- of all ways from the programs of the name, take a shortest one
        classical
        have hex : ∃ k, ∃ q ∈ s.programs name, LeadsIn s k q visit := ⟨n, q, hq, hv⟩
        obtain ⟨q', hq', hv'⟩ := Nat.find_spec hex
        have hle : Nat.find hex ≤ n := Nat.find_min' hex ⟨q, hq, hv⟩
        have hs := Section.programs_of_lookup (ht _ _ hl)
        rcases ih _ (by omega) (Section.within_without ht name) hv' with
          hmem | ⟨other, ho, m, hm, p, hp, hlp⟩
        · left
          rw [visitsOf]
          split
          · next programs' hl' =>
            obtain rfl : programs = programs' := Option.some.inj (hl.symm.trans hl')
            rw [mem_visitsOfAll]
            exact ⟨q', by rw [← hs]; exact hq', hmem⟩
          · next hl' => rw [hl] at hl'; cases hl'
        · right
          by_cases hne : other = name
          · exact absurd ⟨p, by rw [← hne]; exact hp, hlp⟩ (Nat.find_min hex hm)
          · rw [Section.lookup_without_of_ne hne] at ho
            exact ⟨other, ho, m, by omega, p, hp, hlp⟩

/-- **The guard loses no visit**: a program makes the visits that it leads to. -/
theorem mem_visitsOf_iff : visit ∈ visitsOf s program ↔ Leads s program visit := by
  constructor
  · exact leads_of_mem_visitsOf s.within_refl program
  · rintro ⟨n, h⟩
    rcases mem_visitsOf_or s.within_refl h with h | ⟨name, hn, m, -, q, hq, -⟩
    · exact h
    · rw [Section.programs_of_lookup_none hn] at hq; cases hq

end ApiDecl
