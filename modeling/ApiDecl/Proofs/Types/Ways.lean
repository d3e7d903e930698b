import ApiDecl.Proofs.Transform.Calls
import ApiDecl.Proofs.Types.Walk

/-!
# How often a type asks for a conversion

A type may lead to one slot in several ways: through several members of a union or an intersection,
and through a declared field as well as the type of further members.  `Ty.ways` counts them.  At each
slot the type is taken apart into its `parts`, named types followed and no name twice, and each place of
a path takes the parts above it to the types below.

The programs of a type lead to a slot in no more ways (`programWays_le`), and fewer where members have
a program in common.

* `sublist_parts`: the visits of a type are among those of its parts;
* `visits_below`: below a part, the visits are those of the types there.
-/

namespace ApiDecl

namespace Ty

mutual

/-- What a type is made of at its slot, where only some names may be followed. -/
def parts (types : String → Option Ty) (names : List String) : Ty → List Ty
  | .union members _ => partsAll types names members
  | .intersection members => partsAll types names members
  | .reference name =>
    if name ∈ names then
      match types name with
      | some ty => parts types (names.filter (· ≠ name)) ty
      | none => []
    else []
  | .scalar sort format => [.scalar sort format]
  | .array element => [.array element]
  | .object fields additional => [.object fields additional]
  | .enumeration values => [.enumeration values]
  | .literal value => [.literal value]
termination_by ty => (names.length, sizeOf ty)
decreasing_by
  · exact Prod.Lex.right _ (by simp +arith)
  · exact Prod.Lex.right _ (by simp +arith)
  · refine Prod.Lex.left _ _ ?_
    exact List.length_filter_lt_length_iff_exists.mpr ⟨name, by assumption, by simp⟩

/-- The parts of types at one slot. -/
def partsAll (types : String → Option Ty) (names : List String) : List Ty → List Ty
  | [] => []
  | ty :: rest => parts types names ty ++ partsAll types names rest
termination_by tys => (names.length, sizeOf tys)
decreasing_by
  all_goals exact Prod.Lex.right _ (by simp +arith)

end

/-- The type is a part by itself. -/
def isPart : Ty → Bool
  | .union _ _ | .intersection _ | .reference _ => false
  | .scalar _ _ | .array _ | .object _ _ | .enumeration _ | .literal _ => true

/-- The type is a string with a format of the kind. -/
def converts (kind : Kind) : Ty → Bool
  | .scalar .string (some format) => format ∈ kind.formats
  | _ => false

/-- The types that a part has at one part of its slot. -/
def childrenAt (place : Place) : Ty → List Ty
  | .array element =>
    match place with
    | .item _ => [element]
    | .member _ _ => []
  | .object fields additional =>
    match place with
    | .member _ name => (fields.filter (·.wireName = name)).map FieldOf.ty ++ additional.toList
    | .item _ => []
  | _ => []

/-- The number of ways in which types at a slot lead to a string with a format of the kind at the slot
of a path below. -/
def ways (types : String → Option Ty) (names : List String) (kind : Kind) :
    List Place → List Ty → Nat
  | [], tys => (partsAll types names tys).countP (converts kind)
  | place :: path, tys =>
    ways types names kind path ((partsAll types names tys).flatMap (childrenAt place))

end Ty

variable {s t : Section} {types : String → Option Ty} {names : List String} {kind : Kind}

/-! ### Visits of a type and of its parts -/

theorem distinct_sublist {α : Type} [DecidableEq α] (l : List α) : (distinct l).Sublist l := by
  have fold (l kept front : List α) (hk : kept.Sublist front) :
      (l.foldl (fun kept x => if kept.any (fun a => decide (a = x)) then kept else kept ++ [x])
        kept).Sublist (front ++ l) := by
    induction l generalizing kept front with
    | nil => simpa using hk
    | cons x l ih =>
      rw [List.foldl_cons, List.append_cons front x l]
      split_ifs
      · exact ih kept (front ++ [x]) (hk.trans (List.sublist_append_left ..))
      · exact ih _ _ (hk.append (List.Sublist.refl _))
  exact fold l [] [] (List.Sublist.refl _)

theorem visitsOfAll_sublist {ps qs : List Program} (h : ps.Sublist qs) :
    (visitsOfAll s ps).Sublist (visitsOfAll s qs) := by
  induction h with
  | slnil => exact List.Sublist.refl _
  | cons p _ ih =>
    rw [visitsOfAll]
    exact ih.trans (List.sublist_append_right ..)
  | cons_cons p _ ih =>
    rw [visitsOfAll, visitsOfAll]
    exact (List.Sublist.refl _).append ih

/-- The visits of a type. -/
def Ty.visits (s : Section) (kind : Kind) (ty : Ty) : List Visit := visitsOfAll s (ty.programs kind)

theorem visitsOfAll_memberPrograms (s : Section) (kind : Kind) (tys : List Ty) :
    visitsOfAll s (Ty.memberPrograms kind tys) = tys.flatMap (Ty.visits s kind) := by
  induction tys with
  | nil => rw [Ty.memberPrograms, visitsOfAll, List.flatMap_nil]
  | cons ty tys ih => rw [Ty.memberPrograms, visitsOfAll_append, ih, List.flatMap_cons, Ty.visits]

/-- Programs that convert or descend make the same visits in any section. -/
theorem visitsOfAll_congr {ps : List Program}
    (h : ∀ p ∈ ps, ∃ step rest, p = step :: rest ∧ (step = .this ∨ step.descends = true)) :
    visitsOfAll t ps = visitsOfAll s ps := by
  induction ps with
  | nil => rw [visitsOfAll, visitsOfAll]
  | cons p ps ih =>
    obtain ⟨step, rest, rfl, hstep⟩ := h _ List.mem_cons_self
    rw [visitsOfAll, visitsOfAll, ih fun q hq => h q (List.mem_cons_of_mem _ hq)]
    refine congrArg (· ++ _) ?_
    cases step with
    | this | access | loop | entries => simp [visitsOf]
    | select | ref => rcases hstep with h | h <;> cases h

theorem Ty.visits_congr {ty : Ty} (h : ty.isPart = true) : ty.visits t kind = ty.visits s kind := by
  refine visitsOfAll_congr fun p hp => ?_
  obtain ⟨inner, hi, hb⟩ := offers_of_mem ty hp
  -- a part holds nothing but itself
  have hinner : inner = ty := by
    cases hi with
    | self => rfl
    | union _ _ | intersection _ _ => cases h
  subst hinner
  cases hb with
  | string _ => exact ⟨_, _, rfl, Or.inl rfl⟩
  | element _ | field _ _ | additional _ => exact ⟨_, _, rfl, Or.inr rfl⟩
  | reference => cases h

/-- The names that a section registers may be followed, if they are declared. -/
def Section.FollowedBy (t : Section) (types : String → Option Ty) (names : List String) : Prop :=
  ∀ name ty, types name = some ty → Member.lookup name t ≠ none → name ∈ names

theorem Section.FollowedBy.without (h : t.FollowedBy types names) (name : String) :
    (t.without name).FollowedBy types (names.filter (· ≠ name)) := by
  intro other ty ht hl
  have hne : other ≠ name := by
    rintro rfl
    exact hl (lookup_without_self t other)
  rw [lookup_without_of_ne hne] at hl
  exact List.mem_filter.mpr ⟨h other ty ht hl, by simpa using hne⟩

mutual

/-- **The visits of a type** are among those of its parts. -/
theorem sublist_parts (hs : s.DerivedFrom types kind) {t : Section} {names : List String}
    (ht : t.Within s) (hn : t.FollowedBy types names) : ∀ ty : Ty,
      (ty.visits t kind).Sublist ((ty.parts types names).flatMap (Ty.visits s kind))
  | .union members _ | .intersection members => by
    rw [Ty.parts, Ty.visits, Ty.programs]
    have hd := visitsOfAll_sublist (s := t) (distinct_sublist (Ty.memberPrograms kind members))
    rw [visitsOfAll_memberPrograms] at hd
    exact hd.trans (sublist_partsAll hs ht hn members)
  | .reference name => by
    rw [Ty.visits, Ty.programs, visitsOfAll_singleton, visitsOf]
    split
    · next programs hl =>
      have hp : programs = ((types name).map (Ty.programs kind)).getD [] := by
        rw [← hs name, Section.programs_of_lookup (ht _ _ hl)]
      cases htype : types name with
      | none =>
        rw [hp, htype, Option.map_none, Option.getD_none, visitsOfAll]
        exact List.nil_sublist _
      | some ty =>
        have hmem : name ∈ names := hn name ty htype (by rw [hl]; exact Option.some_ne_none _)
        rw [hp, htype, Option.map_some, Option.getD_some, Ty.parts, if_pos hmem, htype]
        exact sublist_parts hs (Section.within_without ht name) (hn.without name) ty
    · exact List.nil_sublist _
  | .scalar _ _ | .array _ | .object _ _ | .enumeration _ | .literal _ => by
    rw [Ty.parts, List.flatMap_singleton, Ty.visits_congr (s := s) (t := t) rfl]
termination_by ty => (names.length, sizeOf ty)
decreasing_by
  · exact Prod.Lex.right _ (by simp +arith)
  · exact Prod.Lex.right _ (by simp +arith)
  · exact Prod.Lex.left _ _ (List.length_filter_lt_length_iff_exists.mpr ⟨name, hmem, by simp⟩)

theorem sublist_partsAll (hs : s.DerivedFrom types kind) {t : Section} {names : List String}
    (ht : t.Within s) (hn : t.FollowedBy types names) : ∀ tys : List Ty,
      (tys.flatMap (Ty.visits t kind)).Sublist
        ((Ty.partsAll types names tys).flatMap (Ty.visits s kind))
  | [] => List.nil_sublist _
  | ty :: tys => by
    rw [List.flatMap_cons, Ty.partsAll, List.flatMap_append]
    exact (sublist_parts hs ht hn ty).append (sublist_partsAll hs ht hn tys)
termination_by tys => (names.length, sizeOf tys)
decreasing_by
  all_goals exact Prod.Lex.right _ (by simp +arith)

end

mutual

theorem Ty.isPart_of_mem_parts {names : List String} {part : Ty} : ∀ ty : Ty,
    part ∈ ty.parts types names → part.isPart = true
  | .union members _, h | .intersection members, h => by
    rw [Ty.parts] at h
    exact Ty.isPart_of_mem_partsAll h
  | .reference name, h => by
    rw [Ty.parts] at h
    split_ifs at h with hmem
    · split at h
      · next ty _ => exact Ty.isPart_of_mem_parts ty h
      · cases h
    · cases h
  | .scalar _ _, h | .array _, h | .object _ _, h | .enumeration _, h | .literal _, h => by
    rw [Ty.parts] at h
    rw [List.mem_singleton.mp h]
    rfl
termination_by ty => (names.length, sizeOf ty)
decreasing_by
  · exact Prod.Lex.right _ (by simp +arith)
  · exact Prod.Lex.right _ (by simp +arith)
  · exact Prod.Lex.left _ _ (List.length_filter_lt_length_iff_exists.mpr ⟨name, hmem, by simp⟩)

theorem Ty.isPart_of_mem_partsAll {names : List String} {part : Ty} : ∀ {tys : List Ty},
    part ∈ Ty.partsAll types names tys → part.isPart = true
  | [], h => by
    rw [Ty.partsAll] at h
    cases h
  | ty :: tys, h => by
    rw [Ty.partsAll] at h
    rcases List.mem_append.mp h with h | h
    · exact Ty.isPart_of_mem_parts ty h
    · exact Ty.isPart_of_mem_partsAll h
termination_by tys => (names.length, sizeOf tys)
decreasing_by
  all_goals exact Prod.Lex.right _ (by simp +arith)

end

/-! ### Below a part -/

section Below

variable {step : Step} {visit : Program → Visit} {next : Visit → List Visit} {ps : List Program}

/-- Below the step that programs are put behind, the visits are those of the programs. -/
theorem flatMap_behind (hv : ∀ rest, visitsOf t (step :: rest) = [visit rest])
    (hn : ∀ rest, next (visit rest) = visitsOf s rest) :
    (visitsOfAll t (behind step ps)).flatMap next = visitsOfAll s ps := by
  unfold behind
  split
  · simp [visitsOfAll]
  · rw [visitsOfAll_singleton, visitsOfAll_singleton, hv, List.flatMap_singleton, hn]
  · rw [visitsOfAll_singleton, hv, List.flatMap_singleton, hn, visitsOf]

/-- Nothing is visited below another step. -/
theorem flatMap_behind_nil (hv : ∀ rest, visitsOf t (step :: rest) = [visit rest])
    (hn : ∀ rest, next (visit rest) = []) :
    (visitsOfAll t (behind step ps)).flatMap next = [] := by
  unfold behind
  split
  · simp [visitsOfAll]
  · rw [visitsOfAll_singleton, hv, List.flatMap_singleton, hn]
  · rw [visitsOfAll_singleton, hv, List.flatMap_singleton, hn]

end Below

/-- The visits of fields go on below a member with the types of the fields of its name. -/
theorem flatMap_fieldPrograms (s : Section) (kind : Kind) (place : Place) (fields : List (FieldOf Ty)) :
    (visitsOfAll s (Ty.fieldPrograms kind fields)).flatMap (Visit.below s place) =
      ((Ty.object fields none).childrenAt place).flatMap (Ty.visits s kind) := by
  induction fields with
  | nil => cases place <;> simp [Ty.fieldPrograms, visitsOfAll, Ty.childrenAt]
  | cons field fields ih =>
    obtain ⟨_, wireName, ty, _, _, _⟩ := field
    have hv (rest : Program) : visitsOf s (.access wireName :: rest) = [.field wireName rest] := by
      rw [visitsOf]
    rw [Ty.fieldPrograms, visitsOfAll_append, List.flatMap_append, ih]
    cases place with
    | item _ =>
      rw [flatMap_behind_nil hv (fun _ => rfl)]
      rfl
    | member _ name =>
      by_cases hn : wireName = name
      · subst hn
        rw [flatMap_behind (s := s) hv fun _ => by rw [Visit.below, if_pos rfl]]
        simp [Ty.childrenAt, Ty.visits]
      · rw [flatMap_behind_nil hv fun _ => by rw [Visit.below, if_neg (Ne.symm hn)]]
        simp [Ty.childrenAt, hn]

/-- **Below a part**, the visits are those of the types there. -/
theorem visits_below (s : Section) (kind : Kind) (place : Place) : ∀ {part : Ty}, part.isPart = true →
    (part.visits s kind).flatMap (Visit.below s place) =
      (part.childrenAt place).flatMap (Ty.visits s kind)
  | .scalar .string (some format), _ => by
    rw [Ty.visits, Ty.programs]
    split_ifs <;> simp [visitsOfAll, visitsOf, Visit.below, Ty.childrenAt]
  | .scalar .string none, _ | .scalar .number _, _ | .scalar .integer _, _ | .scalar .boolean _, _
  | .scalar .null _, _ | .scalar .any _, _ | .enumeration _, _ | .literal _, _ => by
    simp [Ty.visits, Ty.programs, visitsOfAll, Ty.childrenAt]
  | .array element, _ => by
    have hv (rest : Program) : visitsOf s (.loop :: rest) = [.items rest] := by rw [visitsOf]
    rw [Ty.visits, Ty.programs]
    cases place with
    | item _ =>
      rw [flatMap_behind (s := s) hv fun _ => rfl]
      simp [Ty.childrenAt, Ty.visits]
    | member _ _ =>
      rw [flatMap_behind_nil hv fun _ => rfl]
      rfl
  | .object fields none, _ => by
    rw [Ty.visits, Ty.programs, List.append_nil]
    exact flatMap_fieldPrograms s kind place fields
  | .object fields (some ty), _ => by
    have hv (rest : Program) : visitsOf s (.entries :: rest) = [.members rest] := by rw [visitsOf]
    rw [Ty.visits, Ty.programs, visitsOfAll_append, List.flatMap_append, flatMap_fieldPrograms]
    cases place with
    | item _ =>
      rw [flatMap_behind_nil hv fun _ => rfl]
      rfl
    | member _ _ =>
      rw [flatMap_behind (s := s) hv fun _ => rfl]
      simp [Ty.childrenAt, Ty.visits]

/-- A part makes as many conversions as it is one itself. -/
theorem countP_visits (s : Section) (kind : Kind) {part : Ty} (h : part.isPart = true) :
    (part.visits s kind).countP Visit.converts = [part].countP (Ty.converts kind) := by
  -- the programs of a part begin with its own step
  have hbegins (visit : Visit) (hv : visit ∈ part.visits s kind) :
      ∃ program, Begins kind part program ∧ visit ∈ visitsOf s program := by
    obtain ⟨program, hp, hv⟩ := mem_visitsOfAll.mp hv
    obtain ⟨inner, hi, hb⟩ := offers_of_mem part hp
    cases hi with
    | self => exact ⟨program, hb, hv⟩
    | union _ _ | intersection _ _ => cases h
  cases hc : part.converts kind with
  | true =>
    obtain ⟨format, rfl, hf⟩ : ∃ format, part = .scalar .string (some format) ∧
        Kind.ofFormat? format = some kind := by
      unfold Ty.converts at hc
      split at hc
      · next format => exact ⟨format, rfl, Kind.mem_formats_iff.mp (by simpa using hc)⟩
      · cases hc
    simp [Ty.visits, Ty.programs, hf, visitsOfAll, visitsOf, Visit.converts, hc]
  | false =>
    have hnone (visit : Visit) (hv : visit ∈ part.visits s kind) : ¬ visit.converts = true := by
      obtain ⟨program, hb, hv⟩ := hbegins visit hv
      cases hb with
      | string hf =>
        simp [Ty.converts, hf] at hc
      | element _ | field _ _ | additional _ =>
        rw [visitsOf, List.mem_singleton] at hv
        rw [hv]
        exact Bool.false_ne_true
      | reference => cases h
    rw [List.countP_eq_zero.mpr hnone]
    simp [hc]

theorem countP_flatMap_visits (s : Section) (kind : Kind) : ∀ {parts : List Ty},
    (∀ part ∈ parts, part.isPart = true) →
      (parts.flatMap (Ty.visits s kind)).countP Visit.converts = parts.countP (Ty.converts kind)
  | [], _ => rfl
  | part :: parts, h => by
    rw [List.flatMap_cons, List.countP_append, countP_visits s kind (h part List.mem_cons_self),
      countP_flatMap_visits s kind fun other ho => h other (List.mem_cons_of_mem _ ho),
      ← List.countP_append, List.singleton_append]

/-! ### The programs of a type -/

/-- **The visits of types** lead to a slot in no more ways than the types do. -/
theorem ways_visits_le (hs : s.DerivedFrom types kind) (hn : s.FollowedBy types names) :
    ∀ (path : List Place) (tys : List Ty),
      s.ways path (tys.flatMap (Ty.visits s kind)) ≤ Ty.ways types names kind path tys
  | [], tys => by
    have hpart (part : Ty) (h : part ∈ Ty.partsAll types names tys) := Ty.isPart_of_mem_partsAll h
    calc
      _ ≤ s.ways [] ((Ty.partsAll types names tys).flatMap (Ty.visits s kind)) :=
          Section.ways_le_of_sublist (sublist_partsAll hs s.within_refl hn tys) []
      _ = _ := by rw [Section.ways, countP_flatMap_visits s kind hpart, Ty.ways]
  | place :: path, tys => by
    have hbelow : ((Ty.partsAll types names tys).flatMap (Ty.visits s kind)).flatMap
        (Visit.below s place) =
          ((Ty.partsAll types names tys).flatMap (Ty.childrenAt place)).flatMap
            (Ty.visits s kind) := by
      rw [List.flatMap_assoc, List.flatMap_assoc]
      exact List.flatMap_congr fun part h => visits_below s kind place (Ty.isPart_of_mem_partsAll h)
    calc
      _ ≤ s.ways (place :: path) ((Ty.partsAll types names tys).flatMap (Ty.visits s kind)) :=
          Section.ways_le_of_sublist (sublist_partsAll hs s.within_refl hn tys) _
      _ = s.ways path (((Ty.partsAll types names tys).flatMap (Ty.childrenAt place)).flatMap
            (Ty.visits s kind)) := by rw [Section.ways, hbelow]
      _ ≤ _ := ways_visits_le hs hn path _

/-- The programs of a type lead to a slot in no more ways than the type does. -/
theorem programWays_le (hs : s.DerivedFrom types kind) (hn : s.FollowedBy types names) (ty : Ty)
    (path : List Place) :
    s.programWays (ty.programs kind) path ≤ Ty.ways types names kind path [ty] := by
  have h := ways_visits_le hs hn path [ty]
  rwa [List.flatMap_singleton] at h

end ApiDecl
