import ApiDecl.Proofs.Types.Contents
import ApiDecl.Proofs.Types.Enumerations
import ApiDecl.Proofs.Types.Walk

/-!
# The form of the programs of a type

A program in normal form goes down to a step that ends it, and where that is a choice, it is one
between at least two programs in normal form, all different (`Program.Normal`).  The programs of a
type are so, and there are no two the same (`allNormal_programs`): what stands behind a step is kept
in the form by `behind` (`AllNormal.behind`), the programs of different fields begin with different
steps, and those of several types at one slot are made distinct.

Since programs that are distinct stay as they are when they are made distinct, a type has the same
programs as the type that is also null (`programs_normal`).
-/

namespace ApiDecl

variable {kind : Kind} {ps qs : List Program} {program : Program} {step : Step}

/-! ### The form -/

/-- A program ends in `this`, in a `ref`, or in a choice between several such programs, all
different; every step before the last descends. -/
inductive Program.Normal : Program → Prop
  | this : Normal [.this]
  | ref {name : String} : Normal [.ref name]
  | select {arms : List Program} : 2 ≤ arms.length → arms.Nodup → (∀ arm ∈ arms, Normal arm) →
      Normal [.select arms]
  | descend {step : Step} {rest : Program} : step.descends = true → Normal rest →
      Normal (step :: rest)

/-- A last step is `this`, a `ref`, or a choice between several different programs in the form. -/
def Step.Ends : Step → Prop
  | .this | .ref _ => True
  | .select arms => 2 ≤ arms.length ∧ arms.Nodup ∧ ∀ arm ∈ arms, Program.Normal arm
  | .access _ | .loop | .entries => False

/-- The programs are in the form, and there are no two the same. -/
structure AllNormal (ps : List Program) : Prop where
  normal : ∀ program ∈ ps, program.Normal
  nodup : ps.Nodup

namespace Program.Normal

theorem ne_nil (h : program.Normal) : program ≠ [] := by
  cases h <;> exact List.cons_ne_nil _ _

/-- Steps that descend lead to one that ends the program. -/
theorem exists_front (h : program.Normal) : ∃ front last, program = front ++ [last] ∧
    (∀ step ∈ front, step.descends = true) ∧ last.Ends := by
  induction h with
  | this | ref => exact ⟨[], _, rfl, by simp, trivial⟩
  | select hlen hd harms => exact ⟨[], _, rfl, by simp, hlen, hd, harms⟩
  | @descend step rest hs _ ih =>
    obtain ⟨front, last, rfl, hfront, hlast⟩ := ih
    exact ⟨step :: front, last, rfl, List.forall_mem_cons.mpr ⟨hs, hfront⟩, hlast⟩

end Program.Normal

/-! ### Programs made distinct -/

section Distinct

variable {α : Type} [DecidableEq α] {l : List α}

theorem nodup_distinct (l : List α) : (distinct l).Nodup := by
  have heq : Equivalence fun x y : α => decide (x = y) = true := by
    simpa only [decide_eq_true_iff] using eq_equivalence
  exact (firstOccurrences_distinctBy heq l).once.imp of_decide_eq_false

/-- Distinct elements stay as they are. -/
theorem distinct_of_nodup (h : l.Nodup) : distinct l = l := by
  induction l using List.reverseRecOn with
  | nil => rfl
  | append_singleton l x ih =>
    obtain ⟨hl, -, hx⟩ := List.nodup_append.mp h
    have hnot : ¬ (distinct l).any (fun y => decide (y = x)) = true := by
      simpa [mem_distinct] using fun hm => hx x hm x List.mem_cons_self rfl
    rw [distinct, distinctBy_concat, ← distinct, if_neg hnot, ih hl]

end Distinct

namespace AllNormal

theorem nil : AllNormal [] := ⟨by simp, .nil⟩

theorem singleton (h : program.Normal) : AllNormal [program] :=
  ⟨List.forall_mem_singleton.mpr h, List.nodup_singleton _⟩

/-- **Programs behind a step** that descends are in the form if they were so before. -/
theorem behind (hs : step.descends = true) (h : AllNormal ps) : AllNormal (behind step ps) := by
  match ps, h with
  | [], _ => exact nil
  | [program], h => exact singleton (.descend hs (h.normal program List.mem_cons_self))
  | first :: second :: rest, h =>
    refine singleton (.descend hs (.select ?_ h.nodup h.normal))
    simp

/-- Programs that begin in different ways do not meet. -/
theorem append (h : AllNormal ps) (h' : AllNormal qs) (hne : ∀ p ∈ ps, ∀ q ∈ qs, p ≠ q) :
    AllNormal (ps ++ qs) where
  normal := List.forall_mem_append.mpr ⟨h.normal, h'.normal⟩
  nodup := List.nodup_append.mpr ⟨h.nodup, h'.nodup, hne⟩

theorem distinct (h : ∀ program ∈ ps, program.Normal) : AllNormal (distinct ps) where
  normal program hp := h program (mem_distinct.mp hp)
  nodup := nodup_distinct ps

end AllNormal

/-! ### The programs of a type -/

namespace Ty

/-- The fields of an object have different wire names. -/
def DistinctWireNames : Ty → Prop
  | .object fields _ => (fields.map FieldOf.wireName).Nodup
  | _ => True

mutual

/-- The programs of a type are in the form, where each object has different wire names. -/
theorem allNormal_programs (kind : Kind) :
    ∀ ty : Ty, ty.Each DistinctWireNames → AllNormal (ty.programs kind)
  | .scalar .string (some format), _ => by
    rw [programs]
    split_ifs
    · exact .singleton .this
    · exact .nil
  | .scalar .string none, _ | .scalar .number _, _ | .scalar .integer _, _ | .scalar .boolean _, _
  | .scalar .null _, _ | .scalar .any _, _ => by
    rw [programs]
    · exact .nil
    · simp
  | .enumeration _, _ | .literal _, _ => by rw [programs]; exact .nil
  | .reference _, _ => by rw [programs]; exact .singleton .ref
  | .array element, h => by
    rw [programs]
    exact (allNormal_programs kind element (each_array.mp h).2).behind rfl
  | .object fields none, h => by
    obtain ⟨hd, hfields, -⟩ := each_object.mp h
    rw [programs, List.append_nil]
    exact allNormal_fieldPrograms kind fields hfields hd
  | .object fields (some ty), h => by
    obtain ⟨hd, hfields, hadditional⟩ := each_object.mp h
    rw [programs]
    refine (allNormal_fieldPrograms kind fields hfields hd).append
      ((allNormal_programs kind ty (hadditional ty rfl)).behind rfl) fun p hp q hq => ?_
    obtain ⟨field, -, hp⟩ := mem_fieldPrograms.mp hp
    obtain ⟨rest, rfl, -⟩ := mem_behind hp
    obtain ⟨rest', rfl, -⟩ := mem_behind hq
    simp
  | .union members _, h => by
    rw [programs]
    exact .distinct (normal_memberPrograms kind members (each_union.mp h).2)
  | .intersection members, h => by
    rw [programs]
    exact .distinct (normal_memberPrograms kind members (each_intersection.mp h).2)

theorem allNormal_fieldPrograms (kind : Kind) :
    ∀ fields : List (FieldOf Ty), (∀ field ∈ fields, field.ty.Each DistinctWireNames) →
      (fields.map FieldOf.wireName).Nodup → AllNormal (fieldPrograms kind fields)
  | [], _, _ => by rw [fieldPrograms]; exact .nil
  | ⟨_, wireName, ty, _, _, _⟩ :: fields, h, hd => by
    obtain ⟨hty, hrest⟩ := List.forall_mem_cons.mp h
    obtain ⟨hnew, hd⟩ := List.nodup_cons.mp hd
    rw [fieldPrograms]
    refine ((allNormal_programs kind ty hty).behind rfl).append
      (allNormal_fieldPrograms kind fields hrest hd) fun p hp q hq => ?_
    obtain ⟨rest, rfl, -⟩ := mem_behind hp
    obtain ⟨field, hf, hq⟩ := mem_fieldPrograms.mp hq
    obtain ⟨rest', rfl, -⟩ := mem_behind hq
    -- the two fields have different wire names, and so the programs different first steps
    rintro ⟨⟩
    exact hnew (List.mem_map.mpr ⟨field, hf, rfl⟩)

theorem normal_memberPrograms (kind : Kind) :
    ∀ members : List Ty, (∀ member ∈ members, member.Each DistinctWireNames) →
      ∀ program ∈ memberPrograms kind members, program.Normal
  | [], _ => by simp [memberPrograms]
  | ty :: members, h => by
    obtain ⟨hty, hrest⟩ := List.forall_mem_cons.mp h
    rw [memberPrograms]
    exact List.forall_mem_append.mpr
      ⟨(allNormal_programs kind ty hty).normal, normal_memberPrograms kind members hrest⟩

end

/-- Null has no programs. -/
theorem memberPrograms_concat_null (kind : Kind) (members : List Ty) :
    memberPrograms kind (members ++ [null]) = memberPrograms kind members := by
  induction members with
  | nil => simp [memberPrograms, null, programs]
  | cons ty members ih => rw [List.cons_append, memberPrograms, memberPrograms, ih]

/-- A type that is also null has the same programs, unless some of them were the same. -/
theorem programs_nullable {ty : Ty} (hd : (ty.programs kind).Nodup) :
    ty.nullable.programs kind = ty.programs kind := by
  have hunion (h : ty.nullable = unionOf [ty, null]) :
      ty.nullable.programs kind = ty.programs kind := by
    rw [h, unionOf, programs, show [ty, null] = [ty] ++ [null] from rfl, memberPrograms_concat_null,
      memberPrograms, memberPrograms, List.append_nil, distinct_of_nodup hd]
  cases ty with
  | scalar scalar format => cases scalar <;> first | rfl | exact hunion rfl
  | union members discriminator =>
    rw [nullable, programs, programs]
    split_ifs
    · rfl
    · rw [memberPrograms_concat_null]
  | array | object | enumeration | literal | intersection | reference => exact hunion rfl

/-- **The programs of a type are in normal form**, where the fields of each object in it have
different wire names: each of them goes down to one last step, which is `this`, a `ref` or a choice
between at least two different programs in the form; no two programs are the same; and there are the
same programs for the type or null. -/
theorem programs_normal (kind : Kind) (ty : Ty) (h : ty.Each DistinctWireNames) :
    (∀ program ∈ ty.programs kind, program.Normal ∧ program ≠ [] ∧
      ∃ front last, program = front ++ [last] ∧ (∀ step ∈ front, step.descends = true) ∧
        last.Ends) ∧
      (ty.programs kind).Nodup ∧ ty.nullable.programs kind = ty.programs kind := by
  have hall := allNormal_programs kind ty h
  exact ⟨fun program hp => ⟨hall.normal program hp, (hall.normal program hp).ne_nil,
    (hall.normal program hp).exists_front⟩, hall.nodup, programs_nullable hall.nodup⟩

/-- An event: its time, whoever it is by, and notes. -/
def event : Ty :=
  .object [⟨"at", "at", .scalar .string (some "date-time"), true, none, false⟩,
    ⟨"by_", "by", .union [.reference "User", .array (.scalar .string (some "date")),
      .reference "User"] none, false, none, false⟩] (some (.reference "Note"))

theorem programs_normal_event :
    event.Each DistinctWireNames ∧
      (∀ program ∈ event.programs .date, program.Normal ∧ program ≠ [] ∧
        ∃ front last, program = front ++ [last] ∧ (∀ step ∈ front, step.descends = true) ∧
          last.Ends) ∧
      (event.programs .date).Nodup ∧ event.nullable.programs .date = event.programs .date ∧
      event.programs .date = [[.access "at", .this],
        [.access "by", .select [[.ref "User"], [.loop, .this]]], [.entries, .ref "Note"]] := by
  have hstring (format : String) : (scalar .string (some format)).Each DistinctWireNames :=
    each_scalar trivial
  have hname (name : String) : (reference name).Each DistinctWireNames := each_reference trivial
  have h : event.Each DistinctWireNames := by
    refine each_object.mpr ⟨by simp [DistinctWireNames], ?_, ?_⟩
    · simp [each_union, each_array, DistinctWireNames, hstring, hname]
    · rintro ty ⟨⟩
      exact hname _
  obtain ⟨hform, hd, hnull⟩ := programs_normal .date event h
  exact ⟨h, hform, hd, hnull, by decide⟩

end Ty

end ApiDecl
