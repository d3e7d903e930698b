import ApiDecl.Description.Component
import ApiDecl.Proofs.Text.Pointer

/-!
# Components found by their pointers

The pointer of a component is taken apart into the pool and the escaped name
(`splitPointer_pointer`).  So a component is found by its own pointer just if its name is read back
from the escaped form and is not empty (`find_pointer_iff`).

A name with an octet in `%` form is read as another name: its pointer leads to the component of that
name, or to none (`find_pointer_octet`).
-/

namespace ApiDecl

theorem afterFront_append (front text : List Char) :
    afterFront front (front ++ text) = some text := by
  induction front with
  | nil => cases text <;> rfl
  | cons c front ih => rw [List.cons_append, afterFront, if_pos rfl, ih]

theorem atSlash_append {front : List Char} (h : '/' ∉ front) (text : List Char) :
    atSlash (front ++ '/' :: text) = some (front, text) := by
  induction front with
  | nil => rfl
  | cons c front ih =>
    rw [List.mem_cons, not_or] at h
    rw [List.cons_append, atSlash, if_neg (Ne.symm h.1), ih h.2]
    rfl

namespace Pool

theorem slash_not_mem_segment (pool : Pool) : '/' ∉ pool.segment.toList := by
  cases pool <;> decide

theorem decodeSegment_segment (pool : Pool) :
    String.ofList (Pointer.decodeSegment pool.segment.toList) = pool.segment := by
  cases pool <;> rfl

theorem toList_pointer (pool : Pool) (name : String) : (pool.pointer name).toList =
    root.toList ++ (pool.segment.toList ++ '/' :: Pointer.escape name.toList) := by
  simp [pointer]

/-- The pointer of a component is that of its pool and of the name read back. -/
theorem splitPointer_pointer (pool : Pool) (name : String) :
    splitPointer (pool.pointer name) = if name = "" then none else
      some (pool.segment,
        String.ofList (Pointer.decodeSegment (Pointer.escape name.toList))) := by
  have hslash : (Pointer.escape name.toList).contains '/' = false := by
    simpa using Pointer.slash_not_mem_escape name.toList
  have hempty : (Pointer.escape name.toList).isEmpty = true ↔ name = "" := by
    rw [List.isEmpty_iff, Pointer.escape_eq_nil, String.toList_eq_nil_iff]
  unfold splitPointer
  rw [toList_pointer, afterFront_append, Option.bind_eq_bind, Option.bind_some,
    atSlash_append pool.slash_not_mem_segment]
  simp only [Option.bind_eq_bind, Option.bind_some, hslash, Bool.or_false, hempty,
    decodeSegment_segment]

variable {α : Type} {pool : Pool} {definitions : List (String × α)} {pointer name : String}
  {definition : α}

/-- What a pointer leads to is what its name is looked up to. -/
theorem find_eq_ok : pool.find definitions pointer = .ok (name, definition) ↔
    splitPointer pointer = some (pool.segment, name) ∧
      Member.lookup name definitions = some definition := by
  unfold find
  cases splitPointer pointer with
  | none => simp
  | some split =>
    obtain ⟨home, found⟩ := split
    dsimp only
    rw [Option.some.injEq, Prod.mk.injEq]
    split_ifs with hhome
    · constructor
      · intro h
        split at h
        · next hl =>
          cases h
          exact ⟨⟨hhome, rfl⟩, hl⟩
        · cases h
      · rintro ⟨⟨-, rfl⟩, hl⟩
        rw [hl]
    · refine ⟨fun h => ?_, fun h => absurd h.1.1 hhome⟩
      cases h

theorem lookup_of_find (h : pool.find definitions pointer = .ok (name, definition)) :
    Member.lookup name definitions = some definition :=
  (find_eq_ok.mp h).2

/-- **A component** of a pool is found by its own pointer just if its name is not empty and has no
octets in `%` form, unless those are not UTF-8. -/
theorem find_pointer_iff (h : Member.lookup name definitions = some definition) :
    pool.find definitions (pool.pointer name) = .ok (name, definition) ↔
      name ≠ "" ∧ (Pointer.hasOctet name.toList = true →
        Pointer.percentDecode [] name.toList = none) := by
  rw [← Pointer.decodeSegment_escape_iff, find, splitPointer_pointer]
  by_cases hname : name = ""
  · simp [hname]
  rw [if_neg hname]
  simp only [if_true]
  constructor
  · intro hfound
    refine ⟨hname, ?_⟩
    split at hfound
    · have hread := (Prod.mk.inj (Except.ok.inj hfound)).1
      rw [← String.toList_inj, String.toList_ofList] at hread
      exact hread
    · cases hfound
  · rintro ⟨-, hread⟩
    rw [hread, String.ofList_toList, h]

/-- A name with both escapes, and with a `%` that no digits follow, is read back. -/
theorem find_pointer_iff_slash :
    Member.lookup "a/b~1%" [("a/b~1%", 1)] = some 1 ∧
      schema.find [("a/b~1%", 1)] (schema.pointer "a/b~1%") = .ok ("a/b~1%", 1) :=
  have hlookup : Member.lookup "a/b~1%" [("a/b~1%", 1)] = some 1 := by decide
  ⟨hlookup, (find_pointer_iff hlookup).mpr ⟨by decide, by decide⟩⟩

/-- The pointer of a name with an octet in `%` form leads to another component, or to none. -/
theorem find_pointer_octet :
    Member.lookup "%41" [("%41", 1), ("A", 2)] = some 1 ∧
      schema.find [("%41", 1), ("A", 2)] (schema.pointer "%41") = .ok ("A", 2) ∧
      schema.find [("%41", 1)] (schema.pointer "%41") =
        .error (.unresolved "#/components/schemas/%41") :=
  ⟨by decide, by rfl, by rfl⟩

end Pool

end ApiDecl
