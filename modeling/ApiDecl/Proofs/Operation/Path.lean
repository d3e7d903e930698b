import ApiDecl.Operation.Path
import Mathlib.Data.List.Chain

/-!
# Paths cut and put together

A path is cut behind its first parameter and what is left is cut in the same way, until no brace that
opens is closed later (`Cuts`).  `pathParts` does so in any path (`cuts_pathParts`), although it reads
the path once and never goes back.

The parts of such a cut, put together, are the path (`Cuts.join_eq`); a parameter's name ends at the
first brace that closes (`Cuts.not_mem_of_param`), and static parts are as long as they can be
(`Cuts.isChain`) without hiding a parameter (`Cuts.of_static`).
-/

namespace ApiDecl

/-- Some brace that opens is closed later. -/
def HasParameter (text : List Char) : Prop := ['\x7b', '\x7d'].Sublist text

/-- Text that stands for itself, if there is any. -/
def staticParts (text : List Char) : List PathPart :=
  if text.isEmpty then [] else [.static (String.ofList text)]

/-- A path is cut into parts, one parameter after the other. -/
inductive Cuts : List Char → List PathPart → Prop
  | last {text : List Char} : ¬ HasParameter text → Cuts text (staticParts text)
  | parameter {before name rest : List Char} {parts : List PathPart} :
      '\x7b' ∉ before → '\x7d' ∉ name → Cuts rest parts →
        Cuts (before ++ '\x7b' :: (name ++ '\x7d' :: rest))
          (staticParts before ++ .param (String.ofList name) :: parts)

/-- Two parts are not both static. -/
def PathPart.Apart (part next : PathPart) : Prop := ∀ a b, part = .static a → next ≠ .static b

variable {text before name : List Char} {parts : List PathPart}

/-! ### Texts without a parameter -/

theorem not_hasParameter_of_not_mem (h : '\x7b' ∉ text) : ¬ HasParameter text := fun hp =>
  h (hp.subset List.mem_cons_self)

/-- A brace that opens and is not closed makes no parameter. -/
theorem not_hasParameter_append (hb : '\x7b' ∉ before) (hn : '\x7d' ∉ name) :
    ¬ HasParameter (before ++ '\x7b' :: name) := by
  induction before with
  | nil =>
    intro h
    rw [HasParameter, List.nil_append, List.cons_sublist_cons] at h
    exact hn (h.subset List.mem_cons_self)
  | cons c before ih =>
    rw [List.mem_cons, not_or] at hb
    intro h
    rw [HasParameter, List.cons_append, List.cons_sublist_cons'] at h
    rcases h with h | ⟨hc, -⟩
    · exact ih hb.2 h
    · exact hb.1 hc

/-! ### One pass over the path -/

theorem staticPart_eq (fixed : List Char) (parts : List PathPart) :
    staticPart fixed parts = staticParts fixed.reverse ++ parts := by
  cases fixed with
  | nil => rfl
  | cons c rest => simp [staticPart, staticParts]

/-- What is under way, with the rest of the path, is cut. -/
-- The static text under way has no brace that opens and the name none that closes, so the first
-- brace that closes behind them makes the first parameter.
theorem cuts_cutPath : ∀ (rest : List Char) {fixed : List Char}, '\x7b' ∉ fixed →
    Cuts (fixed.reverse ++ rest) (cutPath fixed none rest) ∧
    ∀ {name : List Char}, '\x7d' ∉ name →
      Cuts (fixed.reverse ++ '\x7b' :: (name.reverse ++ rest)) (cutPath fixed (some name) rest)
  | [], fixed, hf => by
    constructor
    · rw [cutPath, staticPart_eq, List.append_nil, List.append_nil]
      exact .last (not_hasParameter_of_not_mem (List.mem_reverse.not.mpr hf))
    · intro name hn
      have hcut := Cuts.last (not_hasParameter_append (List.mem_reverse.not.mpr hf)
        (List.mem_reverse.not.mpr hn))
      simpa [cutPath, staticPart_eq] using hcut
  | c :: rest, fixed, hf => by
    constructor
    · rw [cutPath]
      split_ifs with hc
      · subst hc
        exact (cuts_cutPath rest hf).2 List.not_mem_nil
      · have hcut := (cuts_cutPath rest
          (List.not_mem_cons_of_ne_of_not_mem (Ne.symm hc) hf)).1
        simpa using hcut
    · intro name hn
      rw [cutPath]
      split_ifs with hc
      · subst hc
        rw [staticPart_eq]
        exact .parameter (List.mem_reverse.not.mpr hf) (List.mem_reverse.not.mpr hn)
          (cuts_cutPath rest List.not_mem_nil).1
      · have hcut := (cuts_cutPath rest hf).2
          (List.not_mem_cons_of_ne_of_not_mem (Ne.symm hc) hn)
        simpa using hcut

/-- **The parts of a path** are those that one parameter after the other leaves. -/
theorem cuts_pathParts (path : String) : Cuts path.toList (pathParts path) :=
  (cuts_cutPath path.toList List.not_mem_nil).1

/-! ### The parts of a cut -/

theorem join_staticParts (text : List Char) :
    String.join ((staticParts text).map PathPart.text) = String.ofList text := by
  cases text with
  | nil => rfl
  | cons c rest => simp [staticParts, PathPart.text]

theorem mem_staticParts {part : PathPart} : part ∈ staticParts text ↔
    text ≠ [] ∧ part = .static (String.ofList text) := by
  cases text with
  | nil => simp [staticParts]
  | cons c rest => simp [staticParts]

theorem of_mem_staticParts {value : String} (h : ¬ HasParameter text)
    (hs : .static value ∈ staticParts text) : value ≠ "" ∧ ¬ HasParameter value.toList := by
  obtain ⟨hne, he⟩ := mem_staticParts.mp hs
  obtain rfl := PathPart.static.inj he
  refine ⟨fun hv => hne (String.ofList_eq_empty_iff.mp hv), ?_⟩
  rwa [String.toList_ofList]

namespace Cuts

/-- The parts put together are the text. -/
theorem join_eq (h : Cuts text parts) :
    String.join (parts.map PathPart.text) = String.ofList text := by
  induction h with
  | last h => exact join_staticParts _
  | @parameter before name rest parts hb hn h ih =>
    rw [List.map_append, List.map_cons, String.join_append, join_staticParts, String.join_cons, ih]
    refine String.toList_inj.mp ?_
    simp [PathPart.text]

theorem not_mem_of_param {param : String} (h : Cuts text parts) (hp : .param param ∈ parts) :
    '\x7d' ∉ param.toList := by
  induction h with
  | last h => cases (mem_staticParts.mp hp).2
  | parameter hb hn h ih =>
    rcases List.mem_append.mp hp with hp | hp
    · cases (mem_staticParts.mp hp).2
    · rcases List.mem_cons.mp hp with hp | hp
      · obtain rfl := PathPart.param.inj hp
        rwa [String.toList_ofList]
      · exact ih hp

/-- A static part is not empty, and no parameter is hidden in it. -/
theorem of_static {value : String} (h : Cuts text parts) (hs : .static value ∈ parts) :
    value ≠ "" ∧ ¬ HasParameter value.toList := by
  induction h with
  | last h => exact of_mem_staticParts h hs
  | parameter hb hn h ih =>
    rcases List.mem_append.mp hs with hs | hs
    · exact of_mem_staticParts (not_hasParameter_of_not_mem hb) hs
    · rcases List.mem_cons.mp hs with hs | hs
      · cases hs
      · exact ih hs

/-- Two static parts never stand side by side. -/
theorem isChain (h : Cuts text parts) : parts.IsChain PathPart.Apart := by
  induction h with
  | @last text h =>
    cases text with
    | nil => exact .nil
    | cons c rest => exact .singleton _
  | @parameter before name rest parts hb hn h ih =>
    have htail : (PathPart.param (String.ofList name) :: parts).IsChain PathPart.Apart :=
      ih.cons fun _ _ _ _ hp => by cases hp
    cases before with
    | nil => exact htail
    | cons c before => exact htail.cons_cons fun _ _ _ hnext => by cases hnext

end Cuts

/-- **A path loses nothing** when it is cut: the parts give it back, names end where a brace closes,
and what is static is not empty, not in two pieces and hides no parameter. -/
theorem pathParts_lossless (path : String) :
    Cuts path.toList (pathParts path) ∧
    String.join ((pathParts path).map PathPart.text) = path ∧
    (∀ name, .param name ∈ pathParts path → '\x7d' ∉ name.toList) ∧
    (∀ text, .static text ∈ pathParts path → text ≠ "" ∧ ¬ HasParameter text.toList) ∧
    (pathParts path).IsChain PathPart.Apart := by
  have h := cuts_pathParts path
  refine ⟨h, ?_, fun _ hp => h.not_mem_of_param hp, fun _ hs => h.of_static hs, h.isChain⟩
  rw [h.join_eq, String.ofList_toList]

/-- A brace that closes first and one that is never closed stand for themselves. -/
example : pathParts "\x7d\x7ba\x7bb\x7d/c\x7b" =
    [.static "\x7d", .param "a\x7bb", .static "/c\x7b"] := by rfl

end ApiDecl
