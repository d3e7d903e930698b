import ApiDecl.Proofs.Text.Pointer

/-!
# Addresses

An address is made of a base by going from part to part (`child`), each segment in its escaped form
behind a slash.  The escaped form is that of two replacements one after the other
(`escape_eq_replaceChar`) and has no slash, so the slashes cut an address into the escaped segments
(`splitOn_segmentsText`), and each of them is read back.  So an address leads to one place only
(`addresses_unambiguous`).
-/

namespace ApiDecl.Pointer

/-! ### Two replacements -/

/-- The text with another text in the place of every occurrence of a character. -/
def replaceChar (c : Char) (other : List Char) (text : List Char) : List Char :=
  text.flatMap fun d => if d = c then other else [d]

/-- A segment is escaped by replacing its tildes first, then its slashes. -/
theorem escape_eq_replaceChar (segment : List Char) :
    escape segment = replaceChar '/' ['~', '1'] (replaceChar '~' ['~', '0'] segment) := by
  have hchar (c : Char) : escapeChar c =
      replaceChar '/' ['~', '1'] (if c = '~' then ['~', '0'] else [c]) := by
    rcases escapeChar_cases c with ⟨rfl, h⟩ | ⟨rfl, h⟩ | ⟨ht, hs, h⟩ <;> rw [h]
    · rfl
    · rfl
    · rw [if_neg ht]
      simp [replaceChar, hs]
  unfold escape replaceChar
  rw [List.flatMap_assoc]
  exact congrArg (segment.flatMap ·) (funext hchar)

theorem escape_injective : Function.Injective escape :=
  Function.LeftInverse.injective unescape_escape

/-! ### Segments behind slashes -/

/-- Segments in their escaped form, each behind a slash. -/
def segmentsText (segments : List String) : List Char :=
  segments.flatMap fun segment => '/' :: escape segment.toList

/-- An address is its base, and behind it the segments. -/
theorem toList_foldl_child (base : String) (segments : List String) :
    (segments.foldl child base).toList = base.toList ++ segmentsText segments := by
  induction segments generalizing base with
  | nil => simp [segmentsText]
  | cons segment rest ih =>
    rw [List.foldl_cons, ih]
    simp [child, segmentsText]

/-- Pieces behind slashes are the pieces joined by slashes, with an empty one in front. -/
theorem intercalate_nil_cons (pieces : List (List Char)) :
    ['/'].intercalate ([] :: pieces) = pieces.flatMap ('/' :: ·) := by
  induction pieces with
  | nil => rfl
  | cons piece rest ih =>
    rw [List.intercalate_cons_cons, List.flatMap_cons, ← ih]
    cases rest <;> simp

/-- The slashes cut the text into the escaped segments. -/
theorem splitOn_segmentsText (segments : List String) :
    (segmentsText segments).splitOn '/' = [] :: segments.map fun segment => escape segment.toList := by
  have hslash : ∀ piece ∈ [] :: segments.map fun segment => escape segment.toList, '/' ∉ piece := by
    intro piece hp
    rcases List.mem_cons.mp hp with rfl | hp
    · exact List.not_mem_nil
    · obtain ⟨segment, -, rfl⟩ := List.mem_map.mp hp
      exact slash_not_mem_escape _
  rw [← List.splitOn_intercalate '/' hslash (List.cons_ne_nil _ _), intercalate_nil_cons,
    List.flatMap_map]
  rfl

theorem segmentsText_injective : Function.Injective segmentsText := by
  intro segments segments' h
  have hsplit := congrArg (List.splitOn '/') h
  rw [splitOn_segmentsText, splitOn_segmentsText] at hsplit
  have hinj : Function.Injective fun segment : String => escape segment.toList :=
    escape_injective.comp fun _ _ => String.toList_inj.mp
  exact List.map_injective_iff.mpr hinj (List.cons.inj hsplit).2

/-- **An address leads to one place.**  Under one base, different segments make different addresses.
For every segment, the escaped form is that of the two replacements, has no slash, and is turned back
into the segment by undoing the slashes first and the tildes after them. -/
theorem addresses_unambiguous (base : String) :
    (Function.Injective fun segments : List String => segments.foldl child base) ∧
      ∀ segment : List Char,
        escape segment = replaceChar '/' ['~', '1'] (replaceChar '~' ['~', '0'] segment) ∧
        '/' ∉ escape segment ∧ unescapeTilde (unescapeSlash (escape segment)) = segment := by
  refine ⟨fun segments segments' h => ?_, fun segment =>
    ⟨escape_eq_replaceChar segment, slash_not_mem_escape segment, unescape_escape segment⟩⟩
  have htext := congrArg String.toList h
  rw [toList_foldl_child, toList_foldl_child] at htext
  exact segmentsText_injective (List.append_cancel_left htext)

/-- In the other order, a tilde and a digit that were a segment become a slash. -/
example : unescapeSlash (unescapeTilde (escape ['~', '1'])) = ['/'] := by decide

end ApiDecl.Pointer
