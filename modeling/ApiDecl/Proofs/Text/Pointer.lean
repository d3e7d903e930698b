import ApiDecl.Text.Pointer
import Mathlib.Data.List.Basic

/-!
# Segments read back

The escaped form of a segment has no slash (`slash_not_mem_escape`), and the segment comes back when
the escapes are undone (`unescape_escape`).

A segment of a reference may have octets in `%` form too, and those are read first.  The escaped
form leaves a `%` as it is.  So a segment that has such octets itself is not read back, unless they
are not UTF-8: it becomes shorter (`length_unescape_le`).  Every other segment is read back
(`decodeSegment_escape_iff`).

* `octet?`: the octet that a text starts with; what `percentDecode` does is said in terms of it
  (`percentDecode_of_octet`, `percentDecode_of_none`);
* `octetInduction`: texts taken apart as `percentDecode` does.
-/

namespace ApiDecl

/-! ### Octets and characters -/

namespace Utf8

theorem length_le_of_step {s s' : State} {octet : UInt8} (h : step s octet = some s') :
    s'.2.length ≤ s.2.length + 1 := by
  match s with
  | (none, done) =>
    simp only [step] at h
    split_ifs at h
    · cases h
      exact Nat.le_refl _
    · obtain ⟨under, -, rfl⟩ := Option.map_eq_some_iff.mp h
      exact Nat.le_succ _
  | (some under, done) =>
    simp only [step] at h
    split_ifs at h <;> cases h
    · exact Nat.le_refl _
    · exact Nat.le_succ _

theorem length_le_of_foldlM : ∀ {octets : List UInt8} {s s' : State},
    octets.foldlM step s = some s' → s'.2.length ≤ s.2.length + octets.length
  | [], s, s', h => by
    cases h
    exact Nat.le_refl _
  | octet :: rest, s, s', h => by
    obtain ⟨between, hstep, hrest⟩ := Option.bind_eq_some_iff.mp h
    have hfirst := length_le_of_step hstep
    have hlater := length_le_of_foldlM hrest
    rw [List.length_cons]
    omega

/-- No octet stands for more than one character. -/
theorem length_le_of_decode {octets : List UInt8} {chars : List Char}
    (h : decode octets = some chars) : chars.length ≤ octets.length := by
  unfold decode at h
  split at h
  · next done hfold =>
    cases h
    have := length_le_of_foldlM hfold
    simpa using this
  · cases h

end Utf8

namespace Pointer

/-! ### The two escapes -/

theorem escape_cons (c : Char) (rest : List Char) :
    escape (c :: rest) = escapeChar c ++ escape rest :=
  List.flatMap_cons

theorem escapeChar_cases (c : Char) :
    c = '~' ∧ escapeChar c = ['~', '0'] ∨ c = '/' ∧ escapeChar c = ['~', '1'] ∨
      c ≠ '~' ∧ c ≠ '/' ∧ escapeChar c = [c] := by
  unfold escapeChar
  by_cases ht : c = '~'
  · exact Or.inl ⟨ht, if_pos ht⟩
  · by_cases hs : c = '/'
    · exact Or.inr (Or.inl ⟨hs, by rw [if_neg ht, if_pos hs]⟩)
    · exact Or.inr (Or.inr ⟨ht, hs, by rw [if_neg ht, if_neg hs]⟩)

theorem unescapeSlash_cons {c : Char} (h : c ≠ '~') (rest : List Char) :
    unescapeSlash (c :: rest) = c :: unescapeSlash rest := by
  rw [unescapeSlash]
  rintro _ rfl -
  exact h rfl

theorem unescapeTilde_cons {c : Char} (h : c ≠ '~') (rest : List Char) :
    unescapeTilde (c :: rest) = c :: unescapeTilde rest := by
  rw [unescapeTilde]
  rintro _ rfl -
  exact h rfl

/-- The escape of a character is undone, whatever follows. -/
theorem unescape_escapeChar_append (c : Char) (rest : List Char) :
    unescape (escapeChar c ++ rest) = c :: unescape rest := by
  unfold unescape
  rcases escapeChar_cases c with ⟨rfl, h⟩ | ⟨rfl, h⟩ | ⟨ht, -, h⟩
  · rw [h, List.cons_append, List.singleton_append, unescapeSlash, unescapeSlash_cons (by decide),
      unescapeTilde]
    simp
  · rw [h, List.cons_append, List.singleton_append, unescapeSlash, unescapeTilde_cons (by decide)]
  · rw [h, List.singleton_append, unescapeSlash_cons ht, unescapeTilde_cons ht]

/-- **A segment** comes back from its escaped form. -/
theorem unescape_escape (segment : List Char) : unescape (escape segment) = segment := by
  induction segment with
  | nil => rfl
  | cons c rest ih => rw [escape_cons, unescape_escapeChar_append, ih]

theorem slash_not_mem_escape (segment : List Char) : '/' ∉ escape segment := by
  intro h
  obtain ⟨c, -, hc⟩ := List.mem_flatMap.mp h
  rcases escapeChar_cases c with ⟨-, he⟩ | ⟨-, he⟩ | ⟨-, hs, he⟩ <;> rw [he] at hc
  · simp at hc
  · simp at hc
  · exact hs (List.mem_singleton.mp hc).symm

theorem escape_eq_nil {segment : List Char} : escape segment = [] ↔ segment = [] := by
  constructor
  · intro h
    rw [← unescape_escape segment, h]
    rfl
  · rintro rfl
    rfl

theorem length_unescapeTilde_cons_le (c : Char) (rest : List Char) :
    (unescapeTilde (c :: rest)).length ≤ (unescapeTilde rest).length + 1 := by
  rw [unescapeTilde.eq_def]
  split
  · next heq => cases heq
  · next heq =>
    obtain ⟨-, rfl⟩ := List.cons.inj heq
    rw [unescapeTilde_cons (by decide)]
    simp
  · next heq =>
    obtain ⟨-, rfl⟩ := List.cons.inj heq
    simp

/-- A character more makes a text at most one character longer. -/
theorem length_unescape_cons_le (c : Char) (rest : List Char) :
    (unescape (c :: rest)).length ≤ (unescape rest).length + 1 := by
  unfold unescape
  rw [unescapeSlash.eq_def]
  split
  · next heq => cases heq
  · next heq =>
    obtain ⟨-, rfl⟩ := List.cons.inj heq
    rw [unescapeSlash_cons (by decide), unescapeTilde_cons (by decide),
      unescapeTilde_cons (by decide)]
    simp
  · next heq =>
    obtain ⟨-, rfl⟩ := List.cons.inj heq
    exact length_unescapeTilde_cons_le _ _

theorem length_unescape_append_le (front rest : List Char) :
    (unescape (front ++ rest)).length ≤ front.length + (unescape rest).length := by
  induction front with
  | nil => simp
  | cons c front ih =>
    have := length_unescape_cons_le c (front ++ rest)
    rw [List.cons_append, List.length_cons]
    omega

/-! ### Octets in `%` form -/

/-- The octet that a text starts with in its `%` form, and the text after it. -/
def octet? : List Char → Option (UInt8 × List Char)
  | '%' :: high :: low :: rest =>
    match hexValue? high, hexValue? low with
    | some h, some l => some (UInt8.ofNat (16 * h + l), rest)
    | _, _ => none
  | _ => none

/-- Somewhere in the text there is an octet in its `%` form. -/
def hasOctet : List Char → Bool
  | [] => false
  | c :: rest => (octet? (c :: rest)).isSome || hasOctet rest

variable {run : List UInt8} {text rest chars : List Char} {octet : UInt8} {c : Char}

theorem octet?_eq_some_iff : octet? text = some (octet, rest) ↔
    ∃ high low h l, hexValue? high = some h ∧ hexValue? low = some l ∧
      octet = UInt8.ofNat (16 * h + l) ∧ text = '%' :: high :: low :: rest := by
  constructor
  · intro ho
    unfold octet? at ho
    split at ho
    · next high low rest =>
      split at ho
      · next h l hh hl =>
        cases ho
        exact ⟨high, low, h, l, hh, hl, rfl, rfl⟩
      · cases ho
    · cases ho
  · rintro ⟨high, low, h, l, hh, hl, rfl, rfl⟩
    simp only [octet?, hh, hl]

theorem length_of_octet (h : octet? text = some (octet, rest)) :
    text.length = rest.length + 3 := by
  obtain ⟨_, _, _, _, -, -, -, rfl⟩ := octet?_eq_some_iff.mp h
  rfl

theorem percentDecode_of_octet (h : octet? text = some (octet, rest)) (run : List UInt8) :
    percentDecode run text = percentDecode (octet :: run) rest := by
  obtain ⟨_, _, _, _, hh, hl, rfl, rfl⟩ := octet?_eq_some_iff.mp h
  rw [percentDecode, hh, hl]

theorem percentDecode_of_none (h : octet? (c :: rest) = none) (run : List UInt8) :
    percentDecode run (c :: rest) = flushOctets run ((percentDecode [] rest).map (c :: ·)) := by
  rw [percentDecode.eq_def]
  split
  · next heq => cases heq
  · next high low after heq =>
    obtain ⟨rfl, rfl⟩ := List.cons.inj heq
    cases hh : hexValue? high with
    | none => rfl
    | some _ =>
      cases hl : hexValue? low with
      | none => rfl
      | some _ => simp [octet?, hh, hl] at h
  · next heq =>
    obtain ⟨rfl, rfl⟩ := List.cons.inj heq
    rfl

/-- Texts taken apart into octets in `%` form and characters. -/
@[elab_as_elim]
theorem octetInduction {motive : List Char → Prop} (nil : motive [])
    (octet : ∀ text octet rest, octet? text = some (octet, rest) → motive rest → motive text)
    (char : ∀ c rest, octet? (c :: rest) = none → motive rest → motive (c :: rest)) :
    ∀ text, motive text
  | [] => nil
  | c :: rest =>
    match h : octet? (c :: rest) with
    | some (o, after) =>
      octet _ o after h (octetInduction nil octet char after)
    | none => char c rest h (octetInduction nil octet char rest)
  termination_by text => text.length
  decreasing_by
    · have hlength := length_of_octet h
      omega
    · rw [List.length_cons]
      omega

theorem flushOctets_eq_some_iff {tail? : Option (List Char)} :
    flushOctets run tail? = some chars ↔ ∃ front tail, Utf8.decode run.reverse = some front ∧
      tail? = some tail ∧ front ++ tail = chars := by
  unfold flushOctets
  cases Utf8.decode run.reverse <;> cases tail? <;> simp

theorem isSome_flushOctets (tail? : Option (List Char)) : (flushOctets run tail?).isSome =
    ((Utf8.decode run.reverse).isSome && tail?.isSome) := by
  unfold flushOctets
  cases Utf8.decode run.reverse <;> cases tail? <;> rfl

theorem flushOctets_nil (tail? : Option (List Char)) : flushOctets [] tail? = tail? := by
  cases tail? <;> rfl

/-! ### Octets in the escaped form -/

theorem escapeChar_of_hexValue {n : Nat} (h : hexValue? c = some n) : escapeChar c = [c] := by
  rcases escapeChar_cases c with ⟨rfl, -⟩ | ⟨rfl, -⟩ | ⟨-, -, he⟩
  · cases h
  · cases h
  · exact he

/-- A character of the escaped form that is no tilde is one of the segment. -/
theorem exists_of_escape_eq_cons (h : escape text = c :: chars) (hc : c ≠ '~') :
    ∃ rest, text = c :: rest ∧ escape rest = chars := by
  cases text with
  | nil => cases h
  | cons d rest =>
    rw [escape_cons] at h
    rcases escapeChar_cases d with ⟨-, he⟩ | ⟨-, he⟩ | ⟨-, -, he⟩ <;> rw [he] at h <;> cases h
    · exact absurd rfl hc
    · exact absurd rfl hc
    · exact ⟨rest, rfl, rfl⟩

theorem octet?_escape_of_some (h : octet? text = some (octet, rest)) :
    octet? (escape text) = some (octet, escape rest) := by
  obtain ⟨high, low, _, _, hh, hl, rfl, rfl⟩ := octet?_eq_some_iff.mp h
  refine octet?_eq_some_iff.mpr ⟨high, low, _, _, hh, hl, rfl, ?_⟩
  simp only [escape_cons, escapeChar_of_hexValue hh, escapeChar_of_hexValue hl]
  rfl

theorem octet?_escape_of_none (h : octet? text = none) : octet? (escape text) = none := by
  by_contra hne
  obtain ⟨⟨o, rest⟩, ho⟩ := Option.ne_none_iff_exists'.mp hne
  obtain ⟨high, low, _, _, hh, hl, -, hpercent⟩ := octet?_eq_some_iff.mp ho
  -- neither the `%` nor a digit is a tilde, so all three are characters of the segment
  obtain ⟨_, rfl, hhigh⟩ := exists_of_escape_eq_cons hpercent (by decide)
  obtain ⟨_, rfl, hlow⟩ := exists_of_escape_eq_cons hhigh (by rintro rfl; cases hh)
  obtain ⟨_, rfl, -⟩ := exists_of_escape_eq_cons hlow (by rintro rfl; cases hl)
  rw [octet?_eq_some_iff.mpr ⟨high, low, _, _, hh, hl, rfl, rfl⟩] at h
  cases h

/-- The escaped form of a character is read as it stands. -/
theorem percentDecode_escape_of_none (h : octet? (c :: rest) = none) (run : List UInt8) :
    percentDecode run (escape (c :: rest)) =
      flushOctets run ((percentDecode [] (escape rest)).map (escapeChar c ++ ·)) := by
  have he := octet?_escape_of_none h
  rw [escape_cons] at he ⊢
  have htilde (digit : Char) (hd : octet? (digit :: escape rest) = none) :
      percentDecode run ('~' :: digit :: escape rest) =
        flushOctets run ((percentDecode [] (escape rest)).map (['~', digit] ++ ·)) := by
    rw [percentDecode_of_none rfl, percentDecode_of_none hd, flushOctets_nil, Option.map_map]
    rfl
  rcases escapeChar_cases c with ⟨-, hc⟩ | ⟨-, hc⟩ | ⟨-, -, hc⟩ <;> rw [hc] at he ⊢
  · exact htilde '0' rfl
  · exact htilde '1' rfl
  · exact percentDecode_of_none he run

/-- A segment's octets are UTF-8 if those of its escaped form are. -/
theorem isSome_percentDecode_escape (text : List Char) (run : List UInt8) :
    (percentDecode run (escape text)).isSome = (percentDecode run text).isSome := by
  induction text using octetInduction generalizing run with
  | nil => rfl
  | octet text octet rest h ih =>
    rw [percentDecode_of_octet h, percentDecode_of_octet (octet?_escape_of_some h), ih]
  | char c rest h ih =>
    rw [percentDecode_of_none h, percentDecode_escape_of_none h, isSome_flushOctets,
      isSome_flushOctets, Option.isSome_map, Option.isSome_map, ih]

/-- A segment without octets is left as it is. -/
theorem percentDecode_escape_of_hasOctet (h : hasOctet text = false) :
    percentDecode [] (escape text) = some (escape text) := by
  induction text with
  | nil => rfl
  | cons c rest ih =>
    rw [hasOctet, Bool.or_eq_false_iff, Option.isSome_eq_false_iff, Option.isNone_iff_eq_none] at h
    rw [percentDecode_escape_of_none h.1, flushOctets_nil, ih h.2]
    rfl

/-- What a segment with octets is read back as is shorter than the segment; nothing is longer. -/
theorem length_unescape_le (text : List Char) {run : List UInt8} {chars : List Char}
    (h : percentDecode run (escape text) = some chars) :
    (unescape chars).length + (if hasOctet text then 1 else 0) ≤ run.length + text.length := by
  induction text using octetInduction generalizing run chars with
  | nil =>
    obtain ⟨front, tail, hd, ht, rfl⟩ := flushOctets_eq_some_iff.mp h
    cases ht
    have hfront := Utf8.length_le_of_decode hd
    have hunescape := length_unescape_append_le front []
    have hnil : (unescape []).length = 0 := rfl
    rw [List.length_reverse] at hfront
    rw [hasOctet, if_neg Bool.false_ne_true]
    omega
  | octet text octet rest ho ih =>
    rw [percentDecode_of_octet (octet?_escape_of_some ho)] at h
    have hrest := ih h
    rw [length_of_octet ho]
    rw [List.length_cons] at hrest
    split_ifs <;> omega
  | char c rest ho ih =>
    rw [percentDecode_escape_of_none ho] at h
    obtain ⟨front, tail, hd, ht, rfl⟩ := flushOctets_eq_some_iff.mp h
    obtain ⟨after, ha, rfl⟩ := Option.map_eq_some_iff.mp ht
    have hfront := Utf8.length_le_of_decode hd
    have hunescape := length_unescape_append_le front (escapeChar c ++ after)
    have hrest := ih ha
    rw [List.length_reverse] at hfront
    rw [unescape_escapeChar_append, List.length_cons] at hunescape
    rw [hasOctet, ho, Option.isSome_none, Bool.false_or, List.length_cons]
    rw [List.length_nil] at hrest
    omega

/-- **A segment of a reference** is read back from its escaped form just if it has no octets in `%`
form, or these are not UTF-8. -/
theorem decodeSegment_escape_iff (segment : List Char) :
    decodeSegment (escape segment) = segment ↔
      (hasOctet segment = true → percentDecode [] segment = none) := by
  have hsome := isSome_percentDecode_escape segment []
  unfold decodeSegment
  constructor
  · intro h ho
    cases hd : percentDecode [] (escape segment) with
    | none => rwa [hd, Option.isSome_none, eq_comm, Option.isSome_eq_false_iff,
        Option.isNone_iff_eq_none] at hsome
    | some chars =>
      have hlength := length_unescape_le segment hd
      rw [hd, Option.getD_some] at h
      rw [h, if_pos ho, List.length_nil] at hlength
      omega
  · intro h
    cases ho : hasOctet segment with
    | false => rw [percentDecode_escape_of_hasOctet ho, Option.getD_some, unescape_escape]
    | true =>
      rw [h ho, Option.isSome_none, Option.isSome_eq_false_iff, Option.isNone_iff_eq_none] at hsome
      rw [hsome, Option.getD_none, unescape_escape]

end Pointer

end ApiDecl
