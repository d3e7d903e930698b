import ApiDecl.Json.Printer
import ApiDecl.Json.Reader
import ApiDecl.Proofs.Calendar.DateTime
import ApiDecl.Proofs.Json.Keyed

/-!
# JSON text read back

A value is read back from its indented text (`Json.parse_pretty`), if the names of members are distinct,
containers are nested no deeper than the reader goes and the text of each number is read as that number.
Whole numbers of 64 bits are such numbers (`readNumber_int`).

Text and reader meet at the tokens of the value (`Json.tokens`).  A string and a bracket are complete with
their last character (`Writes`), while a number and a word are complete only when a character follows that
cannot go on with them (`WritesBefore`); in the layout there always is one, a comma or a line break.
-/

namespace ApiDecl

/-! ### Texts of tokens -/

/-- The last character is scanned after all others. -/
theorem foldlM_step_concat (text : List Char) (c : Char) (scan : Scan × List Token) :
    (text ++ [c]).foldlM Scan.step scan = (text.foldlM Scan.step scan).bind (Scan.step · c) := by
  rw [List.foldlM_append]
  exact Option.bind_congr fun _ _ => Option.bind_fun_some _

/-- Between tokens, the text stands for the tokens. -/
def Writes (text : List Char) (tokens : List Token) : Prop :=
  ∀ found, text.foldlM Scan.step (.between, found) = some (.between, tokens.reverse ++ found)

/-- A character that goes on with no number and no word. -/
def IsMark (c : Char) : Prop := isNumeral c = false ∧ c.isLower = false

instance (c : Char) : Decidable (IsMark c) := inferInstanceAs (Decidable (_ ∧ _))

/-- Between tokens, the text stands for the tokens as soon as a mark follows. -/
def WritesBefore (text : List Char) (tokens : List Token) : Prop :=
  ∀ found c, IsMark c →
    (text ++ [c]).foldlM Scan.step (.between, found) = Scan.start (tokens.reverse ++ found) c

section Texts

variable {text more : List Char} {tokens others : List Token} {c : Char}

theorem writes_nil : Writes [] [] := fun _ => rfl

theorem Writes.before (h : Writes text tokens) : WritesBefore text tokens := by
  intro found c _
  rw [foldlM_step_concat, h found]
  rfl

theorem Writes.append (h : Writes text tokens) (h' : Writes more others) :
    Writes (text ++ more) (tokens ++ others) := by
  intro found
  rw [List.foldlM_append, h found, List.reverse_append, List.append_assoc]
  exact h' _

theorem Writes.append_before (h : Writes text tokens) (h' : WritesBefore more others) :
    WritesBefore (text ++ more) (tokens ++ others) := by
  intro found c hc
  rw [List.append_assoc, List.foldlM_append, h found, List.reverse_append, List.append_assoc]
  exact h' _ c hc

theorem WritesBefore.append (h : WritesBefore text tokens) (hc : IsMark c)
    (h' : Writes (c :: more) others) : Writes (text ++ c :: more) (tokens ++ others) := by
  intro found
  have hmore := h' (tokens.reverse ++ found)
  rw [List.foldlM_cons] at hmore
  rw [List.append_cons, List.foldlM_append, h found c hc, List.reverse_append, List.append_assoc]
  exact hmore

/-- Texts with a comma between them stand for their tokens with commas between. -/
theorem writesBefore_intercalate {α : Type} {write : α → List Char} {read : α → List Token} :
    ∀ {items : List α}, (∀ item ∈ items, WritesBefore (write item) (read item)) → items ≠ [] →
      WritesBefore ([','].intercalate (items.map write)) ([Token.comma].intercalate (items.map read))
  | [item], h, _ => by
    rw [List.map_singleton, List.map_singleton, List.intercalate_singleton,
      List.intercalate_singleton]
    exact h item List.mem_cons_self
  | item :: next :: rest, h, _ => by
    rw [List.forall_mem_cons] at h
    rw [List.map_cons, List.map_cons, List.map_cons, List.map_cons, List.intercalate_cons_cons,
      List.intercalate_cons_cons, ← List.map_cons, ← List.map_cons]
    have hcomma : Writes [','] [.comma] := fun _ => rfl
    exact (h.1.append (by decide) hcomma).append_before
      (writesBefore_intercalate h.2 (List.cons_ne_nil _ _))

theorem writes_margin (columns : Nat) : Writes ('\n' :: List.replicate columns ' ') [] := by
  have hspaces : Writes (List.replicate columns ' ') [] := by
    induction columns with
    | zero => exact writes_nil
    | succ columns ih =>
      have hspace : Writes [' '] [] := fun _ => rfl
      exact hspace.append ih
  have hbreak : Writes ['\n'] [] := fun _ => rfl
  exact hbreak.append hspaces

end Texts

/-! ### Strings -/

section Strings

variable {done : List Char} {found : List Token} {c : Char}

theorem hexValue?_digitChar : ∀ n < 16, hexValue? (Nat.digitChar n) = some n := by decide

/-- Inside a string, an escaped character is one character more. -/
theorem foldlM_escapeJsonChar (c : Char) : (escapeJsonChar c).foldlM Scan.step (.text done, found) =
    some (.text (c :: done), found) := by
  unfold escapeJsonChar
  split_ifs with hquote hbackslash hn hr ht hb hf hcontrol
  any_goals
    subst c
    rfl
  · have hhigh : hexValue? (hexDigit (c.toNat / 16)) = some (c.toNat / 16) := by
      rw [hexDigit, Nat.mod_eq_of_lt (by omega)]
      exact hexValue?_digitChar _ (by omega)
    have hlow : hexValue? (hexDigit c.toNat) = some (c.toNat % 16) :=
      hexValue?_digitChar _ (by omega)
    have hfront : ['\\', 'u', '0', '0'].foldlM Scan.step (.text done, found) =
        some (.unit done none 2 0, found) := rfl
    have hthird : Scan.step (.unit done none 2 0, found) (hexDigit (c.toNat / 16)) =
        some (.unit done none 3 (c.toNat / 16), found) := by
      simp [Scan.step, hhigh]
    have hfourth : Scan.step (.unit done none 3 (c.toNat / 16), found) (hexDigit c.toNat) =
        some (.text (c :: done), found) := by
      have hvalue : 16 * (c.toNat / 16) + c.toNat % 16 = c.toNat := by omega
      have hunit : Scan.unitDone done none c.toNat = some (.text (c :: done)) := by
        rw [Scan.unitDone, if_neg (by omega), if_neg (by omega), Char.ofNat_toNat]
      simp [Scan.step, hlow, hvalue, hunit]
    change ((['\\', 'u', '0', '0'] ++ [hexDigit (c.toNat / 16)]) ++ [hexDigit c.toNat]).foldlM _ _ = _
    rw [foldlM_step_concat, foldlM_step_concat, hfront, Option.bind_some, hthird, Option.bind_some,
      hfourth]
  · have hplain : Scan.step (.text done, found) c = some (.text (c :: done), found) := by
      rw [Scan.step, if_neg hquote, if_neg hbackslash, if_neg hcontrol]
    exact (foldlM_step_concat [] c _).trans hplain

theorem foldlM_escaped : ∀ {text done : List Char}, (text.flatMap escapeJsonChar).foldlM Scan.step
    (.text done, found) = some (.text (text.reverse ++ done), found)
  | [], _ => rfl
  | c :: text, done => by
    rw [List.flatMap_cons, List.foldlM_append, foldlM_escapeJsonChar, List.reverse_cons,
      List.append_assoc]
    exact foldlM_escaped

/-- A quoted text stands for the string. -/
theorem writes_quoteJson (text : String) :
    Writes (quoteJson text).toList [.scalar (.string text)] := by
  intro found
  rw [quoteJson, String.toList_ofList, List.cons_append, List.foldlM_cons]
  have hopen : Scan.step (.between, found) '"' = some (.text [], found) := rfl
  rw [hopen]
  change List.foldlM Scan.step (.text [], found) _ = _
  rw [List.foldlM_append, foldlM_escaped, List.append_nil]
  change some (Scan.between, _) = _
  rw [List.reverse_reverse, String.ofList_toList]
  rfl

end Strings

/-! ### Words and numbers -/

section Numbers

variable {text digits : List Char} {n : Number} {found : List Token} {c : Char}

/-- A run of letters that ends inside a word stands for its token, if there is one. -/
theorem writesBefore_word (done : List Char) {token : Token}
    (hrun : ∀ found, text.foldlM Scan.step (.between, found) = some (.word done, found))
    (ht : wordToken done = some token) : WritesBefore text [token] := by
  intro found c hc
  have hends : ¬ c.isLower = true := by rw [hc.2]; exact Bool.false_ne_true
  rw [foldlM_step_concat, hrun, Option.bind_some, Scan.step, if_neg hends, Scan.close, ht]
  rfl

theorem isNumeral_of_isDigit (h : c.isDigit = true) : isNumeral c = true := by
  simp [isNumeral, h]

/-- An exponent has characters of numbers only. -/
theorem isNumeral_of_readExponent {e : Int} (h : readExponent text = some e) :
    ∀ d ∈ text, isNumeral d = true := by
  have hdigits {digits : List Char} {value : Int}
      (h : (if digits.isEmpty || !digits.all Char.isDigit then none else some value) = some e) :
      ∀ d ∈ digits, isNumeral d = true := by
    split at h
    · cases h
    · next hall =>
      simp only [Bool.or_eq_true, not_or, Bool.not_eq_true', Bool.not_eq_false] at hall
      exact fun d hm => isNumeral_of_isDigit (List.all_eq_true.mp hall.2 d hm)
  unfold readExponent at h
  split at h
  case h_3 => cases h
  all_goals
    refine List.forall_mem_cons.mpr ⟨rfl, ?_⟩
    split at h
    next negative digits hsign =>
      have hall := hdigits h
      split at hsign
      all_goals obtain ⟨-, rfl⟩ := Prod.mk.inj hsign
      · exact List.forall_mem_cons.mpr ⟨rfl, hall⟩
      · exact List.forall_mem_cons.mpr ⟨rfl, hall⟩
      · exact hall

theorem eq_append_of_spanDigits {rest : List Char} (h : spanDigits text = (digits, rest)) :
    text = digits ++ rest ∧ ∀ d ∈ digits, d.isDigit = true := by
  obtain ⟨rfl, rfl⟩ := Prod.mk.inj h
  exact ⟨List.takeWhile_append_dropWhile.symm, List.all_eq_true.mp List.all_takeWhile⟩

/-- A number without its sign begins with a digit and has characters of numbers only. -/
theorem isNumeral_of_readMagnitude {negative : Bool} (h : readMagnitude negative text = some n) :
    (∃ c ∈ text.head?, c.isDigit = true) ∧ ∀ d ∈ text, isNumeral d = true := by
  obtain ⟨whole, rest, hspan⟩ : ∃ whole rest, spanDigits text = (whole, rest) := ⟨_, _, rfl⟩
  obtain ⟨rfl, hwhole⟩ := eq_append_of_spanDigits hspan
  have hnumeral {digits : List Char} (hd : ∀ d ∈ digits, d.isDigit = true) :
      ∀ d ∈ digits, isNumeral d = true := fun d hm => isNumeral_of_isDigit (hd d hm)
  unfold readMagnitude at h
  rw [hspan] at h
  dsimp only at h
  split at h
  · cases h
  · next hne =>
    cases whole with
    | nil => simp at hne
    | cons c whole =>
      refine ⟨⟨c, rfl, hwhole c List.mem_cons_self⟩,
        List.forall_mem_append.mpr ⟨hnumeral hwhole, ?_⟩⟩
      split at h
      · exact fun d hd => absurd hd List.not_mem_nil
      · next _ more =>
        obtain ⟨fraction, rest, hspan⟩ : ∃ fraction rest, spanDigits more = (fraction, rest) :=
          ⟨_, _, rfl⟩
        obtain ⟨rfl, hfraction⟩ := eq_append_of_spanDigits hspan
        rw [hspan] at h
        dsimp only at h
        refine List.forall_mem_cons.mpr
          ⟨rfl, List.forall_mem_append.mpr ⟨hnumeral hfraction, ?_⟩⟩
        split at h
        · cases h
        · split at h
          · exact fun d hd => absurd hd List.not_mem_nil
          · obtain ⟨e, he, -⟩ := Option.bind_eq_some_iff.mp h
            exact isNumeral_of_readExponent he
      · obtain ⟨e, he, -⟩ := Option.bind_eq_some_iff.mp h
        exact isNumeral_of_readExponent he

/-- A number begins with a digit or a sign, and goes on with characters of numbers. -/
theorem numeral_of_readNumber (h : readNumber text = some n) :
    ∃ c rest, text = c :: rest ∧ (c.isDigit || c = '-') = true ∧
      ∀ d ∈ rest, isNumeral d = true := by
  unfold readNumber at h
  split at h
  · exact ⟨_, _, rfl, rfl, (isNumeral_of_readMagnitude h).2⟩
  · obtain ⟨⟨c, hc, hdigit⟩, hall⟩ := isNumeral_of_readMagnitude h
    obtain ⟨rest, rfl⟩ := List.head?_eq_some_iff.mp hc
    rw [List.forall_mem_cons] at hall
    exact ⟨c, rest, rfl, by rw [hdigit]; rfl, hall.2⟩

/-- Inside a number, characters of numbers go on with it. -/
theorem foldlM_numeral : ∀ {text done : List Char}, (∀ d ∈ text, isNumeral d = true) →
    text.foldlM Scan.step (.numeral done, found) = some (.numeral (text.reverse ++ done), found)
  | [], _, _ => rfl
  | c :: text, done, h => by
    rw [List.forall_mem_cons] at h
    have hstep : Scan.step (.numeral done, found) c = some (.numeral (c :: done), found) := by
      rw [Scan.step, if_pos h.1]
    rw [List.foldlM_cons, hstep, List.reverse_cons, List.append_assoc]
    exact foldlM_numeral h.2

theorem start_numeral (h : (c.isDigit || c = '-') = true) :
    Scan.start found c = some (.numeral [c], found) := by
  have hne : ∀ d : Char, (d.isDigit || d = '-') = false → c ≠ d := by
    rintro d hd rfl
    rw [h] at hd
    cases hd
  have hblank : isJsonBlank c = false := by
    simp [isJsonBlank, hne ' ' rfl, hne '\n' rfl, hne '\t' rfl, hne '\r' rfl]
  rw [Scan.start, hblank, if_neg Bool.false_ne_true, if_neg (hne _ rfl), if_neg (hne _ rfl),
    if_neg (hne _ rfl), if_neg (hne _ rfl), if_neg (hne _ rfl), if_neg (hne _ rfl),
    if_neg (hne _ rfl), if_pos h]

/-- The text of a number stands for it. -/
theorem writesBefore_number (h : readNumber text = some n) :
    WritesBefore text [.scalar (.number n)] := by
  intro found m hm
  obtain ⟨c, rest, rfl, hc, hrest⟩ := numeral_of_readNumber h
  have hopen : Scan.step (.between, found) c = some (.numeral [c], found) := start_numeral hc
  have hdone : (rest.reverse ++ [c]).reverse = c :: rest := by
    rw [List.reverse_append, List.reverse_reverse]
    rfl
  have hends : ¬ isNumeral m = true := by rw [hm.1]; exact Bool.false_ne_true
  have hall : (c :: rest).foldlM Scan.step (.between, found) =
      some (.numeral (rest.reverse ++ [c]), found) := by
    rw [List.foldlM_cons, hopen]
    exact foldlM_numeral hrest
  rw [foldlM_step_concat, hall, Option.bind_some, Scan.step, if_neg hends, Scan.close, hdone, h]
  rfl

theorem head_toDigits_ne (m : Nat) (hm : 0 < m) : (Nat.toDigits 10 m).head? ≠ some '0' := by
  induction m using Nat.strongRecOn with
  | _ m ih =>
    by_cases hlt : m < 10
    · have hdigit : ∀ k < 10, 0 < k → Nat.digitChar k ≠ '0' := by decide
      rw [Nat.toDigits_of_lt_base hlt]
      exact fun h => hdigit m hlt hm (Option.some.inj h)
    · rw [Nat.toDigits_of_base_le (by omega) (by omega),
        List.head?_append_of_ne_nil _ Nat.toDigits_ne_nil]
      exact ih (m / 10) (by omega) (by omega)

/-- Digits are read as their number, with the sign that has been taken off. -/
theorem readMagnitude_toDigits (negative : Bool) {m : Nat}
    (hm : if negative then m ≠ 0 ∧ m ≤ twoTo 63 else m < twoTo 64) :
    readMagnitude negative (Nat.toDigits 10 m) =
      some (.int (if negative then -(m : Int) else m)) := by
  have hspan : spanDigits (Nat.toDigits 10 m) = (Nat.toDigits 10 m, []) := by
    have hdigits : ∀ c ∈ Nat.toDigits 10 m, c.isDigit = true :=
      fun c hc => Nat.isDigit_of_mem_toDigits (by omega) (by omega) hc
    have h := DateTime.spanDigits_append hdigits noDigitFirst_nil
    rwa [List.append_nil] at h
  have hvalue : digitsValue (Nat.toDigits 10 m) = m := by
    rw [digitsValue_eq, Nat.ofDigitChars_ten_toDigits]
  have hplain : ((Nat.toDigits 10 m).isEmpty || (decide ((Nat.toDigits 10 m).length > 1) &&
      (Nat.toDigits 10 m).head? == some '0')) = false := by
    rcases Nat.eq_zero_or_pos m with rfl | hpos
    · rfl
    · have hhead : ((Nat.toDigits 10 m).head? == some '0') = false :=
        beq_eq_false_iff_ne.mpr (head_toDigits_ne m hpos)
      rw [hhead, Bool.and_false, Bool.or_false, List.isEmpty_eq_false_iff]
      exact Nat.toDigits_ne_nil
  unfold readMagnitude
  rw [hspan]
  dsimp only
  rw [hplain, if_neg Bool.false_ne_true, hvalue]
  cases negative with
  | false =>
    have hfits : m < twoTo 64 := hm
    rw [if_neg Bool.false_ne_true, if_pos hfits, if_neg Bool.false_ne_true]
  | true =>
    have hfits : ¬ (m = 0 ∨ twoTo 63 < m) := by
      rintro (hzero | hlt)
      · exact hm.1 hzero
      · exact Nat.not_le_of_lt hlt hm.2
    rw [if_pos rfl, if_neg hfits, if_pos rfl]

/-- **A whole number of 64 bits** is read from its text. -/
theorem readNumber_int {i : Int} (hlow : -(twoTo 63 : Int) ≤ i) (hhigh : i < (twoTo 64 : Int)) :
    readNumber (Number.int i).text.toList = some (.int i) := by
  cases i with
  | ofNat m =>
    have htext : (Number.int (.ofNat m)).text.toList = Nat.toDigits 10 m := String.toList_ofList
    have hm : m < twoTo 64 := Int.ofNat_lt.mp hhigh
    refine Eq.trans ?_ (readMagnitude_toDigits false hm)
    rw [htext]
    unfold readNumber
    split
    · next rest he =>
      have hdigit : Char.isDigit '-' = true :=
        Nat.isDigit_of_mem_toDigits (n := m) (b := 10) (by omega) (by omega)
          (by rw [he]; exact List.mem_cons_self)
      cases hdigit
    · rfl
  | negSucc m =>
    have htext : (Number.int (.negSucc m)).text.toList = '-' :: Nat.toDigits 10 (m + 1) := by
      change ("-" ++ String.ofList (Nat.toDigits 10 (m + 1))).toList = _
      rw [String.toList_append, String.toList_ofList, String.toList_ofList]
      rfl
    have hm : m + 1 ≤ twoTo 63 := by
      have : Int.negSucc m = -((m : Int) + 1) := Int.negSucc_eq m
      omega
    rw [htext]
    exact readMagnitude_toDigits true ⟨Nat.succ_ne_zero m, hm⟩

end Numbers

/-! ### Values written -/

namespace Json

mutual

/-- The tokens of a value. -/
def tokens : Json → List Token
  | .null => [.scalar .null]
  | .bool value => [.scalar (.bool value)]
  | .number value => [.scalar (.number value)]
  | .string value => [.scalar (.string value)]
  | .array items => .openArray :: [Token.comma].intercalate (itemTokens items) ++ [.closeArray]
  | .object members =>
    .openObject :: [Token.comma].intercalate (memberTokens members) ++ [.closeObject]

/-- The tokens of each item. -/
def itemTokens : List Json → List (List Token)
  | [] => []
  | item :: rest => tokens item :: itemTokens rest

/-- The tokens of each member. -/
def memberTokens : List (String × Json) → List (List Token)
  | [] => []
  | (name, value) :: rest =>
    (.scalar (.string name) :: .colon :: tokens value) :: memberTokens rest

end

/-- The tokens of a member. -/
def entryTokens (member : String × Json) : List Token :=
  .scalar (.string member.1) :: .colon :: member.2.tokens

theorem itemTokens_eq (items : List Json) : itemTokens items = items.map tokens := by
  induction items with
  | nil => rfl
  | cons item rest ih => rw [itemTokens, ih, List.map_cons]

theorem memberTokens_eq (members : List (String × Json)) :
    memberTokens members = members.map entryTokens := by
  induction members with
  | nil => rfl
  | cons member rest ih => rw [memberTokens, ih, List.map_cons, entryTokens]

theorem prettyItems_eq (depth : Nat) (items : List Json) :
    prettyItems depth items = items.map (prettyAt depth) := by
  induction items with
  | nil => rfl
  | cons item rest ih => rw [prettyItems, ih, List.map_cons]

theorem prettyMembers_eq (depth : Nat) (members : List (String × Json)) :
    prettyMembers depth members =
      members.map fun member => quoteJson member.1 ++ ": " ++ prettyAt depth member.2 := by
  induction members with
  | nil => rfl
  | cons member rest ih => rw [prettyMembers, ih, List.map_cons]

/-- What the reader takes as it was: the text of each number is read as the number, and no more
containers than `room` are open at once.  A double need not be what its digits are read as, since the
power of ten that they are multiplied by is rounded before the product is. -/
inductive ReadsWithin : Nat → Json → Prop
  | null {room : Nat} : ReadsWithin room .null
  | bool {room : Nat} (value : Bool) : ReadsWithin room (.bool value)
  | number {room : Nat} {value : Number} : readNumber value.text.toList = some value →
      ReadsWithin room (.number value)
  | string {room : Nat} (value : String) : ReadsWithin room (.string value)
  | array {room : Nat} {items : List Json} : (∀ item ∈ items, ReadsWithin room item) →
      ReadsWithin (room + 1) (.array items)
  | object {room : Nat} {members : List (String × Json)} :
      (∀ member ∈ members, ReadsWithin room member.2) → ReadsWithin (room + 1) (.object members)

theorem toList_margin (columns : Nat) :
    ("\n" ++ String.ofList (List.replicate columns ' ')).toList =
      '\n' :: List.replicate columns ' ' := by
  rw [String.toList_append, String.toList_ofList, String.toList_ofList]
  rfl

/-- Lines in brackets stand for the tokens of the lines with commas between. -/
theorem writes_bracketed {α : Type} {line : α → String} {read : α → List Token} {items : List α}
    {opening closing : String} {left right : Token} (hopen : Writes opening.toList [left])
    (hclose : Writes closing.toList [right])
    (h : ∀ item ∈ items, WritesBefore (line item).toList (read item)) (depth : Nat) :
    Writes (bracketed opening closing depth (items.map line)).toList
      (left :: [Token.comma].intercalate (items.map read) ++ [right]) := by
  cases items with
  | nil =>
    have htext : (bracketed opening closing depth (([] : List α).map line)).toList =
        opening.toList ++ closing.toList := String.toList_append
    rw [htext]
    exact hopen.append hclose
  | cons first rest =>
    let indented (item : α) : List Char :=
      '\n' :: List.replicate (2 * (depth + 1)) ' ' ++ (line item).toList
    have hindented (item : α) : ("\n" ++ String.ofList (List.replicate (2 * (depth + 1)) ' ') ++
        line item).toList = indented item := by
      rw [String.toList_append, toList_margin]
    have htext : (bracketed opening closing depth ((first :: rest).map line)).toList =
        opening.toList ++ ([','].intercalate ((first :: rest).map indented) ++
          ('\n' :: List.replicate (2 * depth) ' ' ++ closing.toList)) := by
      have hcomma : (",").toList = [','] := rfl
      rw [bracketed, String.toList_append, String.toList_append, toList_margin,
        String.toList_append, String.toList_intercalate, List.map_map, List.map_map, hcomma,
        List.append_assoc, List.append_assoc, ← funext hindented]
      · rfl
      · exact List.cons_ne_nil _ _
    have hlines : ∀ item ∈ first :: rest, WritesBefore (indented item) (read item) :=
      fun item hm => (writes_margin _).append_before (h item hm)
    rw [htext]
    exact hopen.append (((writesBefore_intercalate hlines (List.cons_ne_nil _ _)).append (by decide)
      ((writes_margin (2 * depth)).append hclose)))

variable {value : Json} {room : Nat}

/-- The indented text of a value stands for its tokens. -/
theorem ReadsWithin.writes (h : value.ReadsWithin room) :
    ∀ depth, WritesBefore (value.prettyAt depth).toList value.tokens := by
  induction h with
  | null =>
    intro depth
    rw [prettyAt, tokens]
    exact writesBefore_word ['l', 'l', 'u', 'n'] (fun _ => rfl) rfl
  | bool value =>
    intro depth
    rw [prettyAt, tokens]
    cases value with
    | false => exact writesBefore_word ['e', 's', 'l', 'a', 'f'] (fun _ => rfl) rfl
    | true => exact writesBefore_word ['e', 'u', 'r', 't'] (fun _ => rfl) rfl
  | number hn => exact fun _ => writesBefore_number hn
  | string value => exact fun _ => (writes_quoteJson value).before
  | array _ ih =>
    intro depth
    rw [prettyAt, tokens, prettyItems_eq, itemTokens_eq]
    exact (writes_bracketed (fun _ => rfl) (fun _ => rfl)
      (fun item hm => ih item hm (depth + 1)) depth).before
  | object _ ih =>
    intro depth
    rw [prettyAt, tokens, prettyMembers_eq, memberTokens_eq]
    refine (writes_bracketed (fun _ => rfl) (fun _ => rfl) (fun member hm => ?_) depth).before
    have hcolon : Writes (": ").toList [.colon] := fun _ => rfl
    rw [String.toList_append, String.toList_append]
    exact ((writes_quoteJson member.1).append hcolon).append_before (ih member hm (depth + 1))

/-! ### Values read -/

section Read

variable {frames : List Frame}

/-- The tokens of the value hand it to the innermost open container. -/
def Read (value : Json) (frames : List Frame) : Prop :=
  value.tokens.foldlM Reading.step (.awaitValue frames) = some (.give value frames)

/-- The items of an array are read one after the other once the first has been. -/
theorem foldlM_items : ∀ {rest done : List Json} {item : Json} {reading : Reading},
    item.tokens.foldlM Reading.step reading = some (.afterItem done frames) →
      (∀ item ∈ rest, ∀ done, item.Read (.array done :: frames)) →
        ([Token.comma].intercalate ((item :: rest).map tokens)).foldlM Reading.step reading =
          some (.afterItem (rest.reverse ++ done) frames)
  | [], _, _, _, h, _ => by
    rw [List.map_singleton, List.intercalate_singleton]
    exact h
  | next :: rest, done, _, _, h, hrest => by
    rw [List.forall_mem_cons] at hrest
    rw [List.map_cons, List.map_cons, List.intercalate_cons_cons, ← List.map_cons,
      List.append_assoc, List.foldlM_append, h, List.reverse_cons, List.append_assoc]
    exact foldlM_items (hrest.1 done) hrest.2

/-- So are the members of an object, if their names are new. -/
theorem foldlM_members : ∀ {rest done : List (String × Json)} {member : String × Json}
    {reading : Reading},
    (entryTokens member).foldlM Reading.step reading = some (.afterMember done frames) →
      (∀ member ∈ rest, ∀ done, member.2.Read (.object done member.1 :: frames)) →
      ((done ++ rest).map Prod.fst).Nodup →
        ([Token.comma].intercalate ((member :: rest).map entryTokens)).foldlM Reading.step reading =
          some (.afterMember (done ++ rest) frames)
  | [], done, _, _, h, _, _ => by
    rw [List.map_singleton, List.intercalate_singleton, List.append_nil]
    exact h
  | (name, value) :: rest, done, _, _, h, hrest, hd => by
    rw [List.forall_mem_cons] at hrest
    have hnew : name ∉ done.map Prod.fst := by
      rw [List.map_append, List.map_cons, List.nodup_append] at hd
      exact fun hm => hd.2.2 name hm name List.mem_cons_self rfl
    have hmember : (entryTokens (name, value)).foldlM Reading.step (.awaitName done frames) =
        some (.afterMember (done ++ [(name, value)]) frames) := by
      rw [← Member.put_of_not_mem hnew]
      exact hrest.1 done
    rw [List.map_cons, List.map_cons, List.intercalate_cons_cons, ← List.map_cons,
      List.append_assoc, List.foldlM_append, h, List.append_cons]
    rw [List.append_cons] at hd
    exact foldlM_members hmember hrest.2 hd

/-- The first item of an array begins as any value does. -/
theorem foldlM_firstItem (value : Json) (frames : List Frame) :
    value.tokens.foldlM Reading.step (.firstItem frames) =
      value.tokens.foldlM Reading.step (.awaitValue (.array [] :: frames)) := by
  cases value with
  | array | object =>
    rw [tokens, List.cons_append, List.foldlM_cons, List.foldlM_cons]
    rfl
  | _ => rw [tokens]; rfl

/-- **A value is read from its tokens** inside containers that leave it enough room. -/
theorem ReadsWithin.read (h : value.ReadsWithin room) (hk : value.Keyed) :
    ∀ frames : List Frame, frames.length + room ≤ depthLimit → value.Read frames := by
  induction h with
  | null | bool | number | string =>
    intro frames _
    rw [Read, tokens]
    rfl
  | @array room items _ ih =>
    intro frames hroom
    cases hk with | array hk =>
    have hitem : ∀ item ∈ items, ∀ done, item.Read (.array done :: frames) :=
      fun item hm done => ih item hm (hk item hm) (.array done :: frames)
        (by rw [List.length_cons]; omega)
    have hopen : Reading.step (.awaitValue frames) .openArray = some (.firstItem frames) :=
      if_pos (by omega)
    rw [Read, tokens, itemTokens_eq, List.cons_append, List.foldlM_cons, hopen]
    change List.foldlM Reading.step (.firstItem frames) _ = _
    cases items with
    | nil => rfl
    | cons item rest =>
      rw [List.forall_mem_cons] at hitem
      have hitems := foldlM_items ((foldlM_firstItem item frames).trans (hitem.1 [])) hitem.2
      rw [List.foldlM_append, hitems]
      change some (Reading.give (.array (rest.reverse ++ [item]).reverse) frames) = _
      rw [List.reverse_append, List.reverse_reverse]
      rfl
  | @object room members _ ih =>
    intro frames hroom
    cases hk with | object hd hk =>
    have hmember : ∀ member ∈ members, ∀ done, member.2.Read (.object done member.1 :: frames) :=
      fun member hm done => ih member hm (hk member hm) (.object done member.1 :: frames)
        (by rw [List.length_cons]; omega)
    have hopen : Reading.step (.awaitValue frames) .openObject = some (.firstName frames) :=
      if_pos (by omega)
    rw [Read, tokens, memberTokens_eq, List.cons_append, List.foldlM_cons, hopen]
    change List.foldlM Reading.step (.firstName frames) _ = _
    cases members with
    | nil => rfl
    | cons member rest =>
      rw [List.forall_mem_cons] at hmember
      have hfirst : (entryTokens member).foldlM Reading.step (.firstName frames) =
          some (.afterMember [member] frames) := hmember.1 []
      rw [List.foldlM_append, foldlM_members hfirst hmember.2 hd]
      rfl

end Read

/-- **A value is read back from its indented text**, also with a line break behind it. -/
theorem parse_pretty (hk : value.Keyed) (hr : value.ReadsWithin depthLimit) :
    Json.parse (value.pretty ++ "\n") = some value := by
  have hend : (value.pretty ++ "\n").toList = (value.prettyAt 0).toList ++ ['\n'] :=
    String.toList_append
  have hscan : Token.scan (value.pretty ++ "\n") = some value.tokens := by
    rw [Token.scan, hend, hr.writes 0 [] '\n' (by decide), List.append_nil]
    change some value.tokens.reverse.reverse = _
    rw [List.reverse_reverse]
  have hread : value.tokens.foldlM Reading.step (.awaitValue []) = some (.finished value) :=
    hr.read hk [] (by rw [List.length_nil]; omega)
  rw [parse, hscan]
  change (List.foldlM Reading.step (.awaitValue []) value.tokens >>= _) = _
  rw [hread]
  rfl

end Json

end ApiDecl
