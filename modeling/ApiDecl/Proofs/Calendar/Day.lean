import ApiDecl.Calendar.Day
import Mathlib.Algebra.Group.Nat.Defs
import Mathlib.Data.List.Basic
import Mathlib.Tactic.SplitIfs

/-!
# Days read back

A number written in digits is read back from the front of a text, if the digits are as many as are
read or no digit follows (`takeDigits_append`, `takeDigitsUpTo_append`).  So a day is read back from
its text (`Day.parse_text`), which is also the text it shows itself in (`Day.shown_eq_text`), and no text
without a hyphen is that of a day (`Day.parse_eq_none`).
-/

namespace ApiDecl

variable {w n : Nat} {c : Char} {text rest digits : List Char}

/-! ### Digits -/

/-- After a reader that succeeds, the reading goes on with what it has read. -/
theorem bind_eq_of_eq_some {α β : Type} {x : Option α} {a : α} (h : x = some a)
    (f : α → Option β) : (x >>= f) = f a := by
  rw [h]
  rfl

theorem digitsValue_eq (digits : List Char) :
    digitsValue digits = Nat.ofDigitChars 10 digits 0 := by
  rw [Nat.ofDigitChars_eq_foldl]
  rfl

@[simp] theorem digitsValue_paddedDigits (w n : Nat) :
    digitsValue (paddedDigits w n) = n := by
  rw [digitsValue_eq, paddedDigits, Nat.ofDigitChars_append, Nat.ofDigitChars_replicate_zero,
    Nat.mul_zero, Nat.ofDigitChars_ten_toDigits]

/-- So many digits make a number below so many tens. -/
theorem digitsValue_lt (hd : ∀ c ∈ digits, c.isDigit = true) :
    digitsValue digits < 10 ^ digits.length := by
  suffices h : ∀ init, Nat.ofDigitChars 10 digits init < (init + 1) * 10 ^ digits.length by
    have := h 0
    rwa [← digitsValue_eq, Nat.zero_add, Nat.one_mul] at this
  induction digits with
  | nil => intro init; simp
  | cons c rest ih =>
    intro init
    have hc : c.toNat - 48 < 10 := by
      have hdigit := hd c List.mem_cons_self
      simp only [Char.isDigit, Bool.and_eq_true, decide_eq_true_eq] at hdigit
      have : c.toNat ≤ 57 := hdigit.2
      omega
    rw [Nat.ofDigitChars_cons, List.length_cons, Nat.pow_succ']
    calc
      _ < (10 * init + (c.toNat - '0'.toNat) + 1) * 10 ^ rest.length :=
        ih (fun d hm => hd d (List.mem_cons_of_mem c hm)) _
      _ ≤ (init + 1) * 10 * 10 ^ rest.length :=
        Nat.mul_le_mul_right _ (show 10 * init + (c.toNat - 48) + 1 ≤ _ by omega)
      _ = _ := Nat.mul_assoc ..

theorem isDigit_of_mem_paddedDigits (h : c ∈ paddedDigits w n) : c.isDigit = true := by
  rcases List.mem_append.mp h with h | h
  · rw [List.eq_of_mem_replicate h]
    rfl
  · exact Nat.isDigit_of_mem_toDigits (by omega) (by omega) h

theorem length_paddedDigits (hw : 0 < w) (h : n < 10 ^ w) :
    (paddedDigits w n).length = w := by
  have := (Nat.length_toDigits_le_iff (b := 10) (by omega) hw).mpr h
  simp only [paddedDigits, List.length_append, List.length_replicate]
  omega

theorem length_two (h : n < 100) : (paddedDigits 2 n).length = 2 :=
  length_paddedDigits (by omega) h

theorem paddedDigits_ne_nil (w n : Nat) : paddedDigits w n ≠ [] :=
  List.append_ne_nil_of_right_ne_nil _ Nat.toDigits_ne_nil

theorem isBlank_eq_false_of_isDigit (h : c.isDigit = true) : isBlank c = false := by
  simp only [Char.isDigit, Bool.and_eq_true, decide_eq_true_eq] at h
  obtain ⟨h1, h2⟩ := h
  have h1 : 48 ≤ c.toNat := h1
  have h2 : c.toNat ≤ 57 := h2
  simp only [isBlank, Bool.or_eq_false_iff, Bool.and_eq_false_iff, decide_eq_false_iff_not,
    beq_eq_false_iff_ne]
  omega

/-- No digit follows. -/
def NoDigitFirst (text : List Char) : Prop := ∀ c ∈ text.head?, c.isDigit = false

theorem noDigitFirst_nil : NoDigitFirst [] := fun _ h => by cases h

theorem noDigitFirst_cons (h : c.isDigit = false) : NoDigitFirst (c :: rest) := by
  rintro _ ⟨⟩
  exact h

theorem takeWhile_isDigit_append (hd : ∀ c ∈ digits, c.isDigit = true) (hr : NoDigitFirst rest) :
    (digits ++ rest).takeWhile Char.isDigit = digits := by
  rw [List.takeWhile_append_of_pos hd]
  cases rest with
  | nil => simp
  | cons c rest =>
    rw [List.takeWhile_cons_of_neg (by rw [hr c rfl]; exact Bool.false_ne_true), List.append_nil]

/-- As many digits as are asked for are taken from the front. -/
theorem takeDigits_append (hw : 0 < w) (h : n < 10 ^ w) (rest : List Char) :
    takeDigits w (paddedDigits w n ++ rest) = some (n, rest) := by
  have hl := length_paddedDigits hw h
  have hall : (paddedDigits w n).all Char.isDigit = true :=
    List.all_eq_true.mpr fun _ => isDigit_of_mem_paddedDigits
  simp only [takeDigits, List.take_left' hl, List.drop_left' hl, hl, hall, and_self, if_true,
    digitsValue_paddedDigits]

/-- All digits are taken that are there, if they are no more than may be. -/
theorem takeDigitsUpTo_append {most : Nat} (hm : (paddedDigits w n).length ≤ most)
    (hr : NoDigitFirst rest) :
    takeDigitsUpTo most (paddedDigits w n ++ rest) = some (n, rest) := by
  have hfront : ((paddedDigits w n ++ rest).take most).takeWhile Char.isDigit =
      paddedDigits w n := by
    rw [List.take_append, List.take_of_length_le hm]
    refine takeWhile_isDigit_append (fun _ => isDigit_of_mem_paddedDigits) fun c hc => hr c ?_
    rw [List.head?_take] at hc
    split_ifs at hc
    · cases hc
    · exact hc
  rw [takeDigitsUpTo, hfront, if_neg (by simp [paddedDigits_ne_nil]), List.drop_left,
    digitsValue_paddedDigits]

theorem takeChar_cons (c : Char) (rest : List Char) : takeChar c (c :: rest) = some rest := by
  rw [takeChar, if_pos rfl]

theorem trimFront_of_not_blank (h : ∀ c ∈ text.head?, isBlank c = false) :
    trimFront text = text := by
  cases text with
  | nil => rfl
  | cons c rest =>
    exact List.dropWhile_cons_of_neg (by rw [h c rfl]; exact Bool.false_ne_true)

theorem trimFront_paddedDigits (w n : Nat) (rest : List Char) :
    trimFront (paddedDigits w n ++ rest) = paddedDigits w n ++ rest := by
  refine trimFront_of_not_blank fun c hc => ?_
  rw [List.head?_append_of_ne_nil _ (paddedDigits_ne_nil w n)] at hc
  exact isBlank_eq_false_of_isDigit (isDigit_of_mem_paddedDigits (List.mem_of_mem_head? hc))

/-! ### What is taken off the front -/

theorem suffix_of_takeDigits {count : Nat} (h : takeDigits count text = some (n, rest)) :
    rest <:+ text := by
  unfold takeDigits at h
  dsimp only at h
  split_ifs at h
  obtain ⟨-, rfl⟩ := Prod.mk.inj (Option.some.inj h)
  exact List.drop_suffix _ _

theorem suffix_of_takeDigitsUpTo {most : Nat} (h : takeDigitsUpTo most text = some (n, rest)) :
    rest <:+ text := by
  unfold takeDigitsUpTo at h
  dsimp only at h
  split_ifs at h
  obtain ⟨-, rfl⟩ := Prod.mk.inj (Option.some.inj h)
  exact List.drop_suffix _ _

theorem lt_of_takeDigits {count : Nat} (h : takeDigits count text = some (n, rest)) :
    n < 10 ^ count := by
  unfold takeDigits at h
  dsimp only at h
  split_ifs at h with hfront
  obtain ⟨rfl, -⟩ := Prod.mk.inj (Option.some.inj h)
  have hlt := digitsValue_lt (List.all_eq_true.mp hfront.2)
  rwa [hfront.1] at hlt

theorem eq_cons_of_takeChar (h : takeChar c text = some rest) : text = c :: rest := by
  cases text with
  | nil => cases h
  | cons d text =>
    rw [takeChar] at h
    split_ifs at h with hd
    rw [hd, Option.some.inj h]

namespace Day

variable {year : Int}

theorem suffix_of_takeYear (h : takeYear text = some (year, rest)) : rest <:+ text := by
  unfold takeYear at h
  split at h
  all_goals
    obtain ⟨⟨n, rest'⟩, hd, he⟩ := Option.map_eq_some_iff.mp h
    obtain ⟨-, rfl⟩ := Prod.mk.inj he
  · exact (suffix_of_takeDigitsUpTo hd).trans (List.suffix_cons _ _)
  · exact (suffix_of_takeDigitsUpTo hd).trans (List.suffix_cons _ _)
  · exact suffix_of_takeDigitsUpTo hd

/-- A text without a hyphen is not that of a day. -/
theorem parse_eq_none (h : '-' ∉ text) : parse text = none := by
  rw [Option.eq_none_iff_forall_ne_some]
  intro d hd
  obtain ⟨⟨year, after⟩, hy, hd⟩ := Option.bind_eq_some_iff.mp hd
  obtain ⟨behind, hc, -⟩ := Option.bind_eq_some_iff.mp hd
  have hafter : after = '-' :: behind := eq_cons_of_takeChar hc
  have hmem : '-' ∈ after := by
    rw [hafter]
    exact List.mem_cons_self
  have hsuffix := (suffix_of_takeYear hy).trans (List.dropWhile_suffix isBlank)
  exact h (hsuffix.mem hmem)

/-! ### The text of a day -/

theorem of?_self (d : Day) : of? d.year d.month d.day = some d := by
  rw [of?, dif_pos d.year_mem, dif_pos d.month_mem, dif_pos d.day_mem]

theorem year_of_of? {month day : Nat} {d : Day} (h : of? year month day = some d) :
    d.year = year := by
  unfold of? at h
  split_ifs at h
  rw [← Option.some.inj h]

theorem day_lt (d : Day) : d.day < 100 := by
  have h : daysInMonth d.year d.month ≤ 31 := by
    unfold daysInMonth
    split
    · split_ifs <;> omega
    all_goals omega
  have := d.day_mem.2
  omega

theorem yearText_of_mem (h : 0 ≤ year ∧ year ≤ 9999) :
    yearText year = paddedDigits 4 year.natAbs := by
  rw [yearText, if_neg (by omega), if_neg (by omega)]

/-- The year is read back, whatever its sign. -/
theorem takeYear_yearText (year : Int) (rest : List Char) :
    takeYear (yearText year ++ '-' :: rest) = some (year, '-' :: rest) := by
  have hyphen : NoDigitFirst ('-' :: rest) := noDigitFirst_cons rfl
  have hlength (n : Nat) :
      (paddedDigits 4 n).length ≤ (paddedDigits 4 n ++ '-' :: rest).length := by
    rw [List.length_append]
    omega
  unfold yearText
  split_ifs with hneg hbig
  · have hy : -(year.natAbs : Int) = year := by omega
    rw [List.cons_append, takeYear, takeDigitsUpTo_append (hlength _) hyphen, Option.map_some]
    exact congrArg (fun y => some (y, '-' :: rest)) hy
  · have hy : (year.natAbs : Int) = year := by omega
    rw [List.cons_append, takeYear, takeDigitsUpTo_append (hlength _) hyphen, Option.map_some]
    exact congrArg (fun y => some (y, '-' :: rest)) hy
  · have hy : (year.natAbs : Int) = year := by omega
    have hl := length_paddedDigits (w := 4) (n := year.natAbs) (by omega) (by omega)
    have hdigits := takeDigitsUpTo_append (n := year.natAbs) (Nat.le_of_eq hl) hyphen
    have hfirst : ∀ c ∈ (paddedDigits 4 year.natAbs).head?, c.isDigit = true := fun c hc =>
      isDigit_of_mem_paddedDigits (List.mem_of_mem_head? hc)
    cases hp : paddedDigits 4 year.natAbs with
    | nil => exact absurd hp (paddedDigits_ne_nil _ _)
    | cons c more =>
      rw [hp] at hfirst hdigits
      have hc := hfirst c rfl
      unfold takeYear
      split
      · next he =>
        cases he
        cases hc
      · next he =>
        cases he
        cases hc
      · rw [hdigits, ← hy]
        rfl

theorem trimFront_yearText (year : Int) (rest : List Char) :
    trimFront (yearText year ++ rest) = yearText year ++ rest := by
  unfold yearText
  split_ifs
  · exact trimFront_of_not_blank (by rintro _ ⟨⟩; rfl)
  · exact trimFront_of_not_blank (by rintro _ ⟨⟩; rfl)
  · exact trimFront_paddedDigits _ _ _

theorem paddedDigits_succ (hw : 0 < w) (n : Nat) :
    paddedDigits (w + 1) n = paddedDigits w (n / 10) ++ [Nat.digitChar (n % 10)] := by
  unfold paddedDigits
  dsimp only
  by_cases hn : n < 10
  · have hzero : n / 10 = 0 := by omega
    have hmod : n % 10 = n := Nat.mod_eq_of_lt hn
    have hreplicate : List.replicate w '0' = List.replicate (w - 1) '0' ++ ['0'] := by
      rw [← List.replicate_succ', Nat.sub_add_cancel hw]
    rw [Nat.toDigits_of_lt_base hn, hzero, hmod]
    exact congrArg (· ++ [Nat.digitChar n]) hreplicate
  · rw [Nat.toDigits_of_base_le (by omega) (by omega), List.length_append, List.length_singleton,
      Nat.add_sub_add_right, List.append_assoc]

theorem twoDigits_eq (h : n < 100) : twoDigits n = paddedDigits 2 n := by
  have hone : paddedDigits 1 (n / 10) = [Nat.digitChar (n / 10)] := by
    unfold paddedDigits
    rw [Nat.toDigits_of_lt_base (by omega)]
    rfl
  rw [paddedDigits_succ (by omega), hone]
  rfl

theorem shownYear_eq (year : Int) : shownYear year = yearText year := by
  unfold shownYear yearText
  split_ifs with hmem hneg hbig
  any_goals omega
  · generalize hn : year.natAbs = n
    have hcentury : n / 100 < 100 := by omega
    have hdiv : n / 10 / 10 = n / 100 := Nat.div_div_eq_div_mul n 10 10
    have htens : n % 100 / 10 = n / 10 % 10 := by omega
    have hones : n % 100 % 10 = n % 10 := by omega
    have hfour : paddedDigits 4 n =
        paddedDigits 2 (n / 10 / 10) ++ [Nat.digitChar (n / 10 % 10)] ++ [Nat.digitChar (n % 10)] := by
      rw [paddedDigits_succ (w := 3) (by omega), paddedDigits_succ (w := 2) (by omega)]
    rw [hfour, hdiv, twoDigits_eq hcentury, twoDigits, htens, hones, List.append_assoc]
    rfl
  all_goals rfl

/-- A day shows itself in its text. -/
theorem shown_eq_text (d : Day) : d.shown = d.text := by
  have hmonth := d.month_mem
  rw [shown, text, shownYear_eq, twoDigits_eq (by omega), twoDigits_eq d.day_lt]

/-- **A day is read back** from its text. -/
theorem parse_text (d : Day) : parse d.text = some d := by
  have hmonth := d.month_mem
  have hday := d.day_lt
  have hm : takeDigitsUpTo 2 (paddedDigits 2 d.month ++ '-' :: paddedDigits 2 d.day) =
      some (d.month, '-' :: paddedDigits 2 d.day) :=
    takeDigitsUpTo_append (Nat.le_of_eq (length_two (by omega))) (noDigitFirst_cons rfl)
  have hd : takeDigitsUpTo 2 (paddedDigits 2 d.day) = some (d.day, []) := by
    have := takeDigitsUpTo_append (Nat.le_of_eq (length_two hday)) noDigitFirst_nil
    rwa [List.append_nil] at this
  have ht : trimFront (paddedDigits 2 d.day) = paddedDigits 2 d.day := by
    have := trimFront_paddedDigits 2 d.day []
    rwa [List.append_nil] at this
  rw [text, List.append_assoc, List.cons_append, parse, trimFront_yearText]
  refine (bind_eq_of_eq_some (takeYear_yearText _ _) _).trans ?_
  refine (bind_eq_of_eq_some (takeChar_cons '-' _) _).trans ?_
  rw [trimFront_paddedDigits]
  refine (bind_eq_of_eq_some hm _).trans ?_
  refine (bind_eq_of_eq_some (takeChar_cons '-' _) _).trans ?_
  rw [ht]
  refine (bind_eq_of_eq_some hd _).trans ?_
  exact of?_self d

end Day

end ApiDecl
