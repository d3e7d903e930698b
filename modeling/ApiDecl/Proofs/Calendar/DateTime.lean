import ApiDecl.Calendar.DateTime
import ApiDecl.Proofs.Calendar.Day

/-!
# Moments read back

A text says all of a moment whose year has four digits, whose offset is one of minutes and whose leap
second is the last second of a minute (`DateTime.Written`).  Every moment that is read is such a moment
(`DateTime.written_of_parse`), and each of them is read back from its text with its fraction of a second
and its offset (`DateTime.parse_text`).

The text of a day is not that of a moment (`DateTime.parse_day_text`), and neither is any text without
a hyphen (`DateTime.parse_eq_none`).
-/

namespace ApiDecl

namespace DateTime

variable {nano w n : Nat} {minutes : Int} {rest text : List Char} {t : DateTime}

/-- A moment of which a text says all. -/
structure Written (t : DateTime) : Prop where
  year_mem : 0 ≤ t.day.year ∧ t.day.year ≤ 9999
  /-- The offset is one of minutes. -/
  offset_mod : t.offset % 60 = 0
  /-- The leap second ends a minute. -/
  leap : 1000000000 ≤ t.nano → t.second = 59

/-! ### Fractions of a second -/

theorem spanDigits_append {digits : List Char} (hd : ∀ c ∈ digits, c.isDigit = true)
    (hr : NoDigitFirst rest) : spanDigits (digits ++ rest) = (digits, rest) := by
  have htake := takeWhile_isDigit_append hd hr
  have hdrop := List.takeWhile_append_dropWhile (p := Char.isDigit) (l := digits ++ rest)
  rw [htake] at hdrop
  rw [spanDigits, htake, List.append_cancel_left hdrop]

/-- Decimals that are left out count as zeros. -/
theorem takeFraction_digits (hw : 0 < w) (h9 : w ≤ 9) (h : n < 10 ^ w)
    (hr : NoDigitFirst rest) :
    takeFraction ('.' :: paddedDigits w n ++ rest) = some (10 ^ (9 - w) * n, rest) := by
  have hl := length_paddedDigits hw h
  have hvalue : digitsValue ((paddedDigits w n ++ List.replicate 9 '0').take 9) =
      10 ^ (9 - w) * n := by
    rw [List.take_append, List.take_of_length_le (by omega), hl, List.take_replicate,
      Nat.min_eq_left (by omega), digitsValue_eq, Nat.ofDigitChars_append,
      Nat.ofDigitChars_replicate_zero, ← digitsValue_eq, digitsValue_paddedDigits]
  rw [List.cons_append, takeFraction, spanDigits_append (fun _ => isDigit_of_mem_paddedDigits) hr]
  simp only [List.isEmpty_iff, paddedDigits_ne_nil, if_false, hvalue]

/-- A fraction of a second is read back, in however many decimals it is written. -/
theorem takeFraction_fractionText (h : nano < 1000000000)
    (hr : ∀ c ∈ rest.head?, c.isDigit = false ∧ c ≠ '.') :
    takeFraction (fractionText nano ++ rest) = some (nano, rest) := by
  have hdigit : NoDigitFirst rest := fun c hc => (hr c hc).1
  unfold fractionText
  split_ifs with h0 h3 h6
  · subst h0
    rw [List.nil_append]
    cases rest with
    | nil => rfl
    | cons c rest =>
      unfold takeFraction
      split
      · next he =>
        cases he
        exact absurd rfl (hr _ rfl).2
      · rfl
  · rw [takeFraction_digits (by omega) (by omega) (by omega) hdigit]
    have : 10 ^ (9 - 3) * (nano / 1000000) = nano := by omega
    rw [this]
  · rw [takeFraction_digits (by omega) (by omega) (by omega) hdigit]
    have : 10 ^ (9 - 6) * (nano / 1000) = nano := by omega
    rw [this]
  · rw [takeFraction_digits (by omega) (by omega) (by omega) hdigit]
    have : 10 ^ (9 - 9) * nano = nano := by omega
    rw [this]

theorem lt_of_takeFraction (h : takeFraction text = some (nano, rest)) : nano < 1000000000 := by
  unfold takeFraction at h
  split at h
  · next text =>
    rcases hs : spanDigits text with ⟨digits, rest'⟩
    rw [hs] at h
    dsimp only at h
    split_ifs at h
    obtain ⟨rfl, -⟩ := Prod.mk.inj (Option.some.inj h)
    have hdigits : ∀ c ∈ digits, c.isDigit = true := by
      have hfst : text.takeWhile Char.isDigit = digits := congrArg Prod.fst hs
      rw [← hfst]
      exact List.all_eq_true.mp List.all_takeWhile
    have hall : ∀ c ∈ (digits ++ List.replicate 9 '0').take 9, c.isDigit = true := by
      intro c hc
      rcases List.mem_append.mp (List.mem_of_mem_take hc) with hc | hc
      · exact hdigits c hc
      · rw [List.eq_of_mem_replicate hc]
        rfl
    have hlength : ((digits ++ List.replicate 9 '0').take 9).length = 9 := by
      rw [List.length_take, List.length_append, List.length_replicate]
      omega
    have hlt := digitsValue_lt hall
    rwa [hlength] at hlt
  · obtain ⟨rfl, -⟩ := Prod.mk.inj (Option.some.inj h)
    omega

/-! ### Offsets -/

theorem takeClock_digits (sign : Int) (h : n < 1440) :
    takeClock sign (paddedDigits 2 (n / 60) ++ ':' :: paddedDigits 2 (n % 60)) =
      some (sign * n, []) := by
  have hhours := takeDigits_append (w := 2) (n := n / 60) (by omega) (by omega)
    (':' :: paddedDigits 2 (n % 60))
  have hminutes := takeDigits_append (w := 2) (n := n % 60) (by omega) (by omega) []
  rw [List.append_nil] at hminutes
  have hsum : n / 60 * 60 + n % 60 = n := by omega
  have hlt : n % 60 < 60 := by omega
  simp only [takeClock, hhours, takeChar_cons, hminutes, Option.bind_eq_bind, Option.bind_some,
    if_pos hlt, hsum]

/-- An offset of minutes is read back with its sign. -/
theorem takeOffset_offsetText (h : -1440 < minutes ∧ minutes < 1440) :
    takeOffset (offsetText (minutes * 60)) = some (minutes, []) := by
  have hlt : minutes.natAbs < 1440 := by omega
  have hsize : ((minutes * 60).natAbs + 30) / 60 = minutes.natAbs := by omega
  unfold offsetText
  split_ifs with h0 hneg
  · obtain rfl : minutes = 0 := by omega
    rfl
  · have hsign : (-1 : Int) * minutes.natAbs = minutes := by omega
    rw [List.cons_append, takeOffset, if_neg (by decide), if_neg (by decide), if_pos (by decide),
      hsize, takeClock_digits _ hlt, hsign]
  · have hsign : (1 : Int) * minutes.natAbs = minutes := by omega
    rw [List.cons_append, takeOffset, if_neg (by decide), if_pos (by decide), hsize,
      takeClock_digits _ hlt, hsign]

theorem head_offsetText {offset : Int} {c : Char} (h : c ∈ (offsetText offset).head?) :
    c.isDigit = false ∧ c ≠ '.' := by
  unfold offsetText at h
  split_ifs at h
  all_goals
    cases h
    decide

/-! ### The text of a moment -/

theorem of?_self (t : DateTime) :
    of? t.day t.hour t.minute t.second t.nano t.offset = some t := by
  rw [of?, dif_pos ⟨t.hour_lt, t.minute_lt, t.second_lt, t.nano_lt, t.offset_lt⟩]

/-- A leap second that ends a minute is the sixtieth second there. -/
theorem ofClock?_self (h : t.Written) : ofClock? t.day t.hour t.minute
    (t.second + t.nano / 1000000000) (t.nano % 1000000000) t.offset = some t := by
  have hsecond := t.second_lt
  have hnano := t.nano_lt
  unfold ofClock?
  split_ifs with hleap
  · have hlast : 59 = t.second := by omega
    have hwhole : t.nano % 1000000000 + 1000000000 = t.nano := by omega
    rw [hwhole, hlast]
    exact of?_self t
  · have hshort : t.nano < 1000000000 := by
      have := h.leap
      omega
    rw [Nat.div_eq_of_lt hshort, Nat.mod_eq_of_lt hshort]
    exact of?_self t

theorem takeMark_cons (rest : List Char) : takeMark ('T' :: rest) = some rest := by
  rw [takeMark, if_pos (Or.inl rfl)]

/-- **A moment is read back** from its text, if this says all of it. -/
theorem parse_text (h : t.Written) : parse t.text = some t := by
  have hyear := h.year_mem
  have hmonth := t.day.month_mem
  have hday := t.day.day_lt
  have hhour := t.hour_lt
  have hminute := t.minute_lt
  have hsecond := t.second_lt
  have hnano := t.nano_lt
  have hoffset := t.offset_lt
  obtain ⟨minutes, hminutes⟩ : ∃ minutes, t.offset = minutes * 60 :=
    ⟨t.offset / 60, by have := h.offset_mod; omega⟩
  have hnat : (t.day.year.natAbs : Int) = t.day.year := by omega
  have two {n : Nat} (h : n < 100) (rest : List Char) :
      takeDigits 2 (paddedDigits 2 n ++ rest) = some (n, rest) :=
    takeDigits_append (by omega) h rest
  have four (rest : List Char) :
      takeDigits 4 (paddedDigits 4 t.day.year.natAbs ++ rest) = some (t.day.year.natAbs, rest) :=
    takeDigits_append (by omega) (by omega) rest
  rw [text, Day.shown_eq_text, Day.text, Day.yearText_of_mem hyear]
  simp only [List.append_assoc, List.cons_append]
  unfold parse
  -- one reader after another takes its part off the front
  refine (bind_eq_of_eq_some (four _) _).trans ?_
  refine (bind_eq_of_eq_some (takeChar_cons '-' _) _).trans ?_
  refine (bind_eq_of_eq_some (two (by omega) _) _).trans ?_
  refine (bind_eq_of_eq_some (takeChar_cons '-' _) _).trans ?_
  refine (bind_eq_of_eq_some (two hday _) _).trans ?_
  refine (bind_eq_of_eq_some (takeMark_cons _) _).trans ?_
  refine (bind_eq_of_eq_some (two (by omega) _) _).trans ?_
  refine (bind_eq_of_eq_some (takeChar_cons ':' _) _).trans ?_
  refine (bind_eq_of_eq_some (two (by omega) _) _).trans ?_
  refine (bind_eq_of_eq_some (takeChar_cons ':' _) _).trans ?_
  refine (bind_eq_of_eq_some (two (by omega) _) _).trans ?_
  refine (bind_eq_of_eq_some
    (takeFraction_fractionText (by omega) fun _ => head_offsetText) _).trans ?_
  rw [hminutes]
  refine (bind_eq_of_eq_some (takeOffset_offsetText (by omega)) _).trans ?_
  rw [hnat]
  refine (bind_eq_of_eq_some (Day.of?_self t.day) _).trans ?_
  rw [← hminutes]
  exact ofClock?_self h

theorem eq_of_of? {day : Day} {hour minute second : Nat} {offset : Int}
    (h : of? day hour minute second nano offset = some t) :
    t.day = day ∧ t.second = second ∧ t.nano = nano ∧ t.offset = offset := by
  unfold of? at h
  split_ifs at h
  obtain rfl := Option.some.inj h
  exact ⟨rfl, rfl, rfl, rfl⟩

/-- **Of a moment that is read** the text says all. -/
theorem written_of_parse (h : parse text = some t) : t.Written := by
  unfold parse at h
  obtain ⟨⟨year, _⟩, hy, h⟩ := Option.bind_eq_some_iff.mp h
  obtain ⟨_, -, h⟩ := Option.bind_eq_some_iff.mp h
  obtain ⟨⟨month, _⟩, -, h⟩ := Option.bind_eq_some_iff.mp h
  obtain ⟨_, -, h⟩ := Option.bind_eq_some_iff.mp h
  obtain ⟨⟨dayOfMonth, _⟩, -, h⟩ := Option.bind_eq_some_iff.mp h
  obtain ⟨_, -, h⟩ := Option.bind_eq_some_iff.mp h
  obtain ⟨⟨hour, _⟩, -, h⟩ := Option.bind_eq_some_iff.mp h
  obtain ⟨_, -, h⟩ := Option.bind_eq_some_iff.mp h
  obtain ⟨⟨minute, _⟩, -, h⟩ := Option.bind_eq_some_iff.mp h
  obtain ⟨_, -, h⟩ := Option.bind_eq_some_iff.mp h
  obtain ⟨⟨second, _⟩, -, h⟩ := Option.bind_eq_some_iff.mp h
  obtain ⟨⟨nano, _⟩, hf, h⟩ := Option.bind_eq_some_iff.mp h
  obtain ⟨⟨minutes, _⟩, -, h⟩ := Option.bind_eq_some_iff.mp h
  dsimp only at h
  split_ifs at h
  obtain ⟨day, hd, h⟩ := Option.bind_eq_some_iff.mp h
  have hyear := lt_of_takeDigits hy
  have hday := Day.year_of_of? hd
  have hnano := lt_of_takeFraction hf
  unfold ofClock? at h
  split_ifs at h
  · obtain ⟨rfl, hsecond, -, hoffset⟩ := eq_of_of? h
    exact ⟨by omega, by omega, fun _ => hsecond⟩
  · obtain ⟨rfl, -, rfl, hoffset⟩ := eq_of_of? h
    exact ⟨by omega, by omega, fun hleap => by omega⟩

/-- The text of a day lacks the mark before the time, or it begins with a sign. -/
theorem parse_day_text (d : Day) : parse d.text = none := by
  have hmonth := d.month_mem
  have hsigned (c : Char) (hc : c.isDigit = false) (rest : List Char) :
      takeDigits 4 (c :: rest) = none := by
    simp [takeDigits, hc]
  rw [Day.text, List.append_assoc]
  unfold Day.yearText
  split_ifs with hneg hbig
  · rw [List.cons_append, parse, hsigned '-' rfl]
    rfl
  · rw [List.cons_append, parse, hsigned '+' rfl]
    rfl
  · have hday := takeDigits_append (w := 2) (n := d.day) (by omega) d.day_lt []
    rw [List.append_nil] at hday
    rw [List.cons_append]
    unfold parse
    refine (bind_eq_of_eq_some (takeDigits_append (by omega) (by omega) _) _).trans ?_
    refine (bind_eq_of_eq_some (takeChar_cons '-' _) _).trans ?_
    refine (bind_eq_of_eq_some (takeDigits_append (by omega) (by omega) _) _).trans ?_
    refine (bind_eq_of_eq_some (takeChar_cons '-' _) _).trans ?_
    exact bind_eq_of_eq_some hday _

/-- A text without a hyphen is not that of a moment. -/
theorem parse_eq_none (h : '-' ∉ text) : parse text = none := by
  rw [Option.eq_none_iff_forall_ne_some]
  intro t ht
  obtain ⟨⟨year, after⟩, hy, ht⟩ := Option.bind_eq_some_iff.mp ht
  obtain ⟨behind, hc, -⟩ := Option.bind_eq_some_iff.mp ht
  have hafter : after = '-' :: behind := eq_cons_of_takeChar hc
  have hmem : '-' ∈ after := by
    rw [hafter]
    exact List.mem_cons_self
  exact h ((suffix_of_takeDigits hy).mem hmem)

end DateTime

end ApiDecl
