import Flipbook.Proofs.Text.Magnitude

/-!
# Numbers as runs of digits

Whoever knows where a run of digits ends, because what follows does not begin with a
digit, knows what is read there: `readLength_append` for lengths and `readValue_append`
for the numbers of tags. Conversely nothing else is ever read: `exists_of_readLength`,
`exists_of_readValue`.

Written numbers are such runs, so they read back (`Written.signedDigits`). A number of any
value is read to its end as well, and then has a 32-bit value or is refused
(`Signed.readValue_append`); one that is refused stays so with more digits behind it
(`value?_eq_none_of_le`).
-/

namespace Flipbook.Text.Numeral

theorem isNumeral_digits (n : Nat) : IsNumeral (digits n) :=
  ⟨Nat.toDigits_ne_nil, fun _ hc => Nat.isDigit_of_mem_toDigits (by decide) (by decide) hc⟩

theorem ofDigitChars_digits (n : Nat) : Nat.ofDigitChars 10 (digits n) 0 = n :=
  Nat.ofDigitChars_ten_toDigits

/-- A zero in front makes another numeral. -/
theorem isNumeral_zero_cons {run : List Char} (h : IsNumeral run) :
    IsNumeral ('0' :: run) := by
  refine ⟨List.cons_ne_nil _ _, ?_⟩
  intro c hc
  rcases List.mem_cons.mp hc with rfl | hin
  · rfl
  · exact h.2 c hin

theorem ofDigitChars_zero_cons (run : List Char) :
    Nat.ofDigitChars 10 ('0' :: run) 0 = Nat.ofDigitChars 10 run 0 := by
  rw [Nat.ofDigitChars_cons]
  rfl

/-! ## Where a number starts -/

/-- A plus sign starts a number if a digit follows it. -/
theorem startsAt_plus (text : List Char) :
    startsAt ('+' :: text) = text.head?.any Char.isDigit := by
  cases text <;> rfl

theorem startsAt_minus (text : List Char) :
    startsAt ('-' :: text) = text.head?.any Char.isDigit := by
  cases text <;> rfl

/-- Any other character starts a number if it is a digit. -/
theorem startsAt_cons {c : Char} (text : List Char) (hplus : c ≠ '+') (hminus : c ≠ '-') :
    startsAt (c :: text) = c.isDigit := by
  unfold startsAt
  split
  next h => cases h; exact absurd rfl hplus
  next h => cases h; exact absurd rfl hminus
  next h => cases h; rfl
  next h => cases h

theorem startsAt_of_digit {text : List Char} (h : text.head?.any Char.isDigit = true) :
    startsAt text = true := by
  cases text with
  | nil => cases h
  | cons c rest =>
    have hc : c.isDigit = true := h
    -- a sign is no digit
    have hsign : ∀ sign : Char, sign.isDigit = false → c ≠ sign := by
      intro sign hsign heq
      rw [heq, hsign] at hc
      cases hc
    rw [startsAt_cons rest (hsign '+' rfl) (hsign '-' rfl)]
    exact hc

/-- No number starts with a character that is no digit and no sign. -/
theorem startsAt_append_of_head? {front : List Char}
    (h : front.head?.any fun c => !c.isDigit && c != '+' && c != '-') (rest : List Char) :
    startsAt (front ++ rest) = false := by
  cases front with
  | nil => cases h
  | cons c front =>
    simp only [List.head?_cons, Option.any_some, Bool.and_eq_true, Bool.not_eq_true',
      bne_iff_ne, ne_eq] at h
    obtain ⟨⟨hdigit, hplus⟩, hminus⟩ := h
    rw [List.cons_append, startsAt_cons _ hplus hminus]
    exact hdigit

/-- Where no number starts, no digit stands. -/
theorem head?_not_digit {text : List Char} (h : startsAt text = false) :
    text.head?.any Char.isDigit = false := by
  rw [← Bool.not_eq_true]
  intro hd
  rw [startsAt_of_digit hd] at h
  cases h

/-! ## Lengths -/

/-- A length that the clock can hold is read to its end. -/
theorem readLength_append {run rest : List Char} (h : IsNumeral run)
    (hrest : rest.head?.any Char.isDigit = false)
    (hle : Nat.ofDigitChars 10 run 0 ≤ Tick.last) :
    readLength (run ++ rest) = .ok (some (Nat.ofDigitChars 10 run 0, rest)) := by
  rw [readLength_eq, splitDigits?_append h hrest]
  exact if_pos hle

/-- What is read as a length is a run of digits, of a value that the clock can hold, and
no digit follows it. -/
theorem exists_of_readLength {text rest : List Char} {n : Nat}
    (h : readLength text = .ok (some (n, rest))) :
    ∃ run, IsNumeral run ∧ Nat.ofDigitChars 10 run 0 = n ∧ text = run ++ rest ∧
      rest.head?.any Char.isDigit = false := by
  rw [readLength_eq] at h
  split at h
  next => cases h
  next hs =>
    split at h
    next =>
      cases h
      exact exists_of_splitDigits? hs
    next => cases h

/-! ## Numbers of tags -/

/-- A 32-bit value is read off a number exactly if the number is its own. -/
theorem value?_eq_some_iff {n : Int} {v : Int32} : value? n = some v ↔ v.toInt = n := by
  unfold value?
  refine ⟨?_, ?_⟩
  · intro h
    split at h
    next hrange =>
      cases h
      rw [Int32.toInt_minValue, Int32.toInt_maxValue] at hrange
      exact Int32.toInt_ofInt_of_le hrange.1 (by omega)
    next => cases h
  · intro h
    subst h
    rw [if_pos ⟨v.minValue_le_toInt, v.toInt_le⟩, Int32.ofInt_toInt]

/-- The characters in which a tag's number may be written: a numeral, after
at most one sign. -/
inductive Written (v : Int32) : List Char → Prop where
  | unsigned {run : List Char} (numeral : IsNumeral run)
      (same : v.toInt = Nat.ofDigitChars 10 run 0) : Written v run
  | plus {run : List Char} (numeral : IsNumeral run)
      (same : v.toInt = Nat.ofDigitChars 10 run 0) : Written v ('+' :: run)
  | minus {run : List Char} (numeral : IsNumeral run)
      (same : v.toInt = -(Nat.ofDigitChars 10 run 0 : Int)) : Written v ('-' :: run)

theorem Written.startsAt {v : Int32} {number : List Char} (h : Written v number)
    (rest : List Char) : Numeral.startsAt (number ++ rest) = true := by
  cases h with
  | unsigned numeral => exact startsAt_of_digit (head?_append_of_isNumeral numeral rest)
  | plus numeral =>
    rw [List.cons_append, startsAt_plus]
    exact head?_append_of_isNumeral numeral rest
  | minus numeral =>
    rw [List.cons_append, startsAt_minus]
    exact head?_append_of_isNumeral numeral rest

/-- A written number is a numeral after its sign, and a zero may stand in
front of the numeral. -/
theorem Written.exists_eq_append {v : Int32} {number : List Char} (h : Written v number) :
    ∃ sign run, number = sign ++ run ∧ IsNumeral run ∧ (∀ c ∈ sign, c.isDigit = false) ∧
      Written v (sign ++ '0' :: run) ∧
      (number.head?.any Char.isDigit = true →
        (sign ++ '0' :: run).head?.any Char.isDigit = true) := by
  cases h with
  | unsigned numeral same =>
    rw [← ofDigitChars_zero_cons] at same
    exact ⟨[], number, rfl, numeral, List.forall_mem_nil _,
      .unsigned (isNumeral_zero_cons numeral) same, fun _ => rfl⟩
  | @plus run numeral same =>
    rw [← ofDigitChars_zero_cons] at same
    exact ⟨['+'], run, rfl, numeral, List.forall_mem_singleton.mpr rfl,
      .plus (isNumeral_zero_cons numeral) same, id⟩
  | @minus run numeral same =>
    rw [← ofDigitChars_zero_cons] at same
    exact ⟨['-'], run, rfl, numeral, List.forall_mem_singleton.mpr rfl,
      .minus (isNumeral_zero_cons numeral) same, id⟩

/-- A text that begins with a digit is left whole. -/
theorem splitSign_of_digit {text : List Char} (h : text.head?.any Char.isDigit = true) :
    splitSign text = (false, text) := by
  unfold splitSign
  split
  next => cases h
  next => cases h
  next => rfl

/-- Reading a number is reading the digits behind the sign. -/
theorem readValue_eq_ok_iff {text rest : List Char} {v : Int32} :
    readValue text = .ok (v, rest) ↔
      ∃ magnitude, splitDigits? (splitSign text).2 = some (magnitude, rest) ∧
        v.toInt = signedNumber (splitSign text).1 magnitude := by
  rw [readValue_eq]
  refine ⟨?_, ?_⟩
  · intro h
    split at h
    next => cases h
    next magnitude rest' hs =>
      split at h
      next v' hv =>
        cases h
        exact ⟨magnitude, hs, value?_eq_some_iff.mp hv⟩
      next => cases h
  · intro h
    obtain ⟨magnitude, hs, hv⟩ := h
    rw [hs]
    simp only [value?_eq_some_iff.mpr hv]

theorem readValue_append {v : Int32} {number rest : List Char} (h : Written v number)
    (hrest : rest.head?.any Char.isDigit = false) :
    readValue (number ++ rest) = .ok (v, rest) := by
  rw [readValue_eq_ok_iff]
  cases h with
  | unsigned numeral same =>
    rw [splitSign_of_digit (head?_append_of_isNumeral numeral rest)]
    exact ⟨_, splitDigits?_append numeral hrest, same⟩
  | plus numeral same => exact ⟨_, splitDigits?_append numeral hrest, same⟩
  | minus numeral same => exact ⟨_, splitDigits?_append numeral hrest, same⟩

/-- What is read as a tag's number is a written number, and no digit follows it. -/
theorem exists_of_readValue {text rest : List Char} {v : Int32}
    (h : readValue text = .ok (v, rest)) :
    ∃ number, Written v number ∧ text = number ++ rest ∧
      rest.head?.any Char.isDigit = false := by
  obtain ⟨magnitude, hs, hv⟩ := readValue_eq_ok_iff.mp h
  obtain ⟨run, hrun, rfl, hbody, hstops⟩ := exists_of_splitDigits? hs
  unfold splitSign at hbody hv
  split at hbody
  next tail =>
    subst hbody
    exact ⟨'-' :: run, .minus hrun hv, rfl, hstops⟩
  next tail =>
    subst hbody
    exact ⟨'+' :: run, .plus hrun hv, rfl, hstops⟩
  next hminus hplus =>
    -- without a sign the number is its digits
    subst hbody
    refine ⟨run, .unsigned hrun ?_, rfl, hstops⟩
    rw [hv]
    split
    next tail htail => exact absurd htail (hminus tail)
    next => rfl
    next => rfl

/-! ## Numbers of any value -/

/-- A number is written as its digits, after at most one sign. -/
inductive Signed : Bool → List Char → List Char → Prop where
  | unsigned (run : List Char) : Signed false run run
  | plus (run : List Char) : Signed false run ('+' :: run)
  | minus (run : List Char) : Signed true run ('-' :: run)

/-- Where a number starts, its digits and its sign can be told apart from what follows. -/
theorem exists_of_startsAt {text : List Char} (h : startsAt text = true) :
    ∃ negative run number rest, text = number ++ rest ∧ IsNumeral run ∧
      Signed negative run number ∧
      rest.head?.any Char.isDigit = false := by
  have hdigits : ∀ body : List Char, body.head?.any Char.isDigit = true →
      ∃ run rest, body = run ++ rest ∧ IsNumeral run ∧
        rest.head?.any Char.isDigit = false := by
    intro body hbody
    cases hs : splitDigits? body with
    | none => simp [splitDigits?_eq_none_iff.mp hs] at hbody
    | some split =>
      obtain ⟨run, hrun, _, hbody, hrest⟩ := exists_of_splitDigits? hs
      exact ⟨run, split.2, hbody, hrun, hrest⟩
  cases text with
  | nil => cases h
  | cons c text =>
    by_cases hplus : c = '+'
    · subst hplus
      rw [startsAt_plus] at h
      obtain ⟨run, rest, rfl, hrun, hrest⟩ := hdigits text h
      exact ⟨false, run, '+' :: run, rest, rfl, hrun, .plus run, hrest⟩
    · by_cases hminus : c = '-'
      · subst hminus
        rw [startsAt_minus] at h
        obtain ⟨run, rest, rfl, hrun, hrest⟩ := hdigits text h
        exact ⟨true, run, '-' :: run, rest, rfl, hrun, .minus run, hrest⟩
      · rw [startsAt_cons text hplus hminus] at h
        obtain ⟨run, rest, hsplit, hrun, hrest⟩ := hdigits (c :: text) h
        exact ⟨false, run, run, rest, hsplit, hrun, .unsigned run, hrest⟩

theorem Signed.startsAt_append {negative : Bool} {run number : List Char}
    (h : Signed negative run number) (hrun : IsNumeral run) (rest : List Char) :
    startsAt (number ++ rest) = true := by
  have hdigit := head?_append_of_isNumeral hrun rest
  cases h with
  | unsigned => exact startsAt_of_digit hdigit
  | plus =>
    rw [List.cons_append, startsAt_plus]
    exact hdigit
  | minus =>
    rw [List.cons_append, startsAt_minus]
    exact hdigit

theorem Signed.ne_nil {negative : Bool} {run number : List Char}
    (h : Signed negative run number)
    (hrun : IsNumeral run) : number ≠ [] := by
  cases h with
  | unsigned => exact hrun.1
  | plus => exact List.cons_ne_nil _ _
  | minus => exact List.cons_ne_nil _ _

theorem Signed.splitSign_append {negative : Bool} {run number : List Char}
    (h : Signed negative run number) (hrun : IsNumeral run) (rest : List Char) :
    splitSign (number ++ rest) = (negative, run ++ rest) := by
  cases h with
  | unsigned => exact splitSign_of_digit (head?_append_of_isNumeral hrun rest)
  | plus => rfl
  | minus => rfl

/-- A number that is read to its end has a 32-bit value or is out of range. -/
theorem Signed.readValue_append {negative : Bool} {run number rest : List Char}
    (h : Signed negative run number) (hrun : IsNumeral run)
    (hrest : rest.head?.any Char.isDigit = false) :
    readValue (number ++ rest) =
      match value? (signedNumber negative (Nat.ofDigitChars 10 run 0)) with
      | some v => .ok (v, rest)
      | none => .error ⟨.numberOverflow, number ++ rest⟩ := by
  have hsplit := splitDigits?_append hrun hrest
  cases hvalue : value? (signedNumber negative (Nat.ofDigitChars 10 run 0)) with
  | none => simp only [readValue_eq, h.splitSign_append hrun, hsplit, hvalue]
  | some v => simp only [readValue_eq, h.splitSign_append hrun, hsplit, hvalue]

theorem le_ofDigitChars_append (run more : List Char) :
    Nat.ofDigitChars 10 run 0 ≤ Nat.ofDigitChars 10 (run ++ more) 0 := by
  have hpow : 0 < 10 ^ more.length := Nat.pow_pos (by decide)
  rw [Nat.ofDigitChars_append, Nat.ofDigitChars_eq_ofDigitChars_zero (l := more)]
  exact Nat.le_trans (Nat.le_mul_of_pos_left _ hpow) (Nat.le_add_right _ _)

/-- What has no 32-bit value has none with a greater magnitude. -/
theorem value?_eq_none_of_le {negative : Bool} {m m' : Nat}
    (h : value? (signedNumber negative m) = none) (hle : m ≤ m') :
    value? (signedNumber negative m') = none := by
  rw [value?_eq_none_iff] at h ⊢
  cases negative with
  | false =>
    simp only [signedNumber, Bool.false_eq_true, if_false] at h ⊢
    omega
  | true =>
    simp only [signedNumber, if_true] at h ⊢
    omega

/-- The digits behind a number go on with it, up to where they end. -/
theorem Signed.exists_longer {negative : Bool} {run number : List Char}
    (hsigned : Signed negative run number) (hrun : IsNumeral run) (text : List Char) :
    ∃ digits rest, text = digits ++ rest ∧ IsNumeral (run ++ digits) ∧
      Signed negative (run ++ digits) (number ++ digits) ∧
        rest.head?.any Char.isDigit = false := by
  have hlonger : ∀ {digits : List Char}, (∀ c ∈ digits, c.isDigit = true) →
      IsNumeral (run ++ digits) ∧ Signed negative (run ++ digits) (number ++ digits) := by
    intro digits hdigits
    refine ⟨⟨List.append_ne_nil_of_left_ne_nil hrun.1 digits, ?_⟩, ?_⟩
    · intro c hc
      rcases List.mem_append.mp hc with hin | hin
      · exact hrun.2 c hin
      · exact hdigits c hin
    · cases hsigned with
      | unsigned => exact .unsigned _
      | plus => exact .plus _
      | minus => exact .minus _
  cases hs : splitDigits? text with
  | none =>
    obtain ⟨hnumeral, hnumber⟩ := hlonger (List.forall_mem_nil _)
    exact ⟨[], text, rfl, hnumeral, hnumber, splitDigits?_eq_none_iff.mp hs⟩
  | some split =>
    obtain ⟨digits, hdigits, _, htext, hstops⟩ := exists_of_splitDigits? hs
    obtain ⟨hnumeral, hnumber⟩ := hlonger hdigits.2
    exact ⟨digits, split.2, htext, hnumeral, hnumber, hstops⟩

theorem Written.signedDigits (v : Int32) : Written v (Numeral.signedDigits v) := by
  have hval := ofDigitChars_digits v.toInt.natAbs
  unfold Numeral.signedDigits
  split
  next hneg => exact .minus (isNumeral_digits _) (by rw [hval]; omega)
  next hpos => exact .unsigned (isNumeral_digits _) (by rw [hval]; omega)

end Flipbook.Text.Numeral
