import Flipbook.Text.Grammar

/-!
# Adding up digits

Reading a number adds its digits up in 64 bits and stops as soon as the clock cannot hold
the value. What comes of it is said here without the loop and without the bits: the
readers are those of the run of digits at the start of the text, taken as a natural number
(`readLength_eq`, `readValue_eq`).

That holds because nothing is ever cut off. Every value that the loop comes by (`Counts`)
is one that the clock can hold (`Counts.le_last`); with one more digit behind it, it has
at most 36 bits (`toNat_pushDigit`). The same bound makes room for a sign
(`toInt_withSign`).
-/

namespace Flipbook.Text

/-! ## Runs of characters -/

section Runs

variable {p : Char → Bool} {run rest : List Char}

/-- What passes a test is not what fails it. -/
theorem ne_of_test {c other : Char} (hc : p c = true) (hother : p other = false) :
    c ≠ other := by
  rintro rfl
  rw [hc] at hother
  cases hother

/-- A run is taken to its end, which is where the next character is of another kind. -/
theorem takeWhile_append_of_stop (hrun : ∀ c ∈ run, p c = true)
    (hrest : rest.head?.any p = false) : (run ++ rest).takeWhile p = run := by
  rw [List.takeWhile_append_of_pos hrun]
  cases rest with
  | nil => rw [List.takeWhile_nil, List.append_nil]
  | cons c rest =>
    have hc : ¬ p c = true := by
      rw [Bool.not_eq_true]
      exact hrest
    rw [List.takeWhile_cons_of_neg hc, List.append_nil]

theorem dropWhile_append_of_stop (hrun : ∀ c ∈ run, p c = true)
    (hrest : rest.head?.any p = false) : (run ++ rest).dropWhile p = rest := by
  rw [List.dropWhile_append_of_pos hrun]
  cases rest with
  | nil => rfl
  | cons c rest =>
    have hc : ¬ p c = true := by
      rw [Bool.not_eq_true]
      exact hrest
    exact List.dropWhile_cons_of_neg hc

end Runs

namespace Numeral

/-- The value of the run of digits at the start of a text, and the text after it; none
without a digit. -/
def splitDigits? (text : List Char) : Option (Nat × List Char) :=
  match text.takeWhile Char.isDigit with
  | [] => none
  | run => some (Nat.ofDigitChars 10 run 0, text.dropWhile Char.isDigit)

/-- The number of this magnitude and sign. -/
def signedNumber (negative : Bool) (magnitude : Nat) : Int :=
  if negative then -magnitude else magnitude

/-! ## Runs of digits -/

/-- A run of digits is read to its end. -/
theorem splitDigits?_append {run rest : List Char} (h : IsNumeral run)
    (hrest : rest.head?.any Char.isDigit = false) :
    splitDigits? (run ++ rest) = some (Nat.ofDigitChars 10 run 0, rest) := by
  unfold splitDigits?
  rw [takeWhile_append_of_stop h.2 hrest, dropWhile_append_of_stop h.2 hrest]
  cases run with
  | nil => exact absurd rfl h.1
  | cons c run => rfl

/-- What is read is a run of digits, and no digit follows it. -/
theorem exists_of_splitDigits? {text rest : List Char} {n : Nat}
    (h : splitDigits? text = some (n, rest)) :
    ∃ run, IsNumeral run ∧ Nat.ofDigitChars 10 run 0 = n ∧ text = run ++ rest ∧
      rest.head?.any Char.isDigit = false := by
  unfold splitDigits? at h
  split at h
  next => cases h
  next run hne =>
    cases h
    refine ⟨text.takeWhile Char.isDigit, ⟨?_, ?_⟩, rfl,
      List.takeWhile_append_dropWhile.symm, ?_⟩
    · intro hnil
      exact hne hnil
    · intro c hc
      exact List.all_eq_true.mp List.all_takeWhile c hc
    · have hstop := List.head?_dropWhile_not Char.isDigit text
      cases hd : text.dropWhile Char.isDigit with
      | nil => rfl
      | cons c rest =>
        rw [hd] at hstop
        exact hstop

theorem head?_append_of_isNumeral {run : List Char} (h : IsNumeral run) (rest : List Char) :
    (run ++ rest).head?.any Char.isDigit = true := by
  obtain ⟨hne, hall⟩ := h
  cases run with
  | nil => exact absurd rfl hne
  | cons c run => exact hall c (List.mem_cons_self ..)

/-- No digit is cut off exactly where none stands. -/
theorem splitDigits?_eq_none_iff {text : List Char} :
    splitDigits? text = none ↔ text.head?.any Char.isDigit = false := by
  cases hs : splitDigits? text with
  | none =>
    cases text with
    | nil => simp
    | cons c text =>
      by_cases hc : c.isDigit = true
      · simp [splitDigits?, List.takeWhile_cons_of_pos hc] at hs
      · simpa using hc
  | some split =>
    obtain ⟨run, hrun, _, htext, _⟩ := exists_of_splitDigits? hs
    have hdigit := head?_append_of_isNumeral hrun split.2
    rw [← htext] at hdigit
    simp [hdigit]

/-! ## One more digit -/

variable {number text text' run rest : List Char} {value value' : Option UInt64} {c : Char}

theorem sub_zero_le_nine (h : c.isDigit = true) : c.toNat - '0'.toNat ≤ 9 :=
  Nat.sub_le_sub_right (Char.isDigit_iff_toNat.mp h).2 '0'.toNat

theorem toNat_digitValue (h : c.isDigit = true) : (digitValue c).toNat = c.toNat - '0'.toNat :=
  UInt64.toNat_ofNat_of_lt' (Nat.lt_of_le_of_lt (sub_zero_le_nine h) (by decide))

/-- A digit behind a value that the clock can hold does not overflow. -/
theorem pushDigit_lt_size (hvalue : (value.getD 0).toNat ≤ Tick.last) (h : c.isDigit = true) :
    (value.getD 0).toNat * 10 + (digitValue c).toNat < UInt64.size := by
  have hnine := sub_zero_le_nine h
  have hlast : Tick.last = 4294967295 := rfl
  have hsize : UInt64.size = 18446744073709551616 := rfl
  rw [toNat_digitValue h]
  omega

/-- Behind a value that the clock can hold a digit is added exactly. -/
theorem toNat_pushDigit (hvalue : (value.getD 0).toNat ≤ Tick.last) (h : c.isDigit = true) :
    (pushDigit value c).toNat = 10 * (value.getD 0).toNat + (c.toNat - '0'.toNat) := by
  have hroom := pushDigit_lt_size hvalue h
  have hsize : UInt64.size = 2 ^ 64 := rfl
  have hten : (10 : UInt64).toNat = 10 := rfl
  rw [toNat_digitValue h] at hroom
  rw [pushDigit, UInt64.toNat_add, UInt64.toNat_mul, toNat_digitValue h, hten]
  omega

/-! ## The values on the way -/

/-- Reading digits behind digits of a value comes by another value, with another text left. -/
inductive Counts : Option UInt64 → List Char → Option UInt64 → List Char → Prop where
  | here (value : Option UInt64) (text : List Char) : Counts value text value text
  | digit {value value' : Option UInt64} {c : Char} {text text' : List Char}
      (digit : c.isDigit = true)
      (held : (pushDigit value c).toNat ≤ Tick.last)
      (later : Counts (some (pushDigit value c)) text value' text') :
      Counts value (c :: text) value' text'

/-- Reading goes on from what it comes by. -/
theorem Counts.readMagnitude_eq (h : Counts value text value' text') :
    readMagnitude number value text = readMagnitude number value' text' := by
  induction h with
  | here => rfl
  | digit digit held _ ih => rw [readMagnitude, if_pos digit, if_pos held, ih]

/-- The clock can hold every value on the way. -/
theorem Counts.le_last (h : Counts value text value' text')
    (hvalue : (value.getD 0).toNat ≤ Tick.last) :
    (value'.getD 0).toNat ≤ Tick.last := by
  induction h with
  | here => exact hvalue
  | digit _ held _ ih => exact ih held

/-- The value on the way is exactly that of the digits that have been read, behind
the first value. -/
theorem Counts.exact (h : Counts value text value' text')
    (hvalue : (value.getD 0).toNat ≤ Tick.last) :
    ∃ run, text = run ++ text' ∧ (∀ c ∈ run, c.isDigit = true) ∧
      (value'.getD 0).toNat = Nat.ofDigitChars 10 run (value.getD 0).toNat := by
  induction h with
  | here => exact ⟨[], rfl, List.forall_mem_nil _, rfl⟩
  | @digit value value' c text text' digit held _ ih =>
    obtain ⟨run, rfl, hrun, hexact⟩ := ih held
    refine ⟨c :: run, rfl, List.forall_mem_cons.mpr ⟨digit, hrun⟩, ?_⟩
    rw [hexact, Nat.ofDigitChars_cons, ← toNat_pushDigit hvalue digit]
    rfl

/-- What reading ends with it has come by. -/
theorem counts_of_readMagnitude (h : readMagnitude number value text = .ok (value', rest)) :
    Counts value text value' rest := by
  induction text generalizing value with
  | nil => cases h; exact .here _ _
  | cons c text ih =>
    simp only [readMagnitude] at h
    split at h
    next hdigit =>
      split at h
      next hheld => exact .digit hdigit hheld (ih h)
      next => cases h
    next => cases h; exact .here _ _

/-- The magnitude that is read is one that the clock can hold. -/
theorem le_last_of_readMagnitude {magnitude : UInt64}
    (h : readMagnitude number none text = .ok (some magnitude, rest)) :
    magnitude.toNat ≤ Tick.last :=
  (counts_of_readMagnitude h).le_last (Nat.zero_le _)

/-! ## The value of a run -/

theorem le_ofDigitChars (run : List Char) (n : Nat) : n ≤ Nat.ofDigitChars 10 run n := by
  have hpow : 0 < 10 ^ run.length := Nat.pow_pos (by decide)
  rw [Nat.ofDigitChars_eq_ofDigitChars_zero]
  exact Nat.le_trans (Nat.le_mul_of_pos_left _ hpow) (Nat.le_add_right _ _)

theorem readMagnitude_of_no_digit (hrest : rest.head?.any Char.isDigit = false) :
    readMagnitude number value rest = .ok (value, rest) := by
  cases rest with
  | nil => rfl
  | cons c rest =>
    have hc : ¬ c.isDigit = true := by
      rw [Bool.not_eq_true]
      exact hrest
    rw [readMagnitude, if_neg hc]

/-- Behind a value digits are added up to the end of their run, unless the clock cannot
hold what comes of it. -/
theorem readMagnitude_some_append {magnitude : UInt64} (hrun : ∀ c ∈ run, c.isDigit = true)
    (hrest : rest.head?.any Char.isDigit = false) (hle : magnitude.toNat ≤ Tick.last) :
    readMagnitude number (some magnitude) (run ++ rest) =
      if Nat.ofDigitChars 10 run magnitude.toNat ≤ Tick.last then
        .ok (some (UInt64.ofNat (Nat.ofDigitChars 10 run magnitude.toNat)), rest)
      else .error ⟨.numberOverflow, number⟩ := by
  induction run generalizing magnitude with
  | nil =>
    rw [List.nil_append, readMagnitude_of_no_digit hrest, Nat.ofDigitChars_nil, if_pos hle,
      UInt64.ofNat_toNat]
  | cons c run ih =>
    obtain ⟨hc, hrun⟩ := List.forall_mem_cons.mp hrun
    have hpush : (pushDigit (some magnitude) c).toNat =
        10 * magnitude.toNat + (c.toNat - '0'.toNat) :=
      toNat_pushDigit hle hc
    rw [List.cons_append, readMagnitude, if_pos hc, Nat.ofDigitChars_cons, ← hpush]
    by_cases hheld : (pushDigit (some magnitude) c).toNat ≤ Tick.last
    · rw [if_pos hheld, ih hrun hheld]
    · -- more digits only make the value greater
      have hover := le_ofDigitChars run (pushDigit (some magnitude) c).toNat
      rw [if_neg hheld, if_neg fun hle => hheld (Nat.le_trans hover hle)]

/-- A run of digits is added up to its end, unless the clock cannot hold its value. -/
theorem readMagnitude_append (hrun : IsNumeral run)
    (hrest : rest.head?.any Char.isDigit = false) :
    readMagnitude number none (run ++ rest) =
      if Nat.ofDigitChars 10 run 0 ≤ Tick.last then
        .ok (some (UInt64.ofNat (Nat.ofDigitChars 10 run 0)), rest)
      else .error ⟨.numberOverflow, number⟩ := by
  obtain ⟨hne, hall⟩ := hrun
  cases run with
  | nil => exact absurd rfl hne
  | cons c run =>
    obtain ⟨hc, hrun⟩ := List.forall_mem_cons.mp hall
    have hpush : (pushDigit none c).toNat = 10 * 0 + (c.toNat - '0'.toNat) :=
      toNat_pushDigit (Nat.zero_le _) hc
    -- the clock can hold one digit
    have hheld : (pushDigit none c).toNat ≤ Tick.last := by
      have hnine := sub_zero_le_nine hc
      have hlast : Tick.last = 4294967295 := rfl
      omega
    rw [List.cons_append, readMagnitude, if_pos hc, Nat.ofDigitChars_cons, ← hpush,
      if_pos hheld, readMagnitude_some_append hrun hrest hheld]

/-- What reading a number adds up is the value of the first run of digits. -/
theorem readMagnitude_eq (number text : List Char) :
    readMagnitude number none text =
      match splitDigits? text with
      | none => .ok (none, text)
      | some (n, rest) =>
        if n ≤ Tick.last then .ok (some (UInt64.ofNat n), rest)
        else .error ⟨.numberOverflow, number⟩ := by
  cases hs : splitDigits? text with
  | none => exact readMagnitude_of_no_digit (splitDigits?_eq_none_iff.mp hs)
  | some split =>
    obtain ⟨n, rest⟩ := split
    obtain ⟨run, hrun, rfl, rfl, hstops⟩ := exists_of_splitDigits? hs
    exact readMagnitude_append hrun hstops

/-- The clock's values are what they are in 64 bits. -/
theorem toNat_ofNat_of_le_last {n : Nat} (h : n ≤ Tick.last) : (UInt64.ofNat n).toNat = n := by
  refine UInt64.toNat_ofNat_of_lt' (Nat.lt_of_le_of_lt h ?_)
  decide

/-! ## The readers -/

theorem value?_eq_none_iff {n : Int} :
    value? n = none ↔ n < -2147483648 ∨ 2147483647 < n := by
  unfold value?
  rw [Int32.toInt_minValue, Int32.toInt_maxValue]
  split
  next hin => simp only [reduceCtorEq, false_iff]; omega
  next hout => simp only [true_iff]; omega

/-- What the clock cannot hold has no 32-bit value, with either sign. -/
theorem value?_eq_none_of_last_lt {negative : Bool} {n : Nat} (h : Tick.last < n) :
    value? (signedNumber negative n) = none := by
  have hlast : Tick.last = 4294967295 := rfl
  rw [value?_eq_none_iff]
  cases negative with
  | false =>
    simp only [signedNumber, Bool.false_eq_true, if_false]
    omega
  | true =>
    simp only [signedNumber, if_true]
    omega

/-- In 64 bits a magnitude that the clock can hold has room for a sign. -/
theorem toInt_withSign {negative : Bool} {magnitude : UInt64}
    (h : magnitude.toNat ≤ Tick.last) :
    (withSign negative magnitude).toInt = signedNumber negative magnitude.toNat := by
  have hlast : Tick.last = 4294967295 := rfl
  have hcast : magnitude.toInt64 = Int64.ofNat magnitude.toNat := by
    rw [← UInt64.toInt64_ofNat', UInt64.ofNat_toNat]
  rw [withSign, signedNumber, hcast]
  cases negative with
  | false => exact Int64.toInt_ofNat_of_lt (by omega)
  | true => exact Int64.toInt_neg_ofNat_of_le (by omega)

/-- A length is the value of the digits at the start of the text. -/
theorem readLength_eq (text : List Char) :
    readLength text =
      match splitDigits? text with
      | none => .ok none
      | some (n, rest) =>
        if n ≤ Tick.last then .ok (some (n, rest)) else .error ⟨.numberOverflow, text⟩ := by
  rw [readLength, readMagnitude_eq]
  cases splitDigits? text with
  | none => rfl
  | some split =>
    obtain ⟨n, rest⟩ := split
    by_cases hle : n ≤ Tick.last
    · simp only [if_pos hle, toNat_ofNat_of_le_last hle]
    · simp only [if_neg hle]

/-- The number of a tag is the value of the digits behind its sign. -/
theorem readValue_eq (text : List Char) :
    readValue text =
      match splitDigits? (splitSign text).2 with
      | none => .error ⟨.missingParameter, text⟩
      | some (magnitude, rest) =>
        match value? (signedNumber (splitSign text).1 magnitude) with
        | some v => .ok (v, rest)
        | none => .error ⟨.numberOverflow, text⟩ := by
  simp only [readValue, readMagnitude_eq]
  cases splitDigits? (splitSign text).2 with
  | none => rfl
  | some split =>
    obtain ⟨magnitude, rest⟩ := split
    by_cases hle : magnitude ≤ Tick.last
    · have hexact := toNat_ofNat_of_le_last hle
      have hheld : (UInt64.ofNat magnitude).toNat ≤ Tick.last := by
        rw [hexact]
        exact hle
      have hvalue : signedNumber (splitSign text).1 magnitude =
          (withSign (splitSign text).1 (UInt64.ofNat magnitude)).toInt := by
        rw [toInt_withSign hheld, hexact]
      simp only [if_pos hle]
      generalize (withSign (splitSign text).1 (UInt64.ofNat magnitude)).toInt = n at hvalue
      subst hvalue
      rfl
    · simp only [if_neg hle, value?_eq_none_of_last_lt (Nat.lt_of_not_le hle)]

end Numeral

end Flipbook.Text
