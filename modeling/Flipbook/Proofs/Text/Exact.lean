import Flipbook.Proofs.Text.Lookahead

/-!
# Numbers are read exactly

Main statement: `numbers_read_exactly`. Wherever a number stands in a text, and however
many digits it has, it is read to its last digit and has its exact value, or it is out of
range and the fault is where it begins.

That there are two limits does no harm. Adding up stops above the greatest length, which
leaves everything that a tag's number may be, and a tag's number is measured only after
its sign has been put back. Between the first digit and the last the value is exact as
well (`Counts.exact`).
-/

namespace Flipbook.Text.Numeral

variable {front text run rest : List Char} {negative : Bool}

/-- The text begins with a number: at most one sign, a run of digits, and then no digit. -/
structure Begins (negative : Bool) (run rest text : List Char) : Prop where
  numeral : IsNumeral run
  signed : ∃ number, Signed negative run number ∧ text = number ++ rest
  stops : rest.head?.any Char.isDigit = false

/-- A digit, or a sign and a digit, is all it takes for a number to begin the text. -/
theorem startsAt_iff_begins :
    startsAt text = true ↔ ∃ negative run rest, Begins negative run rest text := by
  refine ⟨?_, ?_⟩
  · intro h
    obtain ⟨negative, run, number, rest, htext, hrun, hsigned, hrest⟩ := exists_of_startsAt h
    exact ⟨negative, run, rest, hrun, ⟨number, hsigned, htext⟩, hrest⟩
  · intro h
    obtain ⟨negative, run, rest, hrun, ⟨number, hsigned, rfl⟩, _⟩ := h
    exact hsigned.startsAt_append hrun rest

/-- The number that begins a text is read, or out of range where it begins. -/
theorem Begins.readValue_eq (h : Begins negative run rest text) :
    readValue text =
      match value? (signedNumber negative (Nat.ofDigitChars 10 run 0)) with
      | some v => .ok (v, rest)
      | none => .error ⟨.numberOverflow, text⟩ := by
  obtain ⟨number, hsigned, rfl⟩ := h.signed
  exact hsigned.readValue_append h.numeral h.stops

/-- The offset of a fault is the length of what lies before it. -/
theorem locate_append (reason : Reason) (front text : List Char) :
    Fault.locate ⟨reason, text⟩ (front ++ text) = ⟨reason, byteLength front⟩ := by
  rw [Fault.locate, byteLength_append, Nat.add_sub_cancel]

/-! ## The two readers -/

theorem readLength_at (hrun : IsNumeral run) (hrest : rest.head?.any Char.isDigit = false) :
    (readLength (run ++ rest)).mapError (·.locate (front ++ (run ++ rest))) =
      if Nat.ofDigitChars 10 run 0 < UInt32.size then
        .ok (some (Nat.ofDigitChars 10 run 0, rest))
      else .error ⟨.numberOverflow, byteLength front⟩ := by
  have hsize : Nat.ofDigitChars 10 run 0 < UInt32.size ↔
      Nat.ofDigitChars 10 run 0 ≤ Tick.last := Nat.lt_succ_iff
  rw [readLength_eq, splitDigits?_append hrun hrest]
  simp only [hsize]
  by_cases hle : Nat.ofDigitChars 10 run 0 ≤ Tick.last
  · rw [if_pos hle, if_pos hle, Except.mapError]
  · rw [if_neg hle, if_neg hle, Except.mapError, locate_append]

/-- A signed number within the limits is read with its exact value. -/
theorem Begins.exists_readValue (h : Begins negative run rest text)
    (hin : Int32.minValue.toInt ≤ signedNumber negative (Nat.ofDigitChars 10 run 0) ∧
      signedNumber negative (Nat.ofDigitChars 10 run 0) ≤ Int32.maxValue.toInt) :
    ∃ v : Int32, v.toInt = signedNumber negative (Nat.ofDigitChars 10 run 0) ∧
      readValue text = .ok (v, rest) := by
  have hsome : value? (signedNumber negative (Nat.ofDigitChars 10 run 0)) =
      some (Int32.ofInt (signedNumber negative (Nat.ofDigitChars 10 run 0))) := if_pos hin
  exact ⟨_, value?_eq_some_iff.mp hsome, by rw [h.readValue_eq, hsome]⟩

/-- A signed number beyond the limits is out of range where it begins. -/
theorem Begins.readValue_at (h : Begins negative run rest text)
    (hout : ¬ (Int32.minValue.toInt ≤ signedNumber negative (Nat.ofDigitChars 10 run 0) ∧
      signedNumber negative (Nat.ofDigitChars 10 run 0) ≤ Int32.maxValue.toInt)) :
    (readValue text).mapError (·.locate (front ++ text)) =
      .error ⟨.numberOverflow, byteLength front⟩ := by
  have hnone : value? (signedNumber negative (Nat.ofDigitChars 10 run 0)) = none := if_neg hout
  rw [h.readValue_eq, hnone]
  simp only [Except.mapError, locate_append]

theorem not_missingParameter_of_startsAt (h : startsAt text = true) (place : List Char) :
    readValue text ≠ .error ⟨.missingParameter, place⟩ := by
  obtain ⟨negative, run, rest, hbegins⟩ := startsAt_iff_begins.mp h
  rw [hbegins.readValue_eq]
  cases value? (signedNumber negative (Nat.ofDigitChars 10 run 0)) <;> simp

/-! ## The way to the last digit -/

/-- What has been read on the way is exact, and with one more digit it does not overflow. -/
theorem Counts.exact_and_lt_size {left : List Char} {value : Option UInt64}
    (h : Counts none text value left) :
    (∃ run, text = run ++ left ∧ (value.getD 0).toNat = Nat.ofDigitChars 10 run 0) ∧
      ∀ c, left.head? = some c → c.isDigit = true →
        (value.getD 0).toNat * 10 + (digitValue c).toNat < UInt64.size := by
  have hheld := h.le_last (Nat.zero_le _)
  obtain ⟨run, htext, _, hexact⟩ := h.exact (Nat.zero_le _)
  exact ⟨⟨run, htext, hexact⟩, fun c _ hc => pushDigit_lt_size hheld hc⟩

/-- Neither the change to a number with a sign nor the sign overflows. -/
theorem toInt_of_readMagnitude {number : List Char} {magnitude : UInt64}
    (h : readMagnitude number none text = .ok (some magnitude, rest)) :
    magnitude.toInt64.toInt = magnitude.toNat ∧
      (-magnitude.toInt64).toInt = -magnitude.toNat := by
  have hheld := le_last_of_readMagnitude h
  have hplain : (withSign false magnitude).toInt = signedNumber false magnitude.toNat :=
    toInt_withSign hheld
  have hnegated : (withSign true magnitude).toInt = signedNumber true magnitude.toNat :=
    toInt_withSign hheld
  exact ⟨hplain, hnegated⟩

/-- Behind any front, and for any number of digits: a length has the exact value of its
digits, up to 32 bits without a sign, and is out of range at its first digit otherwise.
Where a digit, or a sign and a digit, begins the text, a tag's number is read to its last
digit and has its exact value, if that is one of 32 bits with a sign; otherwise it is out
of range where it begins. It is never missing there. On the way the value is exactly that
of the digits that have been read, from where reading goes on, and with the next digit it
still fits into 64 bits, as it does with a sign. -/
theorem numbers_read_exactly (front : List Char) :
    (∀ run rest : List Char, IsNumeral run → rest.head?.any Char.isDigit = false →
      (readLength (run ++ rest)).mapError (·.locate (front ++ (run ++ rest))) =
        if Nat.ofDigitChars 10 run 0 < UInt32.size then
          .ok (some (Nat.ofDigitChars 10 run 0, rest))
        else .error ⟨.numberOverflow, byteLength front⟩) ∧
    (∀ text, startsAt text = true ↔ ∃ negative run rest, Begins negative run rest text) ∧
    (∀ negative run rest text, Begins negative run rest text →
      let n := signedNumber negative (Nat.ofDigitChars 10 run 0)
      (Int32.minValue.toInt ≤ n ∧ n ≤ Int32.maxValue.toInt →
          ∃ v : Int32, v.toInt = n ∧ readValue text = .ok (v, rest)) ∧
        (¬ (Int32.minValue.toInt ≤ n ∧ n ≤ Int32.maxValue.toInt) →
          (readValue text).mapError (·.locate (front ++ text)) =
            .error ⟨.numberOverflow, byteLength front⟩)) ∧
    (∀ text place, startsAt text = true → readValue text ≠ .error ⟨.missingParameter, place⟩) ∧
    (∀ text left value, Counts none text value left →
      (∀ number, readMagnitude number none text = readMagnitude number value left) ∧
        (∃ run, text = run ++ left ∧ (value.getD 0).toNat = Nat.ofDigitChars 10 run 0) ∧
        ∀ c, left.head? = some c → c.isDigit = true →
          (value.getD 0).toNat * 10 + (digitValue c).toNat < UInt64.size) ∧
    (∀ number text rest magnitude,
      readMagnitude number none text = .ok (some magnitude, rest) →
      magnitude.toInt64.toInt = magnitude.toNat ∧
        (-magnitude.toInt64).toInt = -magnitude.toNat) := by
  refine ⟨fun run rest hrun hrest => readLength_at hrun hrest,
    fun text => startsAt_iff_begins, ?_,
    fun text place h => not_missingParameter_of_startsAt h place, ?_, ?_⟩
  · intro negative run rest text hbegins
    exact ⟨hbegins.exists_readValue, hbegins.readValue_at⟩
  · intro text left value hcounts
    exact ⟨fun number => hcounts.readMagnitude_eq, hcounts.exact_and_lt_size⟩
  · intro number text rest magnitude hread
    exact toInt_of_readMagnitude hread

/-- Behind four characters, and with zeros in front: the greatest length and one more, the
least number of a tag and one less; and the first digit of two on the way. -/
theorem numbers_read_exactly_at_limits :
    let front := ['A', '1', '-', 's']
    (readLength "0004294967295-B2".toList).mapError
      (·.locate (front ++ "0004294967295-B2".toList)) =
        .ok (some (4294967295, ['-', 'B', '2'])) ∧
      (readLength "0004294967296".toList).mapError
        (·.locate (front ++ "0004294967296".toList)) =
        .error ⟨.numberOverflow, 4⟩ ∧
      startsAt "-002147483648B2".toList = true ∧
      (∃ v : Int32, v.toInt = -2147483648 ∧
        readValue "-002147483648B2".toList = .ok (v, ['B', '2'])) ∧
      (readValue "-002147483649B2".toList).mapError
        (·.locate (front ++ "-002147483649B2".toList)) =
        .error ⟨.numberOverflow, 4⟩ ∧
      readValue "-002147483649B2".toList ≠
        .error ⟨.missingParameter, "002147483649B2".toList⟩ ∧
      Counts none ['4', '2'] (some 4) ['2'] ∧
      readMagnitude [] none ['4', '2'] = readMagnitude [] (some 4) ['2'] ∧
      (4 : UInt64).toNat * 10 + (digitValue '2').toNat < UInt64.size ∧
      readMagnitude [] none ['4', '2'] = .ok (some 42, []) ∧
        (-(42 : UInt64).toInt64).toInt = -42 := by
  intro front
  obtain ⟨hlength, hstarts, hvalue, hthere, hway, hsign⟩ := numbers_read_exactly front
  have hgreatest : IsNumeral "0004294967295".toList := by decide
  have hgreater : IsNumeral "0004294967296".toList := by decide
  have hleast : Begins true "002147483648".toList ['B', '2'] "-002147483648B2".toList :=
    ⟨by decide, ⟨_, .minus _, rfl⟩, rfl⟩
  have hless : Begins true "002147483649".toList ['B', '2'] "-002147483649B2".toList :=
    ⟨by decide, ⟨_, .minus _, rfl⟩, rfl⟩
  have hfirst : Counts none ['4', '2'] (some 4) ['2'] := .digit rfl (by decide) (.here _ _)
  have hboth : readMagnitude [] none ['4', '2'] = .ok (some 42, []) := rfl
  refine ⟨hlength _ ['-', 'B', '2'] hgreatest rfl, hlength _ [] hgreater rfl,
    (hstarts _).mpr ⟨_, _, _, hleast⟩,
    (hvalue _ _ _ _ hleast).1 (by decide), (hvalue _ _ _ _ hless).2 (by decide),
    hthere _ _ ((hstarts _).mpr ⟨_, _, _, hless⟩), hfirst, (hway _ _ _ hfirst).1 [],
    (hway _ _ _ hfirst).2.2 '2' rfl rfl, hboth, (hsign _ _ _ _ hboth).2⟩

end Flipbook.Text.Numeral
