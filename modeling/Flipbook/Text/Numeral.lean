import Flipbook.Text.Fault
import Flipbook.Tick

/-!
# Numbers in animation text

Lengths are digits; the numbers of tags may have one sign before the digits. Reading adds
up the longest run of digits, of any length, and refuses a value that is out of range at
the place where the number begins. The value is kept in 64 bits, which are enough because
reading stops at the first digit that takes it past the clock's last tick. Writing gives
the fewest digits and a minus sign where one is needed.
-/

namespace Flipbook.Text.Numeral

/-- The decimal digits of a number, without leading zeros. -/
def digits (n : Nat) : List Char :=
  Nat.toDigits 10 n

/-- The decimal digits of a number, after a minus sign if it is negative. -/
def signedDigits (v : Int32) : List Char :=
  if v.toInt < 0 then '-' :: digits v.toInt.natAbs else digits v.toInt.natAbs

/-- The number of decimal digits of a number. -/
def digitCount (n : Nat) : Nat :=
  if n < 10 then 1 else digitCount (n / 10) + 1

/-- The number of characters of a number with its sign. -/
def signedLength (v : Int32) : Nat :=
  (if v.toInt < 0 then 1 else 0) + digitCount v.toInt.natAbs

/-- The value of a decimal digit. -/
def digitValue (c : Char) : UInt64 :=
  UInt64.ofNat (c.toNat - '0'.toNat)

/-- What a digit behind others makes of their value, which is none for the first digit. -/
def pushDigit (value : Option UInt64) (c : Char) : UInt64 :=
  value.getD 0 * 10 + digitValue c

/-- Reads the digits at the start of a text, behind digits of this value. The answer is
the value of them all, which is none if there is no digit, and the text after them. A
value that the clock cannot hold is a fault at `number`, where the number begins, and the
digits after it are not read. -/
def readMagnitude (number : List Char) (value : Option UInt64) :
    List Char → Except Fault (Option UInt64 × List Char)
  | [] => .ok (value, [])
  | c :: text =>
    if c.isDigit then
      let next := pushDigit value c
      if next.toNat ≤ Tick.last then readMagnitude number (some next) text
      else .error ⟨.numberOverflow, number⟩
    else .ok (value, c :: text)

/-- Reads a length: none without a digit, a fault at the first digit of one that the
clock cannot hold. -/
def readLength (text : List Char) : Except Fault (Option (Nat × List Char)) :=
  match readMagnitude text none text with
  | .error fault => .error fault
  | .ok (none, _) => .ok none
  | .ok (some magnitude, rest) =>
    if magnitude.toNat ≤ Tick.last then .ok (some (magnitude.toNat, rest))
    else .error ⟨.numberOverflow, text⟩

/-- A digit, or a sign and a digit, starts the text. -/
def startsAt : List Char → Bool
  | '+' :: c :: _ => c.isDigit
  | '-' :: c :: _ => c.isDigit
  | c :: _ => c.isDigit
  | [] => false

/-- Whether a minus sign starts the text, and the text after an optional sign. -/
def splitSign : List Char → Bool × List Char
  | '-' :: rest => (true, rest)
  | '+' :: rest => (false, rest)
  | text => (false, text)

/-- The 32-bit value of a number, if it has one. -/
def value? (n : Int) : Option Int32 :=
  if Int32.minValue.toInt ≤ n ∧ n ≤ Int32.maxValue.toInt then some (Int32.ofInt n) else none

/-- The number of this magnitude and sign, in 64 bits. -/
def withSign (negative : Bool) (magnitude : UInt64) : Int64 :=
  if negative then -magnitude.toInt64 else magnitude.toInt64

/-- Reads a tag's number: an optional sign and a run of digits, as a 32-bit value. A fault
stands where the number begins. -/
def readValue (text : List Char) : Except Fault (Int32 × List Char) :=
  let (negative, body) := splitSign text
  match readMagnitude text none body with
  | .error fault => .error fault
  | .ok (none, _) => .error ⟨.missingParameter, text⟩
  | .ok (some magnitude, rest) =>
    match value? (withSign negative magnitude).toInt with
    | some v => .ok (v, rest)
    | none => .error ⟨.numberOverflow, text⟩

/-- What follows a run of digits is no longer than the text. -/
theorem length_le_of_readMagnitude {number text rest : List Char} {value last : Option UInt64}
    (h : readMagnitude number value text = .ok (last, rest)) : rest.length ≤ text.length := by
  induction text generalizing value with
  | nil => cases h; exact Nat.le_refl _
  | cons c text ih =>
    simp only [readMagnitude] at h
    split at h
    · split at h
      · exact Nat.le_succ_of_le (ih h)
      · cases h
    · cases h
      exact Nat.le_refl _

/-- What follows an optional sign is no longer than the text. -/
theorem length_splitSign_le (text : List Char) : (splitSign text).2.length ≤ text.length := by
  unfold splitSign
  split <;> simp

/-- What follows a length is no longer than the text. -/
theorem length_le_of_readLength {text rest : List Char} {n : Nat}
    (h : readLength text = .ok (some (n, rest))) : rest.length ≤ text.length := by
  unfold readLength at h
  split at h
  · cases h
  · cases h
  · next hm =>
    split at h
    · cases h
      exact length_le_of_readMagnitude hm
    · cases h

/-- What follows a tag's number is no longer than the text. -/
theorem length_le_of_readValue {text rest : List Char} {v : Int32}
    (h : readValue text = .ok (v, rest)) : rest.length ≤ text.length := by
  simp only [readValue] at h
  split at h
  · cases h
  · cases h
  · next hm =>
    split at h
    · cases h
      exact Nat.le_trans (length_le_of_readMagnitude hm) (length_splitSign_le text)
    · cases h

end Flipbook.Text.Numeral
