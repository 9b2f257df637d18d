import Flipbook.Toml.Node

/-!
# TOML numbers and booleans

Bare values are booleans, integers and floats. Reading a number settles only that it has the
shape of one: underscores stand between two digits, decimal integers have no leading zero,
and hexadecimal, octal and binary ones have no sign. Whether it has a value is another
matter. An integer has one if it has digits, all of its base, and fits into 128 bits, with
or without a sign. A float has one unless it is too large to be finite as a 64-bit float.
-/

namespace Flipbook.Toml

/-- The value of a digit, in any base up to sixteen. -/
def digitValue (c : Char) : Nat :=
  if c.isDigit then c.toNat - '0'.toNat else c.toLower.toNat - 'a'.toNat + 10

/-- The character is a digit in a base up to sixteen. -/
def isDigitIn (base : Nat) (c : Char) : Bool :=
  (c.isDigit || 'a' ≤ c.toLower && c.toLower ≤ 'f') && digitValue c < base

/-- The number that digits stand for. -/
def numberIn (base : Nat) (digits : List Char) : Nat :=
  digits.foldl (fun n c => base * n + digitValue c) 0

/-- Every underscore stands between two digits; `behind` says whether a digit stands
before the text. -/
def separates (digit : Char → Bool) (behind : Bool) : List Char → Bool
  | [] => true
  | '_' :: rest => behind && (rest.head?.map digit).getD false && separates digit false rest
  | c :: rest => separates digit (digit c) rest

/-- The characters without the underscores among them. -/
def withoutUnderscores (text : List Char) : List Char :=
  text.filter (· != '_')

/-- The least integer of 128 bits with a sign. -/
def leastInteger : Int := -170141183460469231731687303715884105728

/-- The greatest integer of 128 bits without a sign. -/
def greatestInteger : Int := 340282366920938463463374607431768211455

/-- The value of an integer: it has digits, all of its base, and fits into 128 bits. -/
def integerValue? (base : Nat) (negative : Bool) (digits : List Char) : Option Int :=
  if !digits.isEmpty && digits.all (isDigitIn base) then
    let n : Int := numberIn base digits
    let n := if negative then -n else n
    if leastInteger ≤ n ∧ n ≤ greatestInteger then some n else none
  else none

/-- An unsigned integer in another base than ten, which may lack its digits. -/
def basedInteger? (base : Nat) (text : List Char) : Option Node :=
  let digits := withoutUnderscores text
  if digits.all (isDigitIn base) && separates (isDigitIn base) false text then
    some (.integer (integerValue? base false digits))
  else none

/-- Whether a sign is a minus, and what follows it; none without a sign. -/
def sign? : List Char → Option (Bool × List Char)
  | '-' :: rest => some (true, rest)
  | '+' :: rest => some (false, rest)
  | _ => none

/-- A decimal integer behind its sign. Underscores are looked at as in any other base; an
integer with something else than decimal digits between them has no value. -/
def decimalInteger? (negative : Bool) (body : List Char) : Option Node :=
  if (body == ['0'] || body.head? != some '0') && separates (isDigitIn 16) false body then
    some (.integer (integerValue? 10 negative (withoutUnderscores body)))
  else none

/-- The number of `digits` times ten to the power of `exponent` is below the least that rounds
to infinity as a 64-bit float. Only a number of about that size needs to be worked out. -/
def isFinite (digits : List Char) (exponent : Int) : Bool :=
  let significant := digits.dropWhile (· == '0')
  let size : Int := significant.length + exponent
  if significant.isEmpty || size < 300 then true
  else if 320 < size then false
  else
    let n := numberIn 10 significant
    n * Nat.pow 10 exponent.toNat <
      (Nat.pow 2 1024 - Nat.pow 2 970) * Nat.pow 10 (-exponent).toNat

/-- The character may stand in a run of decimal digits. -/
def isGrouped (c : Char) : Bool :=
  c.isDigit || c == '_'

/-- Takes a run of decimal digits, at least one, and underscores off the front. The answer
is the digits and what follows. -/
def takeDigits? (text : List Char) : Option (List Char × List Char) :=
  match withoutUnderscores (text.takeWhile isGrouped) with
  | [] => none
  | digits => some (digits, text.dropWhile isGrouped)

/-- The digits after a point, which may be missing, and what follows. -/
def fraction? : List Char → Option (List Char × List Char)
  | '.' :: rest => takeDigits? rest
  | rest => some ([], rest)

/-- The exponent that makes up the rest of a float, which may be missing. -/
def exponent? : List Char → Option Int
  | [] => some 0
  | mark :: rest =>
    if mark == 'e' || mark == 'E' then
      let (negative, digits) := (sign? rest).getD (false, rest)
      match takeDigits? digits with
      | some (digits, []) =>
        let n : Int := numberIn 10 digits
        some (if negative then -n else n)
      | _ => none
    else none

/-- A float behind its sign. -/
def float? (body : List Char) : Option Node := do
  let (whole, rest) ← takeDigits? body
  let (fraction, rest) ← fraction? rest
  let exponent ← exponent? rest
  if (body.head? != some '0' || whole.length == 1) && separates Char.isDigit false body then
    some (.float (isFinite (whole ++ fraction) (exponent - fraction.length)))
  else none

/-- The character tells a float from an integer. -/
def isFloatMark (c : Char) : Bool :=
  c == '.' || c == 'e' || c == 'E'

/-- A decimal number behind its sign: a float if there is a mark of one, and else an
integer, which has digits alone before its first underscore. -/
def decimal? (negative : Bool) (body : List Char) : Option Node :=
  match body.dropWhile Char.isDigit with
  | [] => if body.isEmpty then none else decimalInteger? negative body
  | c :: rest =>
    if (c :: rest).any isFloatMark then float? body
    else if c == '_' then decimalInteger? negative body
    else none

/-- The number of a token. -/
def number? (token : List Char) : Option Node :=
  match token with
  | '0' :: 'x' :: digits => basedInteger? 16 digits
  | '0' :: 'o' :: digits => basedInteger? 8 digits
  | '0' :: 'b' :: digits => basedInteger? 2 digits
  | _ =>
    let (negative, body) := (sign? token).getD (false, token)
    if body = "inf".toList ∨ body = "nan".toList then some (.float true)
    else decimal? negative body

/-- The value that a bare token stands for. -/
def scalar? (token : List Char) : Option Node :=
  if token = "true".toList then some (.boolean true)
  else if token = "false".toList then some (.boolean false)
  else number? token

end Flipbook.Toml
