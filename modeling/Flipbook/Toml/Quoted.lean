/-!
# TOML strings

A basic string stands in double quotes and may hold escapes; a literal string stands in
single quotes and holds none. Neither spans lines.
-/

namespace Flipbook.Toml

/-- The character may stand in a string or a comment: a tab, or no control character. -/
def isText (c : Char) : Bool :=
  c == '\t' || (32 ≤ c.toNat && c.toNat ≠ 127)

/-- What an escape needs next: a letter that names it, or hexadecimal digits of a
character's number. -/
inductive Escape where
  | letter
  | digits (left number : Nat)
  deriving DecidableEq, Repr

/-- The character or the digits that the letter of an escape calls for. -/
def Escape.ofLetter? (c : Char) : Option (Char ⊕ Escape) :=
  match c with
  | 'b' => some (.inl (Char.ofNat 8))
  | 't' => some (.inl '\t')
  | 'n' => some (.inl '\n')
  | 'f' => some (.inl (Char.ofNat 12))
  | 'r' => some (.inl '\r')
  | 'e' => some (.inl (Char.ofNat 27))
  | '"' => some (.inl '"')
  | '\\' => some (.inl '\\')
  | 'x' => some (.inr (.digits 2 0))
  | 'u' => some (.inr (.digits 4 0))
  | 'U' => some (.inr (.digits 8 0))
  | _ => none

/-- The value of a hexadecimal digit. -/
def hexDigit? (c : Char) : Option Nat :=
  if c.isDigit then some (c.toNat - '0'.toNat)
  else if 'a' ≤ c.toLower ∧ c.toLower ≤ 'f' then some (c.toLower.toNat - 'a'.toNat + 10)
  else none

/-- Reads the rest of a basic string, given what has been read of it, latest first, and the
escape that is under way. The answer is the string and what follows its closing quote. -/
def readBasic (read : List Char) (escape : Option Escape) :
    List Char → Option (String × List Char)
  | [] => none
  | c :: text =>
    match escape with
    | none =>
      if c = '"' then some (String.ofList read.reverse, text)
      else if c = '\\' then readBasic read (some .letter) text
      else if isText c then readBasic (c :: read) none text
      else none
    | some .letter =>
      match Escape.ofLetter? c with
      | none => none
      | some (.inl d) => readBasic (d :: read) none text
      | some (.inr next) => readBasic read (some next) text
    | some (.digits left number) =>
      match hexDigit? c with
      | none => none
      | some d =>
        let number := 16 * number + d
        if 1 < left then readBasic read (some (.digits (left - 1) number)) text
        else if number.isValidChar then readBasic (Char.ofNat number :: read) none text
        else none

/-- Reads the rest of a literal string. -/
def readLiteral (text : List Char) : Option (String × List Char) :=
  match text.dropWhile fun c => isText c && c != '\'' with
  | '\'' :: rest => some (String.ofList (text.takeWhile fun c => isText c && c != '\''), rest)
  | _ => none

end Flipbook.Toml
