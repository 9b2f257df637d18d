import Flipbook.Script.Basic
import Flipbook.Text.Token

/-!
# The language of animation text

What a text denotes, said without reading it: a text is spelled by a row of tokens, each
of them written in one of its spellings, and the frames among the tokens, each with the
tags since the frame before it, make up the script. A number may have leading zeros and a
plus sign, and separators may stand anywhere between tokens, so a script has many texts.
-/

namespace Flipbook.Text

/-- A row of decimal digits. -/
def IsNumeral (digits : List Char) : Prop :=
  digits ≠ [] ∧ ∀ c ∈ digits, c.isDigit = true

instance (digits : List Char) : Decidable (IsNumeral digits) :=
  decidable_of_iff ((!digits.isEmpty && digits.all Char.isDigit) = true) (by
    rw [IsNumeral, Bool.and_eq_true, Bool.not_eq_true', List.isEmpty_eq_false_iff,
      List.all_eq_true])

/-- The characters in which a token may be written. -/
inductive Token.Spelling : Token → List Char → Prop where
  | separator : Spelling .separator [Text.separator]
  | frame {c : Char} {digits : List Char} {sprite : Nat}
      (letter : Sprite.ofLetter? c = some sprite) (length : IsNumeral digits) :
      Spelling (.frame sprite (Nat.ofDigitChars 10 digits 0)) (c :: digits)
  | bare {kind : Tag.Kind} (optional : kind.parameter ≠ .required) :
      Spelling (.tag ⟨kind, none⟩) kind.code
  | unsigned {kind : Tag.Kind} {digits : List Char} {value : Int32}
      (taken : kind.parameter ≠ .none) (numeral : IsNumeral digits)
      (same : value.toInt = Nat.ofDigitChars 10 digits 0) :
      Spelling (.tag ⟨kind, some value⟩) (kind.code ++ digits)
  | plus {kind : Tag.Kind} {digits : List Char} {value : Int32}
      (taken : kind.parameter ≠ .none) (unambiguous : kind.bareAxis = false)
      (numeral : IsNumeral digits) (same : value.toInt = Nat.ofDigitChars 10 digits 0) :
      Spelling (.tag ⟨kind, some value⟩) (kind.code ++ '+' :: digits)
  | minus {kind : Tag.Kind} {digits : List Char} {value : Int32}
      (taken : kind.parameter ≠ .none) (unambiguous : kind.bareAxis = false)
      (numeral : IsNumeral digits)
      (same : value.toInt = -(Nat.ofDigitChars 10 digits 0 : Int)) :
      Spelling (.tag ⟨kind, some value⟩) (kind.code ++ '-' :: digits)

/-- The characters in which a row of tokens may be written. -/
inductive Spelling : List Token → List Char → Prop where
  | nil : Spelling [] []
  | cons {token : Token} {tokens : List Token} {first rest : List Char}
      (head : token.Spelling first) (tail : Spelling tokens rest) :
      Spelling (token :: tokens) (first ++ rest)

/-- The frames of a row of tokens, each with the tags since the frame before it, the
first one also with the tags `pending` from before the row; and the tags that are left
after the last frame. -/
def framesOf (pending : List Tag) : List Token → List Frame × List Tag
  | [] => ([], pending)
  | .separator :: tokens => framesOf pending tokens
  | .tag tag :: tokens => framesOf (pending ++ [tag]) tokens
  | .frame sprite length :: tokens =>
    let (frames, left) := framesOf [] tokens
    (⟨sprite, length, pending⟩ :: frames, left)

/-- A text stands for a script: some tokens spell it, no tag is left after the last frame,
and the script is the one of the frames. -/
def Denotes (text : List Char) (s : Script) : Prop :=
  ∃ tokens, Spelling tokens text ∧ (framesOf [] tokens).2 = [] ∧
    Script.ofFrames (framesOf [] tokens).1 = .ok s

end Flipbook.Text
