import Flipbook.Text.Fault

/-!
# Pointing at a fault

A diagnostic shows the text with a caret under the place of its fault. The place is a
count of bytes; the caret's column is a count of characters, so that the two line up
whatever stands before.
-/

namespace Flipbook.Text

/-- The number of characters in the first `offset` bytes of a text; none if these end
inside a character or past the text. -/
def charsBefore? (offset : Nat) : List Char → Option Nat
  | [] => if offset = 0 then some 0 else none
  | c :: text =>
    if offset = 0 then some 0
    else if c.utf8Size ≤ offset then (charsBefore? (offset - c.utf8Size) text).map (· + 1)
    else none

/-- The text of an error, and under it a caret at the error's place. -/
def diagnostic (text : String) (e : DecodeError) : String :=
  let column := (charsBefore? e.offset text.toList).getD e.offset
  s!"  {text}\n  " ++ String.ofList (List.replicate column ' ') ++ "^"

end Flipbook.Text
