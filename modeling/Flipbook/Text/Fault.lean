/-!
# Faults in animation text

Reading stops at the first fault. A fault keeps the text from its place on, so that its
offset is what lies before: the bytes of the whole text less the bytes of that rest.
-/

namespace Flipbook.Text

/-- What is wrong at a place of a text. -/
inductive Reason where
  /-- No tag of the vocabulary, or a number after one that takes none. -/
  | invalidTag
  /-- A tag without its number. -/
  | missingParameter
  /-- A frame letter without its length. -/
  | missingLength
  /-- A number, or the total of the lengths, that is out of range. -/
  | numberOverflow
  /-- Tags after the last frame. -/
  | danglingTags
  /-- No frame in the whole text. -/
  | emptyScript
  deriving DecidableEq, Repr

/-- The reason in words. -/
def Reason.message : Reason → String
  | .invalidTag => "invalid tag"
  | .missingParameter => "missing tag parameter"
  | .missingLength => "missing frame tick length"
  | .numberOverflow => "number out of range"
  | .danglingTags => "tags without a closing frame"
  | .emptyScript => "no frames"

/-- A reason and the text from the place on at which it arises. -/
structure Fault where
  reason : Reason
  rest : List Char
  deriving DecidableEq, Repr

/-- A reason and the number of bytes before its place. -/
structure DecodeError where
  reason : Reason
  offset : Nat
  deriving DecidableEq, Repr

/-- The error in words. -/
def DecodeError.message (e : DecodeError) : String :=
  s!"{e.reason.message} at byte {e.offset}"

/-- The number of bytes in which a text is stored. -/
def byteLength (text : List Char) : Nat :=
  text.foldr (fun c n => c.utf8Size + n) 0

/-- A fault in a text, with its place counted in bytes from the start of the text. -/
def Fault.locate (f : Fault) (text : List Char) : DecodeError :=
  ⟨f.reason, byteLength text - byteLength f.rest⟩

end Flipbook.Text
