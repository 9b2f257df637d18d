import Flipbook.Script.Basic
import Flipbook.Text.Token

/-!
# Reading animation text

Tokens are read from left to right into a draft. Tags wait in the draft until a frame
takes them; each frame is closed at the running total of the lengths. The text is a script
if it has a frame and no tag is left waiting at its end.
-/

namespace Flipbook.Text

/-- What has been read so far, latest first: the closed frames, their ends, and the tags
that wait for the next frame. -/
structure Draft where
  frames : List Frame
  ends : List Nat
  pending : List Tag
  deriving DecidableEq, Repr

namespace Draft

/-- The draft before the first token. -/
def empty : Draft := ⟨[], [], []⟩

/-- The draft after one more token; none if the total of the lengths passes the
clock's last tick. -/
def add? (d : Draft) : Token → Option Draft
  | .separator => some d
  | .tag tag => some { d with pending := tag :: d.pending }
  | .frame sprite length =>
    let finish := d.ends.headD 0 + length
    if finish ≤ Tick.last then
      some ⟨⟨sprite, length, d.pending.reverse⟩ :: d.frames, finish :: d.ends, []⟩
    else none

/-- The script that a draft amounts to at the end of the text. -/
def close (d : Draft) : Except Reason Script :=
  if !d.pending.isEmpty then .error .danglingTags
  else if d.frames.isEmpty then .error .emptyScript
  else .ok ⟨d.frames.reverse, d.ends.reverse⟩

/-- Reads the rest of a text into a draft. Only a frame can pass the clock's last tick,
and the fault then stands behind its letter, where its length begins. -/
def read (d : Draft) : List Char → Except Fault Script
  | [] => d.close.mapError fun reason => ⟨reason, []⟩
  | c :: text =>
    match _h : Token.read c text with
    | .error fault => .error fault
    | .ok (token, rest) =>
      match d.add? token with
      | none => .error ⟨.numberOverflow, text⟩
      | some next => next.read rest
termination_by text => text.length
decreasing_by
  have := Token.length_le_of_read _h
  simp only [List.length_cons]
  omega

end Draft

/-- The script that a text, given by its characters, stands for. -/
def decodeChars (text : List Char) : Except DecodeError Script :=
  (Draft.empty.read text).mapError (·.locate text)

/-- The script that a text stands for. -/
def decode (text : String) : Except DecodeError Script :=
  decodeChars text.toList

end Flipbook.Text
