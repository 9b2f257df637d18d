import Flipbook.Script.Basic
import Flipbook.Text.Token

/-!
# Writing animation text

A script has one canonical text: the tags of each frame in order, its letter and its
length, with one separator between frames. Its length can be told without writing it.
-/

namespace Flipbook

/-- The text of a tag: its code and its number. -/
def Tag.chars (tag : Tag) : List Char :=
  tag.kind.code ++ (tag.value.map Text.Numeral.signedDigits).getD []

/-- The text of a tag as a string. -/
def Tag.text (tag : Tag) : String :=
  String.ofList tag.chars

/-- The text of a frame: its tags, its letter and its length. -/
def Frame.chars (f : Frame) : List Char :=
  f.tags.flatMap Tag.chars ++ f.letter :: Text.Numeral.digits f.length

/-- The text of a frame as a string. -/
def Frame.text (f : Frame) : String :=
  String.ofList f.chars

namespace Script

/-- The canonical text of a script: its frames, joined by separators. -/
def chars (s : Script) : List Char :=
  [Text.separator].intercalate (s.frames.map Frame.chars)

/-- The canonical text of a script as a string. -/
def text (s : Script) : String :=
  String.ofList s.chars

end Script

/-- The number of bytes of a tag's text. -/
def Tag.encodedLength (tag : Tag) : Nat :=
  tag.kind.code.length + (tag.value.map Text.Numeral.signedLength).getD 0

/-- The number of bytes of a frame's text. -/
def Frame.encodedLength (f : Frame) : Nat :=
  f.tags.foldr (fun tag n => tag.encodedLength + n) 0 + 1 + Text.Numeral.digitCount f.length

/-- The number of bytes of a script's canonical text. -/
def Script.encodedLength (s : Script) : Nat :=
  s.frames.foldr (fun f n => f.encodedLength + n) 0 + (s.count - 1)

end Flipbook
