import Flipbook.Text.Encode

/-!
# Writing into a buffer of fixed size

A script is written into the front of a buffer, piece by piece, if the buffer is long
enough for all of it; otherwise the buffer is left alone.
-/

namespace Flipbook.Text

/-- The buffer is too short for the text. -/
structure BufferTooSmall where
  needed : Nat
  available : Nat
  deriving DecidableEq, Repr

/-- The refusal in words. -/
def BufferTooSmall.message (e : BufferTooSmall) : String :=
  s!"output buffer too small: need {e.needed} bytes, have {e.available}"

/-- A buffer that is being filled: the bytes written so far, latest first, and the bytes
still to be overwritten. -/
structure Filling where
  written : List UInt8
  free : List UInt8

namespace Filling

/-- All bytes of the buffer. -/
def bytes (b : Filling) : List UInt8 :=
  b.written.reverse ++ b.free

/-- Write a piece of ASCII text, if there is room for all of it. -/
def write? (b : Filling) (piece : List Char) : Option Filling :=
  if piece.length ≤ b.free.length then
    let bytes := piece.map fun c => UInt8.ofNat c.toNat
    some ⟨bytes.reverse ++ b.written, b.free.drop piece.length⟩
  else none

/-- Write pieces one after another. A piece without room ends it, and what was
written before stays. -/
def writeAll (b : Filling) : List (List Char) → Except Filling Filling
  | [] => .ok b
  | piece :: rest =>
    match b.write? piece with
    | none => .error b
    | some b => b.writeAll rest

end Filling

end Flipbook.Text

namespace Flipbook

/-- The pieces in which a number is written: a minus sign if it is negative, and the digits. -/
def Text.Numeral.pieces (v : Int32) : List (List Char) :=
  (if v.toInt < 0 then [['-']] else []) ++ [digits v.toInt.natAbs]

/-- The pieces in which a tag is written. -/
def Tag.pieces (tag : Tag) : List (List Char) :=
  tag.kind.code ::
    match tag.value with
    | none => []
    | some v => Text.Numeral.pieces v

/-- The pieces in which a frame is written. -/
def Frame.pieces (f : Frame) : List (List Char) :=
  f.tags.flatMap Tag.pieces ++ [[f.letter], Text.Numeral.digits f.length]

/-- The pieces in which a script is written. -/
def Script.pieces (s : Script) : List (List Char) :=
  ((s.frames.map Frame.pieces).intersperse [[Text.separator]]).flatten

/-- Write a script into the front of a buffer. The answer is the number of bytes written,
or the refusal, and the bytes of the buffer afterwards. -/
def Script.encodeInto (s : Script) (buffer : List UInt8) :
    Except Text.BufferTooSmall Nat × List UInt8 :=
  let tooSmall : Text.BufferTooSmall := ⟨s.encodedLength, buffer.length⟩
  if buffer.length < s.encodedLength then (.error tooSmall, buffer)
  else
    match (Text.Filling.mk [] buffer).writeAll s.pieces with
    | .error filled => (.error tooSmall, filled.bytes)
    | .ok filled => (.ok filled.written.length, filled.bytes)

end Flipbook
