import Flipbook.Sprite
import Flipbook.Tag.Basic

/-!
# Frames

A frame shows one sprite for a number of ticks and carries tags in the order in which they
were written. Where a kind is repeated on a frame, the last one counts.
-/

namespace Flipbook

/-- One sprite shown for a fixed number of ticks. -/
structure Frame where
  sprite : Nat
  length : Nat
  tags : List Tag
  deriving DecidableEq, Repr

/-- What a frame asks for its child animations. -/
inductive ChildRemoval where
  /-- Every child of this animation goes. -/
  | all
  /-- The child that was spawned with this number goes. -/
  | one (child : Int32)
  deriving DecidableEq, Repr

namespace Frame

/-- A frame without tags. -/
def blank (sprite length : Nat) : Except Refusal Frame :=
  if sprite ≤ Sprite.last then .ok ⟨sprite, length, []⟩ else .error (.spriteOutOfRange sprite)

/-- The capital letter of the frame's sprite. -/
def letter (f : Frame) : Char :=
  Sprite.letter f.sprite

/-- The last tag of a kind on the frame. -/
def tagOf? (f : Frame) (kind : Tag.Kind) : Option Tag :=
  f.tags.reverse.find? (·.kind == kind)

/-- The last tag with a mnemonic on the frame. -/
def tag? (f : Frame) (mnemonic : String) : Option Tag :=
  (Tag.Kind.ofMnemonic? mnemonic).bind f.tagOf?

/-- The frame carries a tag with the mnemonic. -/
def hasTag (f : Frame) (mnemonic : String) : Bool :=
  (f.tag? mnemonic).isSome

/-- The number of the last tag of a kind on the frame. -/
def valueOf? (f : Frame) (kind : Tag.Kind) : Option Int32 :=
  (f.tagOf? kind).bind (·.value)

/-- The number of the last tag with a mnemonic on the frame. -/
def value? (f : Frame) (mnemonic : String) : Option Int32 :=
  (f.tag? mnemonic).bind (·.value)

/-- The frame with one more tag at the end. -/
def pushTag (f : Frame) (mnemonic : String) (value : Option Int32) : Except Refusal Frame :=
  (Tag.make mnemonic value).map fun tag => { f with tags := f.tags ++ [tag] }

/-- The removal of children that the frame asks for. -/
def childRemoval? (f : Frame) : Option ChildRemoval :=
  (f.tagOf? .destroyChild).map fun tag =>
    match tag.value with
    | none => .all
    | some child => .one child

end Frame

end Flipbook
