import Flipbook.Script.Basic

/-!
# Which frame shows when

A frame shows from its first tick up to the tick at which it is left, so that a frame of
length zero never shows and nothing shows once the whole animation has passed.
-/

namespace Flipbook.Script

/-- The index of the frame that shows at a tick: the first one that ends later. -/
def indexAt? (s : Script) (tick : Nat) : Option Nat :=
  s.ends.findIdx? (tick < ·)

/-- The frame that shows at a tick. -/
def frameAt? (s : Script) (tick : Nat) : Option Frame :=
  (s.indexAt? tick).bind s.frame?

/-- Two ticks show different frames. -/
def changes (s : Script) (a b : Nat) : Bool :=
  a != b && s.indexAt? a != s.indexAt? b

/-- A tick falls on the first frame. -/
def isFirstAt (s : Script) (tick : Nat) : Bool :=
  s.indexAt? tick == some 0

/-- A tick falls on the last frame. -/
def isLastAt (s : Script) (tick : Nat) : Bool :=
  s.indexAt? tick == some (s.count - 1)

/-- The first frame that starts after a tick and satisfies `p`. No frame starts after the
end of the animation, so a later tick is answered at once. -/
def nextWhere? (s : Script) (tick : Nat) (p : Frame → Bool) : Option Nat :=
  if s.total < tick then none
  else (s.frames.zip s.ends).findIdx? fun (frame, finish) =>
    tick < finish - frame.length && p frame

/-- The first frame that starts after a tick and shows a sprite. -/
def nextWithSprite? (s : Script) (sprite tick : Nat) : Option Nat :=
  s.nextWhere? tick (·.sprite == sprite)

/-- The first frame that starts after a tick and carries a tag with the mnemonic. -/
def nextWithTag? (s : Script) (mnemonic : String) (tick : Nat) : Option Nat :=
  (Tag.Kind.ofMnemonic? mnemonic).bind fun kind =>
    s.nextWhere? tick fun frame => (frame.tagOf? kind).isSome

end Flipbook.Script
