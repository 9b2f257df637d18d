/-!
# Sprites

A frame shows one of twenty-six sprites, numbered from zero and written as a capital letter.
-/

namespace Flipbook.Sprite

/-- The highest sprite number. -/
def last : Nat := 25

/-- The letter of a sprite; meant for numbers up to `last`. -/
def letter (sprite : Nat) : Char :=
  Char.ofNat ('A'.toNat + sprite)

/-- The letter of a sprite, if there is such a sprite. -/
def letter? (sprite : Nat) : Option Char :=
  if sprite ≤ last then some (letter sprite) else none

/-- The sprite that a capital letter stands for. -/
def ofLetter? (c : Char) : Option Nat :=
  if c.isUpper then some (c.toNat - 'A'.toNat) else none

end Flipbook.Sprite
