import Flipbook.Script.Timeline

/-!
# Playback settings

Settings say how a script is played: what the number of a jump means, whether playback
starts over at the end, and after which frame it ends.
-/

namespace Flipbook

/-- What the number of a jump tag means. -/
inductive JumpRule where
  /-- A tick of the animation. -/
  | absoluteTick
  /-- The index of the frame to show. -/
  | frameIndex
  /-- A number of ticks from the start of the frame that carries the jump. -/
  | relative
  deriving DecidableEq, Repr

namespace JumpRule

/-- Every rule. -/
def all : List JumpRule :=
  [.absoluteTick, .frameIndex, .relative]

/-- The word for a rule in settings. -/
def name : JumpRule → String
  | .absoluteTick => "absolute-tick"
  | .frameIndex => "frame-index"
  | .relative => "relative"

/-- The rule of a name. -/
def ofName? (name : String) : Option JumpRule :=
  all.find? (·.name == name)

/-- The tick of the animation to which a jump with this number leads from a frame. Ticks
before the start count as the start, and a frame past the last one as the end. -/
def target (rule : JumpRule) (s : Script) (index : Nat) (number : Int32) : Nat :=
  match rule with
  | .absoluteTick => number.toInt.toNat
  | .frameIndex => if number.toInt < 0 then 0 else (s.start? number.toInt.toNat).getD s.total
  | .relative =>
    match s.start? index with
    | some start => (start + number.toInt).toNat
    | none => s.total

end JumpRule

/-- How a script is played. -/
structure Settings where
  jumpRule : JumpRule
  repeats : Bool
  endFrame : Option Nat
  deriving DecidableEq, Repr

namespace Settings

/-- Jumps by tick, play once, to the end. -/
def standard : Settings := ⟨.absoluteTick, false, none⟩

/-- The index of the frame after which playback ends or starts over. -/
def lastFrame (settings : Settings) (s : Script) : Nat :=
  match settings.endFrame with
  | none => s.count - 1
  | some index => min index (s.count - 1)

end Settings

end Flipbook
