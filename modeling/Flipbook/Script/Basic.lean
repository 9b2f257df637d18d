import Flipbook.Frame
import Flipbook.Tick

/-!
# Scripts

A script is an animation: its frames in playing order, and beside each frame the tick at
which it is left. The end ticks are kept so that a look-up by time need not add lengths up
again; `ofFrames` and the edits keep them equal to the running totals of the lengths, and
refuse totals that the clock cannot hold.
-/

namespace Flipbook

/-- The frames of an animation and the tick at which each is left. -/
structure Script where
  frames : List Frame
  ends : List Nat
  deriving DecidableEq, Repr

namespace Script

/-- The running totals of the lengths of the frames, from `total` ticks before them on;
none if one of them is past the clock's last tick. -/
def endsFrom (total : Nat) : List Frame → Option (List Nat)
  | [] => some []
  | f :: rest =>
    let finish := total + f.length
    if finish ≤ Tick.last then (endsFrom finish rest).map (finish :: ·) else none

/-- The script of these frames. -/
def ofFrames (frames : List Frame) : Except Refusal Script :=
  match frames with
  | [] => .error .emptyScript
  | _ =>
    match endsFrom 0 frames with
    | none => .error .tickOverflow
    | some ends => .ok ⟨frames, ends⟩

/-- The number of frames. -/
def count (s : Script) : Nat :=
  s.frames.length

/-- A frame by its index. -/
def frame? (s : Script) (index : Nat) : Option Frame :=
  s.frames[index]?

/-- The length of the whole animation in ticks. -/
def total (s : Script) : Nat :=
  s.ends.getLast?.getD 0

/-- The tick at which a frame is left. -/
def end? (s : Script) (index : Nat) : Option Nat :=
  s.ends[index]?

/-- The first tick of a frame. -/
def start? (s : Script) (index : Nat) : Option Nat :=
  match s.end? index, s.frame? index with
  | some finish, some frame => some (finish - frame.length)
  | _, _ => none

/-- The starting position that the first frame asks for, on each axis. -/
def initialPosition (s : Script) : Option Int32 × Option Int32 :=
  ((s.frame? 0).bind (·.valueOf? .xTarget), (s.frame? 0).bind (·.valueOf? .yTarget))

end Script

end Flipbook
