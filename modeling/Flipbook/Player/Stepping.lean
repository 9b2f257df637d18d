import Flipbook.Player.Carried
import Flipbook.Player.Settings

/-!
# Stepping through frames

A position is a point of the animation's own time together with the frame that is held
there. When the time has passed the end of that frame, stepping goes on frame by frame
until the time lies inside the frame, playback ends, or an entered frame jumps. From the
last frame a repeating player goes back to the first one, with the time reduced to what is
left after whole rounds, however many were skipped.

Entering a frame and jumping are told apart: a frame reached by a jump is shown, its own
jump does not fire. Everything that happens is logged in order.

Stepping ends because each step lowers the time that is left or, with the same time, comes
nearer to the last frame: a round takes its whole length off the time, and after a round
of length zero stepping stops.
-/

namespace Flipbook

/-- One thing that happens while a player steps. -/
inductive Happening where
  /-- The frame became the current one by stepping, starting or going round. -/
  | entered (frame : Nat)
  /-- Playback went back to the start; the first frame is entered next. -/
  | wrapped
  /-- The jump of the frame entered last was resolved to this tick of the animation. -/
  | jumped (target : Nat)
  /-- Playback ended. -/
  | finished
  deriving DecidableEq, Repr

/-- The animation's own time, the frame that is held, and the tags carried there. -/
structure Position where
  elapsed : Nat
  frame : Nat
  carried : List Carried
  deriving DecidableEq, Repr

/-- Where stepping ends, whether playback ended there, and what happened on the way. -/
structure Outcome where
  position : Position
  ended : Bool
  log : List Happening
  deriving DecidableEq, Repr

/-- What a player does next at a position. -/
inductive Move where
  /-- The time lies before the end of the frame. -/
  | stay
  /-- The next frame is due. -/
  | next
  /-- The last frame has passed, after this many ticks from the start, and
  playback starts over. -/
  | wrap (length : Nat)
  /-- The last frame has passed and playback ends. -/
  | finish
  deriving DecidableEq, Repr

namespace Position

/-- The position with a frame entered. -/
def enter (p : Position) (s : Script) (frame : Nat) : Position :=
  { p with frame, carried := s.carry frame p.carried }

/-- What is due at a position. A frame that the script does not have ends playback. -/
def move (p : Position) (s : Script) (settings : Settings) : Move :=
  match s.end? p.frame with
  | none => .finish
  | some finish =>
    if p.elapsed < finish then .stay
    else if p.frame < settings.lastFrame s then .next
    else if settings.repeats then .wrap finish
    else .finish

/-- The start of the animation after a round of this length, with the time
that is left over. -/
def rewind (p : Position) (s : Script) (length : Nat) : Position :=
  enter ⟨if length = 0 then 0 else p.elapsed % length, 0, []⟩ s 0

end Position

namespace Outcome

/-- The outcome with something that happened before it. -/
def after (earlier : List Happening) (o : Outcome) : Outcome :=
  { o with log := earlier ++ o.log }

end Outcome

/-- The tick of the animation to which a frame jumps, if it carries a jump. -/
def Script.jumpTarget? (s : Script) (settings : Settings) (index : Nat) : Option Nat :=
  ((s.frame? index).bind (·.valueOf? .jump)).map (settings.jumpRule.target s index)

/-- Resolves a jump: the frame that shows at the target is held, with the tags carried
there; a target past the end ends playback on the frame that carries the jump. -/
def Position.land (p : Position) (s : Script) (target : Nat) : Outcome :=
  match s.indexAt? target with
  | some frame => ⟨⟨target, frame, s.carriedThrough frame⟩, false, [.jumped target]⟩
  | none => ⟨p, true, [.jumped target, .finished]⟩

namespace Position

/-- The next frame is due only before the last frame. -/
theorem frame_lt_of_move_eq_next {p : Position} {s : Script} {settings : Settings}
    (h : p.move s settings = .next) : p.frame < settings.lastFrame s := by
  unfold move at h
  split at h
  · cases h
  · split at h
    · cases h
    · split at h
      · assumption
      · split at h <;> cases h

/-- Playback starts over only after the whole round. -/
theorem le_elapsed_of_move_eq_wrap {p : Position} {s : Script} {settings : Settings}
    {length : Nat}
    (h : p.move s settings = .wrap length) : length ≤ p.elapsed := by
  unfold move at h
  split at h
  · cases h
  · split at h
    · cases h
    · next hlt =>
      split at h
      · cases h
      · split at h
        · cases h
          omega
        · cases h

/-- Steps from a position until nothing more is due. -/
def run (p : Position) (s : Script) (settings : Settings) : Outcome :=
  match _h : p.move s settings with
  | .stay => ⟨p, false, []⟩
  | .finish => ⟨p, true, [.finished]⟩
  | .next =>
    let entered := p.enter s (p.frame + 1)
    Outcome.after [.entered (p.frame + 1)] <|
      match s.jumpTarget? settings (p.frame + 1) with
      | some target => entered.land s target
      | none => entered.run s settings
  | .wrap length =>
    let entered := p.rewind s length
    Outcome.after [.wrapped, .entered 0] <|
      match s.jumpTarget? settings 0 with
      | some target => entered.land s target
      | none => if length = 0 then ⟨entered, false, []⟩ else entered.run s settings
termination_by (p.elapsed, settings.lastFrame s - p.frame)
decreasing_by
  · apply Prod.Lex.right
    have := frame_lt_of_move_eq_next _h
    simp only [enter]
    omega
  · apply Prod.Lex.left
    have hle := le_elapsed_of_move_eq_wrap _h
    have hpos : 0 < length := by omega
    have := Nat.mod_lt p.elapsed hpos
    simp only [rewind, enter]
    split
    · omega
    · omega

/-- Enters the first frame and steps on from there. -/
def start (elapsed : Nat) (s : Script) (settings : Settings) : Outcome :=
  let entered := Position.enter ⟨elapsed, 0, []⟩ s 0
  Outcome.after [.entered 0] <|
    match s.jumpTarget? settings 0 with
    | some target => entered.land s target
    | none => entered.run s settings

end Position

end Flipbook
