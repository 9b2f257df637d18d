import Flipbook.Player.Stepping

/-!
# Playback cursors

A cursor plays one script for one object. It is fed the ticks of an outside clock, which
must not fall; an older tick is ignored. Its origin is the outside tick at which the
animation's own time is zero. It is moved by wraps, jumps and seeks, so that outside tick
less origin is always the animation's own time.
-/

namespace Flipbook

/-- How far playback has come. -/
inductive Phase where
  /-- No frame has been entered. -/
  | idle
  /-- A frame is showing. -/
  | playing
  /-- Playback has ended; further ticks are ignored. -/
  | finished
  deriving DecidableEq, Repr

/-- The state of a cursor. Without an origin, the next tick becomes the origin. -/
structure Playhead where
  phase : Phase
  lastTick : Option Nat
  origin : Option Int
  frame : Nat
  carried : List Carried
  deriving DecidableEq, Repr

/-- The state before the first tick. -/
def Playhead.idle (origin : Option Int) : Playhead :=
  ⟨.idle, none, origin, 0, []⟩

/-- A script, the settings under which it is played, and how far it has been played. -/
structure Cursor where
  script : Script
  settings : Settings
  head : Playhead
  deriving DecidableEq, Repr

/-- A tag in effect on the current frame: its number and the frame that set it. -/
structure ActiveTag where
  value : Option Int32
  frame : Nat
  deriving DecidableEq, Repr

/-- A cursor after a tick, and what happened at that tick. -/
structure Advance where
  cursor : Cursor
  log : List Happening
  deriving DecidableEq, Repr

/-- A frame was entered at the tick. -/
def Advance.changed (a : Advance) : Bool :=
  a.log.any fun
    | .entered _ => true
    | _ => false

namespace Cursor

/-- A cursor with its origin at tick zero. -/
def new (script : Script) (settings : Settings) : Cursor :=
  ⟨script, settings, .idle (some 0)⟩

/-- A cursor under the standard settings with its origin at a tick. -/
def startingAt (script : Script) (tick : Nat) : Cursor :=
  ⟨script, .standard, .idle (some tick)⟩

/-- The state where stepping ended, at an outside tick. -/
def settle (c : Cursor) (tick : Nat) (o : Outcome) : Advance :=
  let head : Playhead :=
    { phase := if o.ended then .finished else .playing
      lastTick := some tick
      origin := some (tick - o.position.elapsed)
      frame := o.position.frame
      carried := o.position.carried }
  ⟨{ c with head }, o.log⟩

/-- Feeds the cursor a tick. -/
def advance (c : Cursor) (tick : Nat) : Advance :=
  if c.head.phase = .finished || c.head.lastTick.any (tick < ·) then ⟨c, []⟩
  else
    let origin := c.head.origin.getD tick
    if (tick : Int) < origin then
      ⟨{ c with head := { c.head with lastTick := some tick, origin := some origin } }, []⟩
    else
      let elapsed := (tick - origin).toNat
      match c.head.phase with
      | .idle => c.settle tick (Position.start elapsed c.script c.settings)
      | _ =>
        c.settle tick
          (Position.run ⟨elapsed, c.head.frame, c.head.carried⟩ c.script c.settings)

/-- Back to the start; the next tick becomes the origin. -/
def reset (c : Cursor) : Cursor :=
  { c with head := .idle none }

/-- Shows a frame at once and takes a tick as its first one. The frame's own
jump does not fire. -/
def goTo (c : Cursor) (frame tick : Nat) : Except Refusal Unit × Cursor :=
  match c.script.start? frame with
  | none => (.error (.frameOutOfRange frame c.script.count), c)
  | some start =>
    let head : Playhead :=
      { phase := .playing
        lastTick := some tick
        origin := some (tick - start)
        frame
        carried := c.script.carriedThrough frame }
    (.ok (), { c with head })

/-- The animation's own time at an outside tick, and zero before the origin. -/
def elapsedAt (c : Cursor) (tick : Nat) : Nat :=
  (tick - c.head.origin.getD tick).toNat

/-- The animation's own time at the last tick, as far as the clock can show it. -/
def elapsed (c : Cursor) : Nat :=
  match c.head.lastTick with
  | none => 0
  | some tick => min (c.elapsedAt tick) Tick.last

/-- The first frame is showing. -/
def isFirstFrame (c : Cursor) : Bool :=
  c.head.phase == .playing && c.head.frame == 0

/-- The frame after which playback ends or starts over is showing. -/
def isFinalFrame (c : Cursor) : Bool :=
  c.head.phase == .playing && c.head.frame == c.settings.lastFrame c.script

/-- Playback has ended. -/
def isFinished (c : Cursor) : Bool :=
  c.head.phase == .finished

/-- The last tag with the mnemonic on a frame of the script. -/
def tag? (c : Cursor) (frame : Nat) (mnemonic : String) : Option Tag :=
  (c.script.frame? frame).bind (·.tag? mnemonic)

/-- The tag of a kind that is in effect on the current frame: the frame's own, or else
the one carried. -/
def activeOf? (c : Cursor) (kind : Tag.Kind) : Option ActiveTag :=
  if c.head.phase = .idle then none
  else
    match (c.script.frame? c.head.frame).bind (·.tagOf? kind) with
    | some tag => some ⟨tag.value, c.head.frame⟩
    | none =>
      if kind.persists then
        (c.head.carried.find? (·.kind == kind)).map fun entry => ⟨entry.value, entry.frame⟩
      else none

/-- The tag with the mnemonic that is in effect on the current frame. -/
def active? (c : Cursor) (mnemonic : String) : Option ActiveTag :=
  (Tag.Kind.ofMnemonic? mnemonic).bind c.activeOf?

end Cursor

end Flipbook
