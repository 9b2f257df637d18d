import Flipbook.Layout
import Flipbook.Player.Cursor
import Flipbook.Text.Encode

/-!
# Transcripts

A transcript is what an onlooker notes down who feeds a fresh cursor every tick from zero
on: each tick at which a frame was entered, with the frame then showing and the tags then
in effect, and the tick at which playback ended.
-/

namespace Flipbook

/-- One note of a transcript. -/
inductive Transcript.Event where
  /-- A frame was entered. It is a rewind if the frame now showing does not come after
  the one noted last. -/
  | shown (tick frame : Nat) (text : String) (rewind : Bool)
      (active : List (Tag.Kind × ActiveTag))
  /-- Playback ended. -/
  | finished (tick : Nat)
  deriving DecidableEq, Repr

namespace Transcript

/-- The persisting tags in effect on a cursor's current frame, in the order
of the vocabulary. -/
def activeTags (c : Cursor) : List (Tag.Kind × ActiveTag) :=
  (Tag.Kind.all.filter (·.persists)).filterMap fun kind => (c.activeOf? kind).map (kind, ·)

/-- The note on the frame that a cursor shows at a tick, after a note on the
frame `previous`. -/
def sighting (c : Cursor) (tick : Nat) (previous : Option Nat) : Event :=
  .shown tick c.head.frame (((c.script.frame? c.head.frame).map Frame.text).getD "")
    (previous.any (c.head.frame ≤ ·)) (activeTags c)

/-- Notes at `ticks` ticks from `tick` on, put before the earlier notes, latest first. -/
def watch (c : Cursor) (previous : Option Nat) (tick : Nat) (notes : List Event) :
    Nat → List Event
  | 0 => notes
  | ticks + 1 =>
    let step := c.advance tick
    let notes := if step.changed then sighting step.cursor tick previous :: notes else notes
    let previous := if step.changed then some step.cursor.head.frame else previous
    if step.cursor.isFinished then .finished tick :: notes
    else watch step.cursor previous (tick + 1) notes ticks

/-- The transcript of a script over the ticks from zero to `last`. -/
def simulate (script : Script) (settings : Settings) (last : Nat) : List Event :=
  (watch (.new script settings) none 0 [] (last + 1)).reverse

/-- The word for a tag in effect. -/
def activeText (entry : Tag.Kind × ActiveTag) : String :=
  let value := (entry.2.value.map fun v => s!"={v.toInt}").getD ""
  s!"  {entry.1.mnemonic}{value}@{entry.2.frame}"

/-- The line for a note. -/
def Event.text : Event → String
  | .shown tick frame text rewind active =>
    let number := Layout.flushRight 6 (toString tick)
    let index := Layout.flushLeft 3 (toString frame)
    let mark := if rewind then "  (rewind)" else ""
    s!"{number}  frame {index} {text}{mark}" ++ String.join (active.map activeText)
  | .finished tick =>
    let number := Layout.flushRight 6 (toString tick)
    s!"{number}  finished"

end Transcript

end Flipbook
