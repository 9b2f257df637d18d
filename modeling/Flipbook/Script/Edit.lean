import Flipbook.Script.Basic

/-!
# Editing a script

Every edit answers with its result and with the script after it. A refused edit leaves the
script as it was, or has put it back as it was; an accepted one changes the frame it names
and nothing else, and brings the end ticks up to date.
-/

namespace Flipbook.Script

/-- Append a frame without tags; the result is its index. -/
def appendFrame (s : Script) (sprite length : Nat) : Except Refusal Nat × Script :=
  match Frame.blank sprite length with
  | .error e => (.error e, s)
  | .ok frame =>
    let finish := s.total + length
    if finish ≤ Tick.last then
      (.ok s.count, ⟨s.frames ++ [frame], s.ends ++ [finish]⟩)
    else (.error .tickOverflow, s)

/-- Put what `change` makes of a frame in its place, and answer with what it reports. For
changes that keep the frame's length. -/
def changeFrame {α : Type} (s : Script) (index : Nat) (change : Frame → α × Frame) :
    Except Refusal α × Script :=
  match s.frame? index with
  | none => (.error (.frameOutOfRange index s.count), s)
  | some frame =>
    let (answer, changed) := change frame
    (.ok answer, { s with frames := s.frames.set index changed })

/-- Put a tag last on a frame, in place of all its tags of the same kind. -/
def setTag (s : Script) (index : Nat) (mnemonic : String) (value : Option Int32) :
    Except Refusal Unit × Script :=
  match Tag.make mnemonic value with
  | .error e => (.error e, s)
  | .ok tag =>
    s.changeFrame index fun frame =>
      ((), { frame with tags := frame.tags.filter (·.kind != tag.kind) ++ [tag] })

/-- Take the first tag with the mnemonic off a frame; the result says whether there was one. -/
def deleteTag (s : Script) (index : Nat) (mnemonic : String) : Except Refusal Bool × Script :=
  match Tag.Kind.ofMnemonic? mnemonic with
  | none => (.error (.unknownTag mnemonic), s)
  | some kind =>
    s.changeFrame index fun frame =>
      (frame.tags.any (·.kind == kind),
        { frame with tags := frame.tags.eraseP (·.kind == kind) })

/-- Take all tags off a frame. -/
def clearTags (s : Script) (index : Nat) : Except Refusal Unit × Script :=
  s.changeFrame index fun frame => ((), { frame with tags := [] })

/-- Show another sprite on a frame. -/
def setSprite (s : Script) (index sprite : Nat) : Except Refusal Unit × Script :=
  if sprite ≤ Sprite.last then s.changeFrame index fun frame => ((), { frame with sprite })
  else (.error (.spriteOutOfRange sprite), s)

/-- The frames with another length for one of them. -/
def withLength (frames : List Frame) (index length : Nat) : List Frame :=
  frames.modify index fun frame => { frame with length }

/-- Show a frame for another number of ticks. The frame gets its new length before the
ends are added up; if the clock cannot hold them, it gets its old one back. -/
def setLength (s : Script) (index length : Nat) : Except Refusal Unit × Script :=
  match s.frame? index with
  | none => (.error (.frameOutOfRange index s.count), s)
  | some frame =>
    let changed := withLength s.frames index length
    match endsFrom 0 changed with
    | some ends => (.ok (), ⟨changed, ends⟩)
    | none =>
      (.error .tickOverflow, { s with frames := withLength changed index frame.length })

end Flipbook.Script
