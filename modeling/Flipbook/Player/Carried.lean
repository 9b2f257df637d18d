import Flipbook.Script.Basic

/-!
# Carried tags

A tag that persists stays in effect on later frames until its kind is set again. A player
carries one record for each such kind: the number it was last set to and the frame that
set it, in the order in which the kinds were first set.

`Script.carriedThrough` is what a player carries on a frame that is reached by
playing from the start.
-/

namespace Flipbook

/-- A persisting tag in effect: its kind, its number, and the frame that set it. -/
structure Carried where
  kind : Tag.Kind
  value : Option Int32
  frame : Nat
  deriving DecidableEq, Repr

/-- The records after one more: in the place of the record of the same kind, or
else at the end. -/
def Carried.record (entry : Carried) : List Carried → List Carried
  | [] => [entry]
  | c :: rest => if c.kind = entry.kind then entry :: rest else c :: Carried.record entry rest

/-- The records after a frame with this index: its persisting tags are recorded in order. -/
def Frame.carry (f : Frame) (index : Nat) (carried : List Carried) : List Carried :=
  (f.tags.filter (·.kind.persists)).foldl
    (fun carried tag => Carried.record ⟨tag.kind, tag.value, index⟩ carried) carried

namespace Script

/-- The records after a frame of the script. -/
def carry (s : Script) (index : Nat) (carried : List Carried) : List Carried :=
  match s.frame? index with
  | none => carried
  | some f => f.carry index carried

/-- The records after the frames up to this one, played in order. -/
def carriedThrough (s : Script) (index : Nat) : List Carried :=
  (s.frames.take (index + 1)).zipIdx.foldl (fun carried (f, i) => f.carry i carried) []

end Script

end Flipbook
