import Flipbook.Player.Cursor

/-!
# Snapshots

A snapshot is the state of a cursor as plain numbers, for storage and rollback. It may
come from anywhere, so restoring one first checks that it fits the script: its clock, its
frame and each carried tag.
-/

namespace Flipbook

/-- A carried tag in a snapshot, its kind given by id. -/
structure Snapshot.Entry where
  id : Nat
  value : Option Int32
  frame : Nat
  deriving DecidableEq, Repr

/-- The state of a cursor as plain numbers. -/
structure Snapshot where
  phase : Phase
  lastTick : Option Nat
  origin : Option Int
  frame : Nat
  carried : List Snapshot.Entry
  deriving DecidableEq, Repr

/-- Why a snapshot does not fit a script. -/
inductive Mismatch where
  | originOutOfRange
  | frameOutOfRange
  | unknownTag
  | tagDoesNotPersist
  | carriedFrameOutOfRange
  deriving DecidableEq, Repr

/-- The mismatch in words. -/
def Mismatch.message (m : Mismatch) : String :=
  "cursor state does not fit this script: " ++
    match m with
    | .originOutOfRange => "clock origin out of range"
    | .frameOutOfRange => "frame index out of range"
    | .unknownTag => "unknown tag id"
    | .tagDoesNotPersist => "carried tag does not persist"
    | .carriedFrameOutOfRange => "carried frame out of range"

/-- The record that an entry stands for on a script of `count` frames. -/
def Snapshot.Entry.check (e : Snapshot.Entry) (count : Nat) : Except Mismatch Carried :=
  match Tag.Kind.ofId? e.id with
  | none => .error .unknownTag
  | some kind =>
    if !kind.persists then .error .tagDoesNotPersist
    else if count ≤ e.frame then .error .carriedFrameOutOfRange
    else .ok ⟨kind, e.value, e.frame⟩

/-- The records that entries stand for; the first entry that does not fit decides. -/
def Snapshot.checkAll (count : Nat) : List Snapshot.Entry → Except Mismatch (List Carried)
  | [] => .ok []
  | e :: rest =>
    match e.check count with
    | .error m => .error m
    | .ok c => (Snapshot.checkAll count rest).map (c :: ·)

/-- The state that a snapshot stands for on a script of `count` frames. -/
def Snapshot.check (snapshot : Snapshot) (count : Nat) : Except Mismatch Playhead :=
  if snapshot.origin.any fun origin => Tick.last < origin.natAbs then .error .originOutOfRange
  else if count ≤ snapshot.frame then .error .frameOutOfRange
  else
    (Snapshot.checkAll count snapshot.carried).map fun carried =>
      ⟨snapshot.phase, snapshot.lastTick, snapshot.origin, snapshot.frame, carried⟩

namespace Cursor

/-- The state of the cursor as plain numbers. -/
def snapshot (c : Cursor) : Snapshot :=
  { phase := c.head.phase
    lastTick := c.head.lastTick
    origin := c.head.origin
    frame := c.head.frame
    carried := c.head.carried.map fun entry => ⟨entry.kind.id, entry.value, entry.frame⟩ }

/-- Puts the cursor into the state of a snapshot, if it fits the script. -/
def restore (c : Cursor) (snapshot : Snapshot) : Except Mismatch Unit × Cursor :=
  match snapshot.check c.script.count with
  | .error m => (.error m, c)
  | .ok head => (.ok (), { c with head })

end Cursor

end Flipbook
