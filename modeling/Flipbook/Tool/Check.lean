import Flipbook.Text.Diagnostic
import Flipbook.Tool.Source

/-!
# Checking animation texts

Every text is read, and a text that does not decode is shown with a caret under its fault.
The check fails if there was one.
-/

namespace Flipbook.Tool

/-- The lines for one entry; in a quiet check only faults are printed. -/
def checkEntry (quiet : Bool) (entry : Entry) : List String :=
  match Text.decode entry.text with
  | .ok script =>
    if quiet then []
    else [s!"ok    {entry.label}: {script.count} frames, {script.total} ticks"]
  | .error e => [s!"error {entry.label}: {e.message}", Text.diagnostic entry.text e]

/-- The entry decodes. -/
def isGood (entry : Entry) : Bool :=
  match Text.decode entry.text with
  | .ok _ => true
  | .error _ => false

/-- Checks entries. -/
def check (quiet : Bool) (entries : List Entry) : Report :=
  let bad := (entries.filter fun entry => !isGood entry).length
  let failure : Option Failure :=
    if bad = 0 then none
    else some ⟨s!"{bad} of {entries.length} animation strings failed to decode", []⟩
  ⟨entries.flatMap (checkEntry quiet), failure⟩

end Flipbook.Tool
