import Flipbook.Layout
import Flipbook.Tool.Json
import Flipbook.Tool.Source

/-!
# Listing frames and tags

A listing shows a script frame by frame with the tags of each, as columns of text or as
JSON. Nothing is listed unless every entry decodes.
-/

namespace Flipbook.Tool

/-- A line of a text listing for one tag. -/
def tagLine (tag : Tag) : String :=
  let code := Layout.flushLeft 4 tag.kind.mnemonic
  let value := Layout.flushLeft 8 ((tag.value.map fun v => toString v.toInt).getD "")
  s!"         {code}{value} {tag.kind.description}"

/-- The lines of a text listing for one frame. -/
def frameLines (script : Script) (index : Nat) (frame : Frame) : List String :=
  let place := Layout.flushRight 2 (toString index)
  let start := Layout.flushLeft 5 (toString ((script.start? index).getD 0))
  s!"  [{place}] {frame.letter} t={start} len={frame.length}" :: frame.tags.map tagLine

/-- The text listing of a script. -/
def listing (entry : Entry) (script : Script) : List String :=
  s!"{entry.text} ({script.total} ticks)" ::
    script.frames.zipIdx.flatMap fun (frame, index) => frameLines script index frame

/-- A tag as JSON; the value is left out where there is none. -/
def tagJson (tag : Tag) : Json :=
  .record <|
    [("tag", .text tag.kind.mnemonic)] ++
    (tag.value.map fun v => ("value", Json.number v.toInt)).toList ++
    [("description", .text tag.kind.description)]

/-- A frame as JSON. -/
def frameJson (script : Script) (index : Nat) (frame : Frame) : Json :=
  .record
    [("index", .number index),
     ("sprite", .text frame.letter.toString),
     ("start", .number ((script.start? index).getD 0)),
     ("ticks", .number frame.length),
     ("tags", .list (frame.tags.map tagJson))]

/-- A script as JSON. -/
def scriptJson (entry : Entry) (script : Script) : Json :=
  .record
    [("source", .text entry.text),
     ("total_ticks", .number script.total),
     ("frames", .list (script.frames.zipIdx.map fun (frame, index) =>
       frameJson script index frame))]

/-- The scripts of all entries, or the failure of the first one that does not decode. -/
def decodeAll (entries : List Entry) : Except Failure (List (Entry × Script)) :=
  entries.mapM fun entry => entry.decode.map (entry, ·)

/-- What a printer of JSON is relied on for: values of texts, numbers, lists and
records are printed. -/
def PrintsAll (print : Json → Except Failure String) : Prop :=
  ∀ value : Json, ∃ text, print value = .ok text

/-- The report on what was printed. -/
def Report.ofPrinted : Except Failure String → Report
  | .error failure => .failed failure
  | .ok text => .success [text]

/-- Lists entries, as text or as the JSON that a printer makes of them. -/
def dump (print : Json → Except Failure String) (json : Bool) (entries : List Entry) :
    Report :=
  match decodeAll entries with
  | .error failure => .failed failure
  | .ok decoded =>
    if json then
      .ofPrinted (print (.list (decoded.map fun (entry, script) => scriptJson entry script)))
    else .success (decoded.flatMap fun (entry, script) => listing entry script)

end Flipbook.Tool
