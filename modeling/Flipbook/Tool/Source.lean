import Flipbook.Text.Decode
import Flipbook.Tool.Lines
import Flipbook.Tool.Report

/-!
# Where animation texts come from

A command takes its texts from its arguments and then from a file. Each text has a label
that says where it came from.
-/

namespace Flipbook.Tool

/-- The files that can be read, by name. -/
abbrev Files := String → Option ByteArray

/-- The text of a file, or why it cannot be read. -/
def Files.read (files : Files) (name : String) : Except String String :=
  match files name with
  | none => .error "No such file or directory (os error 2)"
  | some bytes =>
    match String.fromUTF8? bytes with
    | none => .error "stream did not contain valid UTF-8"
    | some text => .ok text

/-- The texts that a command was given, and the name of the file that lists more of them. -/
structure Source where
  texts : List String
  file : Option String
  deriving DecidableEq, Repr

/-- An animation text and where it came from. -/
structure Entry where
  label : String
  text : String
  deriving DecidableEq, Repr

namespace Source

/-- The entries for the texts given as arguments, numbered from one. -/
def given (source : Source) : List Entry :=
  (source.texts.zipIdx 1).map fun (text, number) => ⟨s!"arg {number}", text⟩

/-- The entries that a file lists. -/
def listed (name content : String) : List Entry :=
  (listedLines content).map fun (line, text) => ⟨s!"{name}:{line}", text⟩

/-- All entries; there must be one. -/
def load (source : Source) (files : Files) : Except Failure (List Entry) := do
  let listed ←
    match source.file with
    | none => .ok []
    | some name =>
      match files.read name with
      | .error cause => .error ⟨s!"Failed to read {name}", [cause]⟩
      | .ok content => .ok (listed name content)
  match source.given ++ listed with
  | [] => .error ⟨"No animation strings given (pass them as arguments or use --file)", []⟩
  | entries => .ok entries

end Source

/-- The script of an entry; a failure names the entry. -/
def Entry.decode (entry : Entry) : Except Failure Script :=
  (Text.decode entry.text).mapError fun e => ⟨entry.label, [e.message]⟩

/-- Prints something for each entry in turn, up to the first one that does not decode. -/
def printEach (print : Entry → Script → List String) : List Entry → Report
  | [] => .success []
  | entry :: rest =>
    match entry.decode with
    | .error failure => .failed failure
    | .ok script => .after (print entry script) (printEach print rest)

end Flipbook.Tool
