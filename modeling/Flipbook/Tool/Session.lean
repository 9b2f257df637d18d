import Flipbook.Tool.Arguments

/-!
# Running the tool

What a run of the tool leaves behind: what it writes to each of its two outputs,
and its exit code.
-/

namespace Flipbook.Tool

/-- The result of a run. -/
structure Session where
  code : Nat
  output : String
  errors : String
  deriving DecidableEq, Repr

/-- The result of a run that ends with a report. -/
def Report.session (report : Report) : Session :=
  match report.failure with
  | none => ⟨0, report.output, ""⟩
  | some failure => ⟨1, report.output, failure.text⟩

/-- What is said about a command line that asks for nothing the tool can do. -/
def usage : String :=
  "Usage: flipbook check|dump|normalize|play|tags [OPTIONS] [STRINGS]\n"

/-- Runs the tool on a command line. -/
def session (words : List String) (files : Files) (around : Surroundings := .own) : Session :=
  match Arguments.parse? words with
  | none => ⟨2, "", usage⟩
  | some command => (command.run files around).session

end Flipbook.Tool
