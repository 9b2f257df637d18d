/-!
# Reports

A command answers with a report: what it prints, and the failure in which it ended, if it
did. What was printed before a failure stays printed.
-/

namespace Flipbook.Tool

/-- Why a command failed, with the causes behind it, the nearest first. -/
structure Failure where
  message : String
  causes : List String
  deriving DecidableEq, Repr

/-- What a command prints, line by line, and the failure in which it ended. -/
structure Report where
  printed : List String
  failure : Option Failure
  deriving DecidableEq, Repr

namespace Report

/-- A report of success. -/
def success (printed : List String) : Report := ⟨printed, none⟩

/-- A report of failure with nothing printed. -/
def failed (failure : Failure) : Report := ⟨[], some failure⟩

/-- The report with lines printed before it. -/
def after (earlier : List String) (report : Report) : Report :=
  { report with printed := earlier ++ report.printed }

/-- All that is printed. -/
def output (report : Report) : String :=
  String.join (report.printed.map (· ++ "\n"))

end Report

/-- The text of a failure for the person at the terminal. -/
def Failure.text (failure : Failure) : String :=
  let causes :=
    match failure.causes with
    | [] => ""
    | [cause] => s!"\nCaused by:\n    {cause}\n"
    | causes =>
      "\nCaused by:\n" ++
        String.join
          (causes.zipIdx.map fun (entry : String × Nat) => s!"    {entry.2}: {entry.1}\n")
  s!"Error: {failure.message}\n{causes}"

end Flipbook.Tool
