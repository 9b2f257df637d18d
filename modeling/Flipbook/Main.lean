import Flipbook.Tool.Session

/-!
# The program

Reads the files that the command line names, runs the tool on their contents, and writes
what it answers.
-/

namespace Flipbook

/-- The contents of the files with these names; a file that cannot be read counts as absent. -/
def readFiles : List String → IO Tool.Files
  | [] => pure fun _ => none
  | name :: rest => do
    let content : Option ByteArray ←
      try
        some <$> IO.FS.readBinFile name
      catch _ => pure none
    let others ← readFiles rest
    pure fun wanted => if wanted = name then content else others wanted

end Flipbook

/-- Runs the tool on the command line. -/
def main (words : List String) : IO UInt32 := do
  let names := ((Flipbook.Tool.Arguments.parse? words).map (·.fileNames)).getD []
  let files ← Flipbook.readFiles names
  let session := Flipbook.Tool.session words files
  (← IO.getStdout).putStr session.output
  (← IO.getStderr).putStr session.errors
  return UInt32.ofNat session.code
