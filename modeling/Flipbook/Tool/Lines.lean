import Flipbook.Tool.Blank

/-!
# Lines of a list of animations

A file lists animation texts, one to a line. White space around a text is no part of it;
blank lines and lines that start with `#` are passed over. The others keep the numbers of
their lines, counted from one.
-/

namespace Flipbook.Tool

/-- The lines of a text, given the start of the first one, latest character first. A line
ends at a line feed, with one carriage return before it, or at the end of the text. -/
def splitLines (start : List Char) : List Char → List (List Char)
  | [] => if start.isEmpty then [] else [start.reverse]
  | c :: text =>
    if c = '\n' then
      let line :=
        match start with
        | '\r' :: line => line
        | line => line
      line.reverse :: splitLines [] text
    else splitLines (c :: start) text

/-- A trimmed line is neither blank nor a comment. -/
def isListed (line : List Char) : Bool :=
  match line with
  | [] => false
  | c :: _ => c != '#'

/-- The animation texts of a file, by characters, with the numbers of their lines. -/
def listedChars (content : List Char) : List (Nat × List Char) :=
  (((splitLines [] content).zipIdx 1).map fun (line, number) => (number, trim line)).filter
    fun entry => isListed entry.2

/-- The animation texts of a file with the numbers of their lines. -/
def listedLines (content : String) : List (Nat × String) :=
  (listedChars content.toList).map fun (number, line) => (number, String.ofList line)

end Flipbook.Tool
