import Flipbook.Text.Encode
import Flipbook.Tool.Source

/-!
# Normalizing animation texts

Each text is printed in its canonical form, up to the first one that does not decode.
-/

namespace Flipbook.Tool

/-- Prints the canonical text of each entry. -/
def normalize (entries : List Entry) : Report :=
  printEach (fun _ script => [script.text]) entries

end Flipbook.Tool
