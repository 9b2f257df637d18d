import Flipbook.Layout
import Flipbook.Tag.Kind
import Flipbook.Tool.Report

/-!
# Listing the vocabulary

One line for each kind of tag, in the order of the vocabulary.
-/

namespace Flipbook.Tool

/-- A line of the listing. -/
def vocabularyRow (mnemonic parameter persists description : String) : String :=
  let mnemonic := Layout.flushLeft 4 mnemonic
  let parameter := Layout.flushLeft 9 parameter
  let persists := Layout.flushLeft 8 persists
  s!"{mnemonic} {parameter} {persists} {description}"

/-- The line for a kind of tag. -/
def kindRow (kind : Tag.Kind) : String :=
  vocabularyRow kind.mnemonic kind.parameter.name (if kind.persists then "yes" else "no")
    kind.description

/-- Lists the vocabulary. -/
def vocabulary : Report :=
  .success (vocabularyRow "TAG" "PARAM" "PERSISTS" "DESCRIPTION" :: Tag.Kind.all.map kindRow)

end Flipbook.Tool
