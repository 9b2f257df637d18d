import Flipbook.Toml.Statement

/-!
# TOML documents

The part of TOML that settings are written in: comments, tables and tables under repeated
headers, bare, quoted and dotted keys, and strings of one line, numbers, booleans, arrays and
tables in braces as values. A key or a table that is given twice makes a document invalid.
-/

namespace Flipbook.Toml

/-- A document that is being put together: its entries, and the path of the
table that is open. -/
structure Document where
  entries : Entries
  header : List String

/-- The document after one more statement; none if the statement gives a key
or a table again. -/
def Document.add? (d : Document) : Statement → Option Document
  | .table path => (d.entries.openTable false path).map (⟨·, path⟩)
  | .row path => (d.entries.openTable true path).map (⟨·, path⟩)
  | .assign path value => (d.entries.assignAt path value d.header).map (⟨·, d.header⟩)

/-- The text after a mark of its byte order. -/
def skipByteOrderMark : List Char → List Char
  | '\uFEFF' :: text => text
  | text => text

/-- The entries of a document, given by its characters. -/
def parseChars? (text : List Char) : Option Entries := do
  let text := skipByteOrderMark text
  let statements ← readStatements (text.length + 1) text
  let document ← statements.foldlM Document.add? ⟨[], []⟩
  some document.entries

/-- The entries of a document. -/
def parse? (text : String) : Option Entries :=
  parseChars? text.toList

end Flipbook.Toml
