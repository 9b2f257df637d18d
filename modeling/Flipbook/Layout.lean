/-!
# Columns

Listings keep their columns by padding with spaces. Widths are counted in characters, and
a text that is too wide is left whole.
-/

namespace Flipbook.Layout

/-- The spaces that a text of `length` characters lacks to fill `width`. -/
def gap (width length : Nat) : String :=
  String.ofList (List.replicate (width - length) ' ')

/-- The text at the right end of a column. -/
def flushRight (width : Nat) (text : String) : String :=
  gap width text.length ++ text

/-- The text at the left end of a column. -/
def flushLeft (width : Nat) (text : String) : String :=
  text ++ gap width text.length

end Flipbook.Layout
