import Flipbook.Refusal

/-!
# Tags

A tag is a kind with a number, where the kind takes one. `Tag.make` is the checked way to
build one: what it accepts can be written as text and read back.
-/

namespace Flipbook

/-- One tag on a frame. -/
structure Tag where
  kind : Tag.Kind
  value : Option Int32
  deriving DecidableEq, Repr

namespace Tag

/-- Refuses a number that the kind cannot carry: it is present or absent as the kind's
rule says, and not negative where its minus sign would be read as part of the code for
stepping that axis back. -/
def check (kind : Kind) (value : Option Int32) : Except Refusal Unit :=
  match kind.parameter, value with
  | .required, none => .error (.missingParameter kind)
  | .none, some _ => .error (.unexpectedParameter kind)
  | _, none => .ok ()
  | _, some v =>
    if kind.bareAxis && v.toInt < 0 then .error (.unrepresentableValue kind v) else .ok ()

/-- The tag with this mnemonic and number, if the vocabulary has the one and
allows the other. -/
def make (mnemonic : String) (value : Option Int32) : Except Refusal Tag :=
  match Kind.ofMnemonic? mnemonic with
  | none => .error (.unknownTag mnemonic)
  | some kind => (check kind value).map fun _ => ⟨kind, value⟩

end Tag

end Flipbook
