import Flipbook.Tag.Kind

/-!
# Refusals

The reasons for which a tag, a frame or a script cannot be built or changed as asked.
-/

namespace Flipbook

/-- Why a script or one of its parts was not built or changed. -/
inductive Refusal where
  /-- The vocabulary has no such mnemonic. -/
  | unknownTag (mnemonic : String)
  /-- The script has only `count` frames. -/
  | frameOutOfRange (index count : Nat)
  /-- There is no such sprite. -/
  | spriteOutOfRange (sprite : Nat)
  /-- The tag's number is absent. -/
  | missingParameter (kind : Tag.Kind)
  /-- The tag takes no number. -/
  | unexpectedParameter (kind : Tag.Kind)
  /-- The number would read back as part of another tag. -/
  | unrepresentableValue (kind : Tag.Kind) (value : Int32)
  /-- The ticks of all frames together exceed the clock. -/
  | tickOverflow
  /-- A script needs a frame. -/
  | emptyScript
  deriving DecidableEq, Repr

/-- The refusal in words. -/
def Refusal.message : Refusal → String
  | .unknownTag mnemonic => s!"unknown tag: {mnemonic}"
  | .frameOutOfRange index count => s!"frame {index} out of range (script has {count} frames)"
  | .spriteOutOfRange sprite => s!"sprite index {sprite} out of range (max 25)"
  | .missingParameter kind => s!"tag '{kind.mnemonic}' requires a parameter"
  | .unexpectedParameter kind => s!"tag '{kind.mnemonic}' takes no parameter"
  | .unrepresentableValue kind value =>
    s!"tag '{kind.mnemonic}' cannot encode value {value.toInt}"
  | .tickOverflow => "total tick count overflows"
  | .emptyScript => "script has no frames"

end Flipbook
