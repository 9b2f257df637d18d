import Flipbook.Player.Settings
import Flipbook.Toml.Record

/-!
# Settings as TOML

Settings are a record of three fields, each with a default. A library for TOML writes them
and reads them; the frame at which playback ends is left out where none is set.
-/

namespace Flipbook.Settings

/-- Why settings cannot be read from a document, or not be written as one. -/
inductive FileError where
  | parse (reason : String)
  | serialize (reason : String)
  deriving DecidableEq, Repr

/-- The error in words. -/
def FileError.message : FileError → String
  | .parse reason => s!"invalid playback config: {reason}"
  | .serialize reason => s!"failed to serialize playback config: {reason}"

/-- The greatest frame index that a document may give: it has 64 bits. -/
def lastEndFrame : Nat := 18446744073709551615

/-- What jumps mean, by the name of the rule. -/
def jumpRuleField : Toml.Field Settings where
  key := "jump_mode"
  value? settings := some (.word settings.jumpRule.name)
  set? settings
    | .word name => (JumpRule.ofName? name).map fun jumpRule => { settings with jumpRule }
    | _ => none

/-- Whether playback starts over. -/
def repeatsField : Toml.Field Settings where
  key := "repeat"
  value? settings := some (.boolean settings.repeats)
  set? settings
    | .boolean repeats => some { settings with repeats }
    | _ => none

/-- The frame after which playback ends, which is left out where there is none. -/
def endFrameField : Toml.Field Settings where
  key := "end_frame"
  value? settings := settings.endFrame.map .natural
  set? settings
    | .natural index =>
      if index ≤ lastEndFrame then some { settings with endFrame := some index } else none
    | _ => none

/-- The fields of settings, and their defaults. -/
def declaration : Toml.Declaration Settings where
  fields := [jumpRuleField, repeatsField, endFrameField]
  standard := standard

/-- The settings in a document, as a library reads it. -/
def ofDocument (library : Toml.Library) (text : String) : Except FileError Settings :=
  (library.read declaration text).mapError fun reasons => .parse (reasons.headD "")

/-- The document in which a library writes settings. -/
def toDocument (library : Toml.Library) (settings : Settings) : Except FileError String :=
  (library.write declaration settings).mapError fun reasons => .serialize (reasons.headD "")

/-- The settings in a document, as the library of this project reads it. -/
def parse? (text : String) : Option Settings :=
  (ofDocument Toml.library text).toOption

/-- The document in which the library of this project writes settings. -/
def document (settings : Settings) : String :=
  declaration.render settings

end Flipbook.Settings
