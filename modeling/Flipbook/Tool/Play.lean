import Flipbook.Player.SettingsFile
import Flipbook.Player.Transcript
import Flipbook.Tool.Source

/-!
# Playing animation texts

Each text is played tick by tick under the settings of a configuration, and what an
onlooker sees is printed. The configuration is a TOML document with a table for the player
and one for the command.
-/

namespace Flipbook.Tool

/-- How `play` plays: the player's settings and the last tick to play. -/
structure PlayConfig where
  playback : Settings
  maxTicks : Nat
  deriving DecidableEq, Repr

namespace PlayConfig

/-- The standard settings and two thousand ticks. -/
def standard : PlayConfig := ⟨.standard, 2000⟩

/-- The last tick to play. -/
def maxTicksField : Toml.Field PlayConfig where
  key := "max_ticks"
  value? config := some (.natural config.maxTicks)
  set? config
    | .natural n => if n ≤ Tick.last then some { config with maxTicks := n } else none
    | _ => none

/-- The tables of a configuration: one for the player, with the fields of settings, and
one for the command. -/
def tables : List (Toml.Table PlayConfig) :=
  let replace (config : PlayConfig) (playback : Settings) : PlayConfig :=
    { config with playback }
  [⟨"playback", Settings.declaration.fields.map (.within playback replace)⟩,
   ⟨"play", [maxTicksField]⟩]

/-- The configuration in a document, as a library reads it. -/
def ofDocument (library : Toml.Library) (text : String) : Except (List String) PlayConfig :=
  library.readTables tables standard text

/-- The configuration in a document, as the library of this project reads it. -/
def parse? (text : String) : Option PlayConfig :=
  (ofDocument Toml.library text).toOption

/-- The configuration in a file. If none is named, it is the one in the file that the
platform has for it, if that is there, and otherwise the standard one. -/
def load (library : Toml.Library) (place : Option String) (file : Option String)
    (files : Files) : Except Failure PlayConfig :=
  match file <|> place.filter fun name => (files name).isSome with
  | none => .ok standard
  | some name =>
    match files.read name with
    | .error cause => .error ⟨s!"Failed to read config {name}", [cause]⟩
    | .ok content =>
      (ofDocument library content).mapError fun reasons => ⟨s!"Invalid config {name}", reasons⟩

end PlayConfig

/-- The lines for one entry: its text and length, the transcript, and a last line if
it did not finish. -/
def playEntry (settings : Settings) (maxTicks : Nat) (entry : Entry) (script : Script) :
    List String :=
  let events := Transcript.simulate script settings maxTicks
  let ending :=
    match events.getLast? with
    | some (.finished _) => []
    | _ =>
      let number := Layout.flushRight 6 (toString maxTicks)
      [s!"{number}  still playing"]
  s!"{entry.text} ({script.total} ticks)" :: events.map Transcript.Event.text ++ ending

/-- Plays entries. -/
def play (config : PlayConfig) (entries : List Entry) : Report :=
  printEach (playEntry config.playback config.maxTicks) entries

end Flipbook.Tool
