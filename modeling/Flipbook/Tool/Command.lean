import Flipbook.Tool.Check
import Flipbook.Tool.Dump
import Flipbook.Tool.Normalize
import Flipbook.Tool.Play
import Flipbook.Tool.Vocabulary

/-!
# Commands

What the tool can be asked to do, and what it answers. A command that takes texts first
collects them all; `play` reads its configuration before that. TOML is read and JSON printed
by libraries, and where the platform keeps configurations is told from outside as well.
-/

namespace Flipbook.Tool

/-- What the tool relies on: a library for TOML, a printer for JSON, and the file that the
platform has for the tool's configuration, if it has a place for it. -/
structure Surroundings where
  toml : Toml.Library
  json : Json → Except Failure String
  configFile : Option String

/-- The library and the printer of this project, and no place for a configuration. -/
def Surroundings.own : Surroundings :=
  ⟨Toml.library, fun value => .ok (value.render 0), none⟩

/-- A request to the tool. -/
inductive Command where
  | check (source : Source) (quiet : Bool)
  | dump (source : Source) (json : Bool)
  | normalize (source : Source)
  | play (source : Source) (ticks : Option Nat) (config : Option String) (repeats : Bool)
  | tags
  deriving DecidableEq, Repr

/-- The report on the entries of a source, or the failure to load them. -/
def Source.report (source : Source) (files : Files) (run : List Entry → Report) : Report :=
  match source.load files with
  | .error failure => .failed failure
  | .ok entries => run entries

/-- The configuration with what the command line sets. -/
def PlayConfig.override (config : PlayConfig) (ticks : Option Nat) (repeats : Bool) :
    PlayConfig :=
  { playback := { config.playback with repeats := config.playback.repeats || repeats }
    maxTicks := ticks.getD config.maxTicks }

/-- Carries out a command. -/
def Command.run (command : Command) (files : Files) (around : Surroundings := .own) : Report :=
  match command with
  | .check source quiet => source.report files (Tool.check quiet)
  | .dump source json => source.report files (Tool.dump around.json json)
  | .normalize source => source.report files Tool.normalize
  | .play source ticks config repeats =>
    match PlayConfig.load around.toml around.configFile config files with
    | .error failure => .failed failure
    | .ok config => source.report files (Tool.play (config.override ticks repeats))
  | .tags => vocabulary

/-- The names of the files that a command may read. -/
def Command.fileNames (command : Command) (around : Surroundings := .own) : List String :=
  match command with
  | .check source _ | .dump source _ | .normalize source => source.file.toList
  | .play source _ config _ => (config <|> around.configFile).toList ++ source.file.toList
  | .tags => []

end Flipbook.Tool
