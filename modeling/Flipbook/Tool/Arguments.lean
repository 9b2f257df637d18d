import Flipbook.Tool.Command

/-!
# The command line

The first word names the command, except that the option for more messages may stand
before it. The options of a command stand anywhere behind it, before, among and after the
texts, each at most once; the words behind a lone `--` are texts whatever they look like.
-/

namespace Flipbook.Tool

/-- The options. -/
inductive Flag where
  | verbose | quiet | json | repeats | ticks | config | file
  deriving DecidableEq, Repr

namespace Flag

/-- Every option. -/
def all : List Flag := [.verbose, .quiet, .json, .repeats, .ticks, .config, .file]

/-- The word for an option. -/
def word : Flag → String
  | .verbose => "verbose"
  | .quiet => "quiet"
  | .json => "json"
  | .repeats => "repeat"
  | .ticks => "ticks"
  | .config => "config"
  | .file => "file"

/-- The letter for an option that has one. -/
def letter? : Flag → Option Char
  | .verbose => some 'v'
  | .quiet => some 'q'
  | .file => some 'f'
  | _ => none

/-- The option takes a value. -/
def takesValue : Flag → Bool
  | .ticks | .config | .file => true
  | _ => false

end Flag

/-- The command line in parts: its options with their values, and its other words. -/
structure Arguments where
  options : List (Flag × String)
  words : List String
  deriving DecidableEq, Repr

namespace Arguments

/-- The arguments with one more option before them; none if it is there already, or takes
a value and has an empty one. -/
def withOption (arguments : Arguments) (flag : Flag) (value : String) : Option Arguments :=
  if arguments.options.any (·.1 == flag) || flag.takesValue && value.isEmpty then none
  else some { arguments with options := (flag, value) :: arguments.options }

/-- The arguments with one more word before them. -/
def withWord (arguments : Arguments) (word : String) : Arguments :=
  { arguments with words := word :: arguments.words }

/-- A word that reads as options: a dash and something behind it. -/
def isOption (word : List Char) : Bool :=
  match word with
  | '-' :: _ :: _ => true
  | _ => false

/-- A group of options by letter. The last one may take a value: the rest of the group, or
else the next word, which the answer asks for by naming the option. -/
def readLetters : List Char → Option (List (Flag × String) × Option Flag)
  | [] => some ([], none)
  | letter :: rest => do
    let flag ← Flag.all.find? (·.letter? == some letter)
    if flag.takesValue then
      match rest with
      | [] => some ([], some flag)
      | '=' :: value => some ([(flag, String.ofList value)], none)
      | value => some ([(flag, String.ofList value)], none)
    else
      let (options, open?) ← readLetters rest
      some ((flag, "") :: options, open?)

/-- An option by word, with its value behind an equals sign or, if the answer names the
option, in the next word. -/
def readWord (word : List Char) : Option (List (Flag × String) × Option Flag) := do
  let name := word.takeWhile (· != '=')
  let flag ← Flag.all.find? (·.word == String.ofList name)
  match word.dropWhile (· != '='), flag.takesValue with
  | [], true => some ([], some flag)
  | [], false => some ([(flag, "")], none)
  | _ :: value, true => some ([(flag, String.ofList value)], none)
  | _ :: _, false => none

/-- Splits the words of a command line into options and other words, where `pending` is an
option that waits for its value. -/
def read (pending : Option Flag) : List String → Option Arguments
  | [] => if pending.isNone then some ⟨[], []⟩ else none
  | word :: rest =>
    match pending with
    | some flag =>
      if isOption word.toList then none
      else (read none rest).bind (·.withOption flag word)
    | none =>
      match word.toList with
      | ['-', '-'] => some ⟨[], rest⟩
      | '-' :: '-' :: name => do
        let (options, pending) ← readWord name
        options.foldrM (fun (flag, value) arguments => arguments.withOption flag value)
          (← read pending rest)
      | '-' :: c :: letters => do
        let (options, pending) ← readLetters (c :: letters)
        options.foldrM (fun (flag, value) arguments => arguments.withOption flag value)
          (← read pending rest)
      | _ => (read none rest).map (·.withWord word)

/-- The option is given. -/
def has (arguments : Arguments) (flag : Flag) : Bool :=
  arguments.options.any (·.1 == flag)

/-- The value of an option. -/
def value? (arguments : Arguments) (flag : Flag) : Option String :=
  arguments.options.lookup flag

/-- The texts and the file that are given. -/
def source (arguments : Arguments) : Source :=
  ⟨arguments.words, arguments.value? .file⟩

/-- The arguments, if they have no other options than these. -/
def only (arguments : Arguments) (flags : List Flag) : Option Arguments :=
  if arguments.options.all fun option => (Flag.verbose :: flags).contains option.1 then
    some arguments
  else none

/-- A number of ticks: digits, with a sign before them if wanted. Behind a minus sign it
can only be zero. -/
def ticks? (word : String) : Option Nat :=
  let (last, digits) :=
    match word.toList with
    | '+' :: digits => (Tick.last, digits)
    | '-' :: digits => (0, digits)
    | digits => (Tick.last, digits)
  let n := Nat.ofDigitChars 10 digits 0
  if digits.isEmpty || !digits.all Char.isDigit || last < n then none else some n

/-- The command with this name and these arguments. -/
def command? (name : String) (arguments : Arguments) : Option Command :=
  if name = "check" then
    (arguments.only [.quiet, .file]).map fun a => .check a.source (a.has .quiet)
  else if name = "dump" then
    (arguments.only [.json, .file]).map fun a => .dump a.source (a.has .json)
  else if name = "normalize" then
    (arguments.only [.file]).map fun a => .normalize a.source
  else if name = "play" then do
    let a ← arguments.only [.ticks, .config, .repeats, .file]
    let ticks ←
      match a.value? .ticks with
      | none => some none
      | some word => (ticks? word).map some
    some (.play a.source ticks (a.value? .config) (a.has .repeats))
  else if name = "tags" then do
    let a ← arguments.only []
    if a.words.isEmpty then some .tags else none
  else none

/-- The word is the option for more messages. -/
def isVerbose (word : String) : Bool :=
  word == "-v" || word == "--verbose"

/-- The command that a command line asks for. -/
def parse? (words : List String) : Option Command :=
  match words with
  | [] => none
  | first :: rest =>
    match isVerbose first, rest with
    | true, [] => none
    | true, name :: rest => (read none rest).bind (·.command? name)
    | false, rest => (read none rest).bind (·.command? first)

end Arguments

end Flipbook.Tool
