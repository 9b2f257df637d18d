/-!
# The tag vocabulary

A tag is an instruction that a frame carries: play a sound, jump, set a blend level. The
vocabulary is closed. Each kind has a short code, a rule for its number and a flag that
says whether its effect lasts beyond its own frame.

Codes share beginnings (`s`, `smo`, `smf`; `m`, `md`, `mx`; `x`, `x+`), so a text position
is matched against the longest code first: `candidates` lists every kind whose code starts
the text, longest first.
-/

namespace Flipbook

/-- Whether a number follows a tag's code. -/
inductive Parameter where
  /-- No number may follow. -/
  | none
  /-- A number must follow. -/
  | required
  /-- A number may follow. -/
  | optional
  deriving DecidableEq, Repr

namespace Parameter

/-- The word for a rule in listings. -/
def name : Parameter → String
  | .none => "none"
  | .required => "required"
  | .optional => "optional"

/-- A tag with this rule may stand without a number, or with one. -/
def allows (p : Parameter) (numbered : Bool) : Bool :=
  match p with
  | .none => !numbered
  | .required => numbered
  | .optional => true

end Parameter

/-- The kinds of tag, in the order of their ids. -/
inductive Tag.Kind where
  | musicOn | musicOff | sound | jump
  | blendStart | blendFinish | blendAdditive
  | spawnChild | destroyChild | childX | childY
  | damage
  | flipVertical | flipHorizontal
  | xDecrement | xIncrement | xTarget | xSet
  | yDecrement | yIncrement | yTarget | ySet
  deriving DecidableEq, Repr

namespace Tag.Kind

/-- The whole vocabulary, in the order of ids. -/
def all : List Kind :=
  [.musicOn, .musicOff, .sound, .jump,
   .blendStart, .blendFinish, .blendAdditive,
   .spawnChild, .destroyChild, .childX, .childY,
   .damage,
   .flipVertical, .flipHorizontal,
   .xDecrement, .xIncrement, .xTarget, .xSet,
   .yDecrement, .yIncrement, .yTarget, .ySet]

/-- The characters that name a kind in animation text. -/
def code : Kind → List Char
  | .musicOn => ['s', 'm', 'o']
  | .musicOff => ['s', 'm', 'f']
  | .sound => ['s']
  | .jump => ['d']
  | .blendStart => ['b', 's']
  | .blendFinish => ['b', 'f']
  | .blendAdditive => ['b', 'r']
  | .spawnChild => ['m']
  | .destroyChild => ['m', 'd']
  | .childX => ['m', 'x']
  | .childY => ['m', 'y']
  | .damage => ['c', 'p']
  | .flipVertical => ['f']
  | .flipHorizontal => ['r']
  | .xDecrement => ['x', '-']
  | .xIncrement => ['x', '+']
  | .xTarget => ['x', '=']
  | .xSet => ['x']
  | .yDecrement => ['y', '-']
  | .yIncrement => ['y', '+']
  | .yTarget => ['y', '=']
  | .ySet => ['y']

/-- The code as a string. -/
def mnemonic (k : Kind) : String :=
  String.ofList k.code

/-- The rule for the number after the code. -/
def parameter : Kind → Parameter
  | .musicOff | .blendAdditive | .flipVertical | .flipHorizontal => .none
  | .destroyChild => .optional
  | _ => .required

/-- Blend levels and flips stay in effect on later frames. -/
def persists : Kind → Bool
  | .blendStart | .blendFinish | .blendAdditive | .flipVertical | .flipHorizontal => true
  | _ => false

/-- The two kinds whose code also begins the codes for stepping the same axis, so that a
sign after it belongs to the longer code. -/
def bareAxis : Kind → Bool
  | .xSet | .ySet => true
  | _ => false

/-- What the tag does, for listings. -/
def description : Kind → String
  | .musicOn => "Start music track"
  | .musicOff => "Stop music"
  | .sound => "Play sound effect"
  | .jump => "Jump to tick"
  | .blendStart => "Blend start level"
  | .blendFinish => "Blend finish level"
  | .blendAdditive => "Additive blending"
  | .spawnChild => "Spawn child animation"
  | .destroyChild => "Destroy child animation"
  | .childX => "Child animation x offset"
  | .childY => "Child animation y offset"
  | .damage => "Apply damage"
  | .flipVertical => "Flip sprite vertically"
  | .flipHorizontal => "Flip sprite horizontally"
  | .xDecrement => "Decrement x position"
  | .xIncrement => "Increment x position"
  | .xTarget => "Interpolate x towards target"
  | .xSet => "Set x position"
  | .yDecrement => "Decrement y position"
  | .yIncrement => "Increment y position"
  | .yTarget => "Interpolate y towards target"
  | .ySet => "Set y position"

/-- The place of a kind in the vocabulary. -/
def id (k : Kind) : Nat :=
  all.idxOf k

/-- The kind at a place of the vocabulary. -/
def ofId? (n : Nat) : Option Kind :=
  all[n]?

/-- The kind with exactly this code. -/
def ofCode? (code : List Char) : Option Kind :=
  all.find? (·.code == code)

/-- The kind with exactly this mnemonic. -/
def ofMnemonic? (mnemonic : String) : Option Kind :=
  ofCode? mnemonic.toList

/-- The kind, if any, whose code is the first `n` characters of the text. -/
def candidate? (text : List Char) (n : Nat) : Option Kind :=
  let start := text.take n
  if start.length = n then ofCode? start else none

/-- The kinds whose code starts the text, longest code first. No code is longer than
three characters. -/
def candidates (text : List Char) : List Kind :=
  [3, 2, 1].filterMap (candidate? text)

/-- The kind, if any, whose mnemonic is the first `n` bytes of a byte string. Bytes that
are no text have none; such bytes are left where a character is cut. -/
def candidateOfBytes? (bytes : List UInt8) (n : Nat) : Option Kind :=
  let start := bytes.take n
  if start.length = n then (String.fromUTF8? start.toByteArray).bind ofMnemonic? else none

/-- The kinds whose mnemonic starts a byte string, longest first. -/
def candidatesOfBytes (bytes : List UInt8) : List Kind :=
  [3, 2, 1].filterMap (candidateOfBytes? bytes)

end Tag.Kind

end Flipbook
