/-!
# JSON in outline form

Records and lists have a line for each member, two spaces further in than their brackets.
-/

namespace Flipbook.Tool

/-- The JSON values that listings are made of. -/
inductive Json where
  | text (value : String)
  | number (value : Int)
  | list (items : List Json)
  | record (fields : List (String × Json))

namespace Json

/-- A hexadecimal digit. -/
def hexDigit (n : Nat) : Char :=
  if n < 10 then Char.ofNat ('0'.toNat + n) else Char.ofNat ('a'.toNat + n - 10)

/-- A character inside quotes. -/
def escape (c : Char) : List Char :=
  if c = '"' then ['\\', '"']
  else if c = '\\' then ['\\', '\\']
  else if c = '\n' then ['\\', 'n']
  else if c = '\r' then ['\\', 'r']
  else if c = '\t' then ['\\', 't']
  else if c.toNat = 8 then ['\\', 'b']
  else if c.toNat = 12 then ['\\', 'f']
  else if c.toNat < 32 then
    ['\\', 'u', '0', '0', hexDigit (c.toNat / 16), hexDigit (c.toNat % 16)]
  else [c]

/-- A text in quotes. -/
def quote (text : String) : String :=
  String.ofList ('"' :: text.toList.flatMap escape ++ ['"'])

/-- The start of a line that is indented this many steps. -/
def margin (depth : Nat) : String :=
  String.ofList (List.replicate (2 * depth) ' ')

mutual

/-- The text of a value whose own line is indented `depth` steps. -/
def render (depth : Nat) : Json → String
  | .text value => quote value
  | .number value => toString value
  | .list [] => "[]"
  | .list (item :: rest) =>
    let first := margin (depth + 1) ++ item.render (depth + 1)
    s!"[\n{first}{renderItems (depth + 1) rest}\n{margin depth}]"
  | .record [] => "\x7b\x7d"
  | .record ((name, value) :: rest) =>
    let first := s!"{margin (depth + 1)}{quote name}: {value.render (depth + 1)}"
    s!"\x7b\n{first}{renderFields (depth + 1) rest}\n{margin depth}\x7d"

/-- The items after the first one, each after a comma and on a line of its own. -/
def renderItems (depth : Nat) : List Json → String
  | [] => ""
  | item :: rest => s!",\n{margin depth}{item.render depth}{renderItems depth rest}"

/-- The fields after the first one, each after a comma and on a line of its own. -/
def renderFields (depth : Nat) : List (String × Json) → String
  | [] => ""
  | (name, value) :: rest =>
    s!",\n{margin depth}{quote name}: {value.render depth}{renderFields depth rest}"

end

end Json

end Flipbook.Tool
