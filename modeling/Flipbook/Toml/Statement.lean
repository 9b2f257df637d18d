import Flipbook.Toml.Quoted
import Flipbook.Toml.Scalar

/-!
# TOML statements

A document is a row of lines. A line opens a table, or puts a value under a key, or is
blank; a comment may end it. The readers below take what they read off the front of the
text and answer with the rest.

Arrays and tables in braces nest, up to a limit, so the readers of values are told in how
many brackets they stand. They are also given a bound on the steps they may take. The
length of the text is always enough: a step into brackets takes the opening one and is
made up for by the closing one, and a step to the next item takes the item and its comma.
-/

namespace Flipbook.Toml

/-- One line of a document that says something. -/
inductive Statement where
  /-- Opens a table. -/
  | table (path : List String)
  /-- Opens one more of the tables under a repeated header. -/
  | row (path : List String)
  /-- Puts a value under a path of keys in the table that is open. -/
  | assign (path : List String) (value : Node)

/-- The most keys in a path. -/
def longestPath : Nat := 80

/-- The most brackets and braces around a value. -/
def deepestNesting : Nat := 80

/-- A space or a tab. -/
def isBlank (c : Char) : Bool :=
  c == ' ' || c == '\t'

/-- The text after its leading blanks. -/
def skipBlanks (text : List Char) : List Char :=
  text.dropWhile isBlank

/-- The text after this character and the blanks behind it. -/
def skip? (c : Char) : List Char → Option (List Char)
  | d :: rest => if c = d then some (skipBlanks rest) else none
  | [] => none

/-- The text after the end of a line: blanks, a comment and a line break, each of which
may be missing at the end of the text. -/
def endLine? (text : List Char) : Option (List Char) :=
  let atEnd :=
    match skipBlanks text with
    | '#' :: comment => comment.dropWhile isText
    | rest => rest
  match atEnd with
  | [] => some []
  | '\n' :: rest => some rest
  | '\r' :: '\n' :: rest => some rest
  | _ => none

/-- The text after blanks, line breaks and comments; `comment` says that it starts
inside a comment. -/
def skipFiller (comment : Bool) : List Char → List Char
  | [] => []
  | '\r' :: '\n' :: rest => skipFiller false rest
  | c :: rest =>
    if c = '\n' then skipFiller false rest
    else if comment then (if isText c then skipFiller true rest else c :: rest)
    else if isBlank c then skipFiller false rest
    else if c = '#' then skipFiller true rest
    else c :: rest

/-- The character may stand in a bare key. -/
def isBareKey (c : Char) : Bool :=
  c.isAlphanum || c == '_' || c == '-'

/-- The characters that end a word of a bare value. -/
def wordEnds : List Char := [' ', '\t', '\r', '\n', '#', '=', ',', '[', ']', '{', '}']

/-- The character may stand in a word of a bare value. -/
def isBareValue (c : Char) : Bool :=
  !wordEnds.contains c

/-- The text goes on after a tab as the same bare value: with another word, or another
tab. A quote would start a value of its own. -/
def continuesValue (text : List Char) : Bool :=
  match text with
  | [] => false
  | c :: _ => c != '"' && c != '\''

/-- Splits a bare value off the front of the text: words with tabs between them. -/
def splitBare : List Char → List Char × List Char
  | [] => ([], [])
  | c :: text =>
    if isBareValue c then
      let (value, rest) := splitBare text
      (c :: value, rest)
    else if c == '\t' then
      let (value, rest) := splitBare text
      if continuesValue value then (c :: value, rest) else ([], c :: text)
    else ([], c :: text)

/-- Reads one key. -/
def readKey : List Char → Option (String × List Char)
  | '"' :: text => readBasic [] none text
  | '\'' :: text => readLiteral text
  | text =>
    match text.takeWhile isBareKey with
    | [] => none
    | key => some (String.ofList key, text.dropWhile isBareKey)

/-- Reads a given number of keys at most, with points between them, and the
blanks behind each. -/
def readKeys : Nat → List Char → Option (List String × List Char)
  | 0, _ => none
  | most + 1, text => do
    let (key, rest) ← readKey text
    match skipBlanks rest with
    | '.' :: rest =>
      let (path, rest) ← readKeys most (skipBlanks rest)
      some (key :: path, rest)
    | rest => some ([key], rest)

/-- Reads a path of keys. -/
def readPath (text : List Char) : Option (List String × List Char) :=
  readKeys longestPath text

mutual

/-- Reads one value, which stands inside of `depth` brackets. -/
def readValue (depth : Nat) : Nat → List Char → Option (Node × List Char)
  | 0, _ => none
  | steps + 1, text =>
    match text with
    | '"' :: rest => (readBasic [] none rest).map fun read => (.string read.1, read.2)
    | '\'' :: rest => (readLiteral rest).map fun read => (.string read.1, read.2)
    | '[' :: rest =>
      if depth < deepestNesting then
        (readItems (depth + 1) steps rest).map fun read => (.array read.1, read.2)
      else none
    | '{' :: rest =>
      if depth < deepestNesting then readFields (depth + 1) steps [] rest else none
    | _ =>
      let (token, rest) := splitBare text
      (scalar? token).map fun node => (node, rest)

/-- Reads the rest of an array: items with commas between them, and one more if wanted. -/
def readItems (depth : Nat) : Nat → List Char → Option (List Node × List Char)
  | 0, _ => none
  | steps + 1, text =>
    match skipFiller false text with
    | ']' :: rest => some ([], rest)
    | text => do
      let (item, rest) ← readValue depth steps text
      match skipFiller false rest with
      | ',' :: rest =>
        let (items, rest) ← readItems depth steps rest
        some (item :: items, rest)
      | ']' :: rest => some ([item], rest)
      | _ => none

/-- Reads the rest of a table in braces, given the entries read so far. Its lines may be
broken anywhere but inside a path of keys. -/
def readFields (depth : Nat) : Nat → Entries → List Char → Option (Node × List Char)
  | 0, _, _ => none
  | steps + 1, entries, text =>
    match skipFiller false text with
    | '}' :: rest => some (.table .braces entries, rest)
    | text => do
      let (path, rest) ← readPath text
      let rest ← skip? '=' (skipFiller false rest)
      let (value, rest) ← readValue depth steps (skipFiller false rest)
      let entries ← entries.assign true value path
      match skipFiller false rest with
      | ',' :: rest => readFields depth steps entries rest
      | '}' :: rest => some (.table .braces entries, rest)
      | _ => none

end

/-- Reads the header of a table, its first bracket taken. -/
def readHeader (text : List Char) : Option (Statement × List Char) :=
  match text with
  | '[' :: text => do
    let (path, rest) ← readPath (skipBlanks text)
    match rest with
    | ']' :: ']' :: rest => some (.row path, rest)
    | _ => none
  | text => do
    let (path, rest) ← readPath (skipBlanks text)
    match rest with
    | ']' :: rest => some (.table path, rest)
    | _ => none

/-- Reads a path of keys, an equals sign and a value. -/
def readAssignment (text : List Char) : Option (Statement × List Char) := do
  let (path, rest) ← readPath text
  let rest ← skip? '=' rest
  let (value, rest) ← readValue 0 (rest.length + 1) rest
  some (.assign path value, rest)

/-- Reads the statements of a document. -/
def readStatements : Nat → List Char → Option (List Statement)
  | 0, _ => none
  | steps + 1, text =>
    match skipBlanks text with
    | [] => some []
    | c :: rest =>
      if c = '\n' ∨ c = '\r' ∨ c = '#' then (endLine? (c :: rest)).bind (readStatements steps)
      else do
        let (statement, rest) ← if c = '[' then readHeader rest else readAssignment (c :: rest)
        let rest ← endLine? rest
        let statements ← readStatements steps rest
        some (statement :: statements)

end Flipbook.Toml
