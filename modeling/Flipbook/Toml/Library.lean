import Flipbook.Toml.Statement

/-!
# Libraries for TOML

The program leaves TOML to a library. It tells the library how a record is declared, that
is, which fields it has and what they are by default, and the library writes such records
as documents and reads them from documents.

Any library will do that keeps to `Library.Lawful`: it gives every field a line of its own,
and reads such lines. Nothing is said of the documents that nobody wrote for the program.
-/

namespace Flipbook.Toml

/-- The value of a field. -/
inductive Value where
  /-- One of several names. -/
  | word (text : String)
  | boolean (value : Bool)
  | natural (n : Nat)
  deriving DecidableEq, Repr

/-- How a field of a record is declared: its key, its value in a record unless it is left
out there, and the record with another value for it, if the field can have that value. -/
structure Field (α : Type) where
  key : String
  value? : α → Option Value
  set? : α → Value → Option α

/-- How a record is declared: its fields in order, and what it is when all of
them are missing. -/
structure Declaration (α : Type) where
  fields : List (Field α)
  standard : α

/-- Fields of a record that stand in a table of their own. -/
structure Table (α : Type) where
  name : String
  fields : List (Field α)

/-- A field of a part is a field of the whole. -/
def Field.within {α β : Type} (part : β → α) (replace : β → α → β) (field : Field α) :
    Field β where
  key := field.key
  value? whole := field.value? (part whole)
  set? whole value := (field.set? (part whole) value).map (replace whole)

namespace Declaration

variable {α : Type}

/-- The fields that are not left out, by their keys. -/
def entries (d : Declaration α) (record : α) : List (String × Value) :=
  d.fields.filterMap fun field => (field.value? record).map (field.key, ·)

/-- The record with another value for the field of this key. -/
def set? (d : Declaration α) (record : α) (entry : String × Value) : Option α :=
  (d.fields.find? (·.key == entry.1)).bind (·.set? record entry.2)

/-- The record that has these entries, and is standard in all other fields. -/
def ofEntries? (d : Declaration α) (entries : List (String × Value)) : Option α :=
  entries.foldlM d.set? d.standard

end Declaration

/-- What a library can do. Where it refuses, it says why, the nearest reason first. -/
structure Library where
  /-- Writes a record as a document. -/
  write : {α : Type} → Declaration α → α → Except (List String) String
  /-- Reads a record from a document. -/
  read : {α : Type} → Declaration α → String → Except (List String) α
  /-- Reads a record from the tables of a document, given what it is without them. -/
  readTables : {α : Type} → List (Table α) → α → String → Except (List String) α

/-- The document of these lines. -/
def ofLines (lines : List String) : String :=
  String.join (lines.map (· ++ "\n"))

/-- The line that gives a key its value, which is spelled as told. -/
def line (spell : Value → String) (entry : String × Value) : String :=
  entry.1 ++ " = " ++ spell entry.2

/-- The key of a line: what it begins with that may stand in a bare key. -/
def keyOf (line : String) : String :=
  String.ofList (line.toList.takeWhile isBareKey)

/-- A value that needs no escapes: a word of the characters of keys, or a number of 64 bits. -/
def Value.Plain : Value → Prop
  | .word text => ∀ c ∈ text.toList, isBareKey c = true
  | .boolean _ => True
  | .natural n => n < UInt64.size

/-- The entry has a bare key and a plain value. -/
structure PlainEntry (entry : String × Value) : Prop where
  keyed : entry.1.toList ≠ []
  bare : ∀ c ∈ entry.1.toList, isBareKey c = true
  plain : entry.2.Plain

/-- What a library is relied on for. A record is written with a line for each field that
is not left out, in the order of the fields, and a document of such lines is read as the
record with these fields, in whatever order they come and whichever are missing. -/
structure Library.Lawful (library : Library) (spell : Value → String) : Prop where
  spell_oneLine : ∀ value : Value, value.Plain → '\n' ∉ (spell value).toList
  write_eq : ∀ {α : Type} (d : Declaration α) (record : α),
    (∀ entry ∈ d.entries record, PlainEntry entry) → ((d.entries record).map Prod.fst).Nodup →
      library.write d record = .ok (ofLines ((d.entries record).map (line spell)))
  read_eq : ∀ {α : Type} (d : Declaration α) (entries : List (String × Value)) (record : α),
    (∀ entry ∈ entries, PlainEntry entry) → (entries.map Prod.fst).Nodup →
      d.ofEntries? entries = some record →
        library.read d (ofLines (entries.map (line spell))) = .ok record

end Flipbook.Toml
