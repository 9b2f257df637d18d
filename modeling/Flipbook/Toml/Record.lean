import Flipbook.Toml.Document
import Flipbook.Toml.Library

/-!
# A library for records in TOML

A record is written with a line for each field. It is read from a table, where its fields
have names, or from an array, where they have places. A field that is missing keeps its
default. What is not a field is passed over: in a table it only has to have a value, and
in an array not even that.
-/

namespace Flipbook.Toml

/-- A value as it is written. Words are names, which need no escapes. -/
def spell : Value → String
  | .word text => "\"" ++ text ++ "\""
  | .boolean value => if value then "true" else "false"
  | .natural n => toString n

/-- The document of a record: a line for each field that is not left out. -/
def Declaration.render {α : Type} (d : Declaration α) (record : α) : String :=
  ofLines ((d.entries record).map (line spell))

/-- The value that a node gives to a field. A name stands alone or is the only key of a
table, with nothing under it. -/
def Node.value? : Node → Option Value
  | .string text => some (.word text)
  | .boolean value => some (.boolean value)
  | .integer (some n) => if 0 ≤ n then some (.natural n.toNat) else none
  | .table _ [(text, inner)] => if inner.isVoid then some (.word text) else none
  | _ => none

/-- The record after one entry of a table; an entry that is no field only has
to have a value. -/
def readField? {α : Type} (fields : List (Field α)) (record : α) (entry : String × Node) :
    Option α :=
  match fields.find? (·.key == entry.1) with
  | some field => entry.2.value?.bind (field.set? record)
  | none => if entry.2.hasValue then some record else none

/-- The record with the fields that a node gives, which is a table or a list of nodes. -/
def readFields? {α : Type} (fields : List (Field α)) (record : α) (node : Node) : Option α :=
  match node with
  | .table _ entries => entries.foldlM (readField? fields) record
  | _ =>
    node.items?.bind fun items =>
      (fields.zip items).foldlM
        (fun record (field, item) => item.value?.bind (field.set? record)) record

/-- The record after one entry of a document that has tables of fields. -/
def readTable? {α : Type} (tables : List (Table α)) (record : α) (entry : String × Node) :
    Option α :=
  match tables.find? (·.name == entry.1) with
  | some table => readFields? table.fields record entry.2
  | none => if entry.2.hasValue then some record else none

/-- The record of the fields in a document. -/
def Declaration.parse? {α : Type} (d : Declaration α) (text : String) : Option α :=
  (Toml.parse? text).bind fun entries => entries.foldlM (readField? d.fields) d.standard

/-- The record of the fields in the tables of a document, from what it is without them. -/
def parseTables? {α : Type} (tables : List (Table α)) (standard : α) (text : String) :
    Option α :=
  (Toml.parse? text).bind fun entries => entries.foldlM (readTable? tables) standard

/-- The library of these readers and of the writer by lines. It gives no reasons. -/
def library : Library where
  write d record := .ok (d.render record)
  read d text := (d.parse? text).elim (.error []) .ok
  readTables tables standard text := (parseTables? tables standard text).elim (.error []) .ok

end Flipbook.Toml
