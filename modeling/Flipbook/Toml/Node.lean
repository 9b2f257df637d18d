/-!
# TOML values

A document is a table of nodes. A table remembers how it came to be, because that decides
who may add to it: a table is opened by a header at most once, a dotted key adds only to
tables that dotted keys made, and what stands in braces is closed for good.

A number with the shape of one is kept even if it has no value, because it is too large or
a digit is wrong. Such a number does no harm until somebody looks at it, and `hasValue`
says that there is none.
-/

namespace Flipbook.Toml

/-- How a table came to be. -/
inductive Origin where
  /-- It has a header of its own. -/
  | header
  /-- It stands on the way to the table of a header. -/
  | implied
  /-- It stands on the way to the value of a dotted key. -/
  | dotted
  /-- It is written in braces. -/
  | braces
  deriving DecidableEq, Repr

/-- A value. -/
inductive Node where
  | string (text : String)
  /-- An integer, and its value if it has one. -/
  | integer (value : Option Int)
  /-- A float, and whether it has a value. The value is not kept, since no
  setting is a float. -/
  | float (valued : Bool)
  | boolean (value : Bool)
  | array (items : List Node)
  /-- Tables under repeated headers: the complete ones, latest first, and the entries
  of the open one. -/
  | rows (earlier : List Node) (latest : List (String × Node))
  | table (origin : Origin) (entries : List (String × Node))

/-- The entries of a table, in the order in which they were written. -/
abbrev Entries := List (String × Node)

namespace Node

/-- The items of a node that is a list of nodes. -/
def items? : Node → Option (List Node)
  | .array items => some items
  | .rows earlier latest => some (earlier.reverse ++ [.table .header latest])
  | _ => none

/-- The node is a list without items or a table without entries. -/
def isVoid : Node → Bool
  | .array items => items.isEmpty
  | .table _ entries => entries.isEmpty
  | _ => false

mutual

/-- Every number in the node has a value. -/
def hasValue : Node → Bool
  | .string _ => true
  | .integer value => value.isSome
  | .float valued => valued
  | .boolean _ => true
  | .array items => itemsHaveValues items
  | .rows earlier latest => itemsHaveValues earlier && entriesHaveValues latest
  | .table _ entries => entriesHaveValues entries

/-- Every number in these nodes has a value. -/
def itemsHaveValues : List Node → Bool
  | [] => true
  | item :: items => item.hasValue && itemsHaveValues items

/-- Every number in the nodes of these entries has a value. -/
def entriesHaveValues : List (String × Node) → Bool
  | [] => true
  | (_, node) :: entries => node.hasValue && entriesHaveValues entries

end

end Node

namespace Entries

/-- The entries with another node under a key that they have. -/
def replace (entries : Entries) (key : String) (node : Node) : Entries :=
  entries.map fun entry => if entry.1 == key then (key, node) else entry

/-- Puts a value under a path of keys, where `direct` says whether the table may take a
key directly. The tables on the way are made as they are needed; of tables under repeated
headers the way leads through the open one. -/
def assign (entries : Entries) (direct : Bool) (value : Node) : List String → Option Entries
  | [] => none
  | [key] =>
    if direct && (entries.lookup key).isNone then some (entries ++ [(key, value)]) else none
  | key :: path =>
    match entries.lookup key with
    | none =>
      (assign [] true value path).map fun inner => entries ++ [(key, .table .dotted inner)]
    | some (.table .dotted inner) =>
      (assign inner true value path).map fun inner =>
        entries.replace key (.table .dotted inner)
    | some (.table .implied inner) =>
      (assign inner false value path).map fun inner =>
        entries.replace key (.table .implied inner)
    | some (.rows earlier latest) =>
      (assign latest false value path).map fun latest =>
        entries.replace key (.rows earlier latest)
    | some _ => none

/-- Opens the table at the path of a header, or one more of the tables under a `repeated`
header. The tables on the way are made as they are needed; of tables under repeated
headers the way leads through the open one. -/
def openTable (entries : Entries) (repeated : Bool) : List String → Option Entries
  | [] => none
  | [key] =>
    match entries.lookup key with
    | none =>
      some (entries ++ [(key, if repeated then .rows [] [] else .table .header [])])
    | some (.table .implied inner) =>
      if repeated then none else some (entries.replace key (.table .header inner))
    | some (.rows earlier latest) =>
      if repeated then
        some (entries.replace key (.rows (.table .header latest :: earlier) []))
      else none
    | some _ => none
  | key :: path =>
    match entries.lookup key with
    | none =>
      (openTable [] repeated path).map fun inner => entries ++ [(key, .table .implied inner)]
    | some (.table .braces _) => none
    | some (.table origin inner) =>
      (openTable inner repeated path).map fun inner =>
        entries.replace key (.table origin inner)
    | some (.rows earlier latest) =>
      (openTable latest repeated path).map fun latest =>
        entries.replace key (.rows earlier latest)
    | some _ => none

/-- Puts a value under a path of keys in the table that was opened at `header`. -/
def assignAt (entries : Entries) (path : List String) (value : Node) :
    List String → Option Entries
  | [] => entries.assign true value path
  | key :: header =>
    match entries.lookup key with
    | some (.table origin inner) =>
      (assignAt inner path value header).map fun inner =>
        entries.replace key (.table origin inner)
    | some (.rows earlier latest) =>
      (assignAt latest path value header).map fun latest =>
        entries.replace key (.rows earlier latest)
    | _ => none

end Entries

end Flipbook.Toml
