/-
CallData/Toml/Node.lean

The tree that a TOML document describes, and how its statements grow it.

A table remembers how it came about, because that decides what may still be added to it:
a table that is written between braces is finished, one opened by a header takes no dotted
keys from outside, and one made by a dotted key gets no header of its own.  Of numbers,
dates and times only the fact that they are there is kept.
-/
namespace CallData.Toml

/-- How a table came about. -/
inductive Origin where
  /-- It stands on the way to a table that has a header. -/
  | implied
  /-- It stands on the way of a dotted key. -/
  | dotted
  /-- It has a header, or is an element of an array of tables. -/
  | header
  /-- It is written between braces. -/
  | inline
  deriving DecidableEq, Repr

/-- A node of the document tree. -/
inductive Node where
  | flag (value : Bool)
  | text (content : String)
  /-- An integer or a number with a fraction or an exponent. -/
  | number
  /-- A date, a time, or both. -/
  | moment
  | array (items : List Node)
  | table (origin : Origin) (entries : List (String × Node))
  /-- An array of tables, the last one first. -/
  | tables (items : List (List (String × Node)))

/-- The entries of a table, each key once. -/
abbrev Entries := List (String × Node)

namespace Entries

def get? (entries : Entries) (key : String) : Option Node := entries.lookup key

/-- The entries with this node under this key. -/
def put (key : String) (node : Node) : Entries → Entries
  | [] => [(key, node)]
  | (k, n) :: rest => if k = key then (key, node) :: rest else (k, n) :: put key node rest

/-! ### Keys with dots -/

/-- Puts a new node under a dotted key.  The tables on the way are made if need be; one that
is there may not have a header or be written between braces, and the last one has to come
from a dotted key as well. -/
def insert (entries : Entries) : List String → Node → Option Entries
  | [], _ => none
  | [key], node =>
    match entries.get? key with
    | none => some (entries.put key node)
    | some _ => none
  | key :: path, node =>
    match entries.get? key with
    | none => do
      let inner ← insert [] path node
      return entries.put key (.table .dotted inner)
    | some (.table .dotted inner) => do
      let inner' ← insert inner path node
      return entries.put key (.table .dotted inner')
    | some (.table .implied inner) =>
      if path.length = 1 then none
      else do
        let inner' ← insert inner path node
        return entries.put key (.table .implied inner')
    | some (.tables (last :: earlier)) =>
      if path.length = 1 then none
      else do
        let last' ← insert last path node
        return entries.put key (.tables (last' :: earlier))
    | some _ => none

/-! ### Headers -/

/-- Changes the entries of the table that a header's path leads to.  The tables on the way
are made if need be, and of an array of tables the last one is meant. -/
def descend (change : Entries → Option Entries) : List String → Entries → Option Entries
  | [], entries => change entries
  | key :: path, entries =>
    match entries.get? key with
    | none => do
      let inner ← descend change path []
      return entries.put key (.table .implied inner)
    | some (.table .inline _) => none
    | some (.table origin inner) => do
      let inner' ← descend change path inner
      return entries.put key (.table origin inner')
    | some (.tables (last :: earlier)) => do
      let last' ← descend change path last
      return entries.put key (.tables (last' :: earlier))
    | some _ => none

/-- Opens the table of a header `[key]` among the entries of its parent. -/
def openTable (key : String) (entries : Entries) : Option Entries :=
  match entries.get? key with
  | none => some (entries.put key (.table .header []))
  | some (.table .implied inner) => some (entries.put key (.table .header inner))
  | some _ => none

/-- Opens the next table of a header `[[key]]` among the entries of its parent. -/
def openElement (key : String) (entries : Entries) : Option Entries :=
  match entries.get? key with
  | none => some (entries.put key (.tables [[]]))
  | some (.tables items) => some (entries.put key (.tables ([] :: items)))
  | some _ => none

end Entries

/-! ### Documents -/

/-- A statement of a document. -/
inductive Statement where
  | assign (path : List String) (node : Node)
  | header (parent : List String) (key : String)
  | element (parent : List String) (key : String)

/-- The entries that the statements describe, where assignments belong to the table at
`current`. -/
def build (current : List String) (root : Entries) : List Statement → Option Entries
  | [] => some root
  | .assign path node :: rest => do
    let root' ← Entries.descend (fun entries => entries.insert path node) current root
    build current root' rest
  | .header parent key :: rest => do
    let root' ← Entries.descend (Entries.openTable key) parent root
    build (parent ++ [key]) root' rest
  | .element parent key :: rest => do
    let root' ← Entries.descend (Entries.openElement key) parent root
    build (parent ++ [key]) root' rest

/-- The entries of a table that is written between braces. -/
def buildInline (entries : Entries) : List (List String × Node) → Option Entries
  | [] => some entries
  | (path, node) :: rest => do
    let entries' ← entries.insert path node
    buildInline entries' rest

end CallData.Toml
