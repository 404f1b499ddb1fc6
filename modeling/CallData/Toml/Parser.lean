/-
CallData/Toml/Parser.lean

Reading TOML 1.0 documents.

A document is a list of statements, each on lines of its own, after an optional byte order
mark.  Values may hold other values: an array may go over several lines, a table between
braces may not.  The readers of values go down one unit of `fuel` with each nested call, and
every call has used up a character by then.
-/
import CallData.Toml.Node
import CallData.Toml.Number
import CallData.Toml.Text

namespace CallData.Toml

/-! ### Values -/

/-- A date, a time or a number. -/
def numeric? (cs : List Char) : Option (Node × List Char) :=
  match moment? cs with
  | some rest => some (.moment, rest)
  | none =>
    match (decimal? cs <|> special? cs <|> integer? cs) with
    | some rest => some (.number, rest)
    | none => none

mutual

/-- A value.  It may contain `depth` further levels of nesting. -/
def value? (fuel depth : Nat) (cs : List Char) : Option (Node × List Char) :=
  match fuel with
  | 0 => none
  | fuel + 1 =>
    match cs with
    | 't' :: 'r' :: 'u' :: 'e' :: rest => some (.flag true, rest)
    | 'f' :: 'a' :: 'l' :: 's' :: 'e' :: rest => some (.flag false, rest)
    | '[' :: rest =>
      match depth with
      | 0 => none
      | depth + 1 => (items? fuel depth rest).map fun (items, r) => (.array items, r)
    | '\x7b' :: rest =>
      match depth with
      | 0 => none
      | depth + 1 =>
        match skipBlanks rest with
        | '\x7d' :: rest' => some (.table .inline [], rest')
        | _ => do
          let (pairs, r) ← pairs? fuel depth rest
          let entries ← buildInline [] pairs
          return (.table .inline entries, r)
    | '"' :: _ => (string? cs).map fun (s, r) => (.text (String.ofList s), r)
    | '\'' :: _ => (string? cs).map fun (s, r) => (.text (String.ofList s), r)
    | _ => numeric? cs

/-- The items of an array and its closing bracket.  A comma may follow the last item. -/
def items? (fuel depth : Nat) (cs : List Char) : Option (List Node × List Char) :=
  match fuel with
  | 0 => none
  | fuel + 1 =>
    match skipLines (cs.length + 1) cs with
    | none => none
    | some (']' :: rest) => some ([], rest)
    | some start =>
      match value? fuel depth start with
      | none => none
      | some (item, rest) =>
        match skipLines (rest.length + 1) rest with
        | some (']' :: rest') => some ([item], rest')
        | some (',' :: rest') => (items? fuel depth rest').map fun (items, r) => (item :: items, r)
        | _ => none

/-- The assignments of a table between braces, of which there is at least one, and its
closing brace. -/
def pairs? (fuel depth : Nat) (cs : List Char) :
    Option (List (List String × Node) × List Char) :=
  match fuel with
  | 0 => none
  | fuel + 1 =>
    match key? cs with
    | some (path, '=' :: start) =>
      match value? fuel depth (skipBlanks start) with
      | none => none
      | some (node, rest) =>
        match skipBlanks rest with
        | '\x7d' :: rest' => some ([(path, node)], rest')
        | ',' :: rest' =>
          (pairs? fuel depth rest').map fun (pairs, r) => ((path, node) :: pairs, r)
        | _ => none
    | _ => none

end

/-! ### Statements -/

/-- The statement of a header, given its path. -/
def headerOf? (make : List String → String → Statement) (path : List String) :
    Option Statement :=
  path.getLast?.map fun key => make path.dropLast key

/-- A statement and what follows its line. -/
def statement? (cs : List Char) : Option (Statement × List Char) :=
  match cs with
  | '[' :: '[' :: start =>
    match key? start with
    | some (path, ']' :: ']' :: rest) => do
      let statement ← headerOf? .element path
      return (statement, ← afterLine? rest)
    | _ => none
  | '[' :: start =>
    match key? start with
    | some (path, ']' :: rest) => do
      let statement ← headerOf? .header path
      return (statement, ← afterLine? rest)
    | _ => none
  | _ =>
    match key? cs with
    | some (path, '=' :: start) => do
      let (node, rest) ← value? (start.length + 1) maxDepth (skipBlanks start)
      return (.assign path node, ← afterLine? rest)
    | _ => none

/-- The statements of a document. -/
def statements? : Nat → List Char → Option (List Statement)
  | 0, _ => none
  | fuel + 1, cs =>
    match skipBlanks cs with
    | [] => some []
    | '#' :: rest => do
      let rest' ← afterLine? ('#' :: rest)
      statements? fuel rest'
    | rest =>
      match afterNewline? rest with
      | some rest' => statements? fuel rest'
      | none => do
        let (statement, rest') ← statement? rest
        let others ← statements? fuel rest'
        return statement :: others

/-- The text without one byte order mark at its start. -/
def skipMark : List Char → List Char
  | '\uFEFF' :: rest => rest
  | cs => cs

/-- Reads a document: the entries of its top level. -/
def parse? (text : String) : Option Entries := do
  let cs := skipMark text.toList
  let statements ← statements? (cs.length + 1) cs
  build [] [] statements

end CallData.Toml
