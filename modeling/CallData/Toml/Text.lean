/-
CallData/Toml/Text.lean

Blanks, comments, strings and keys of TOML 1.0.

A line ends with a line feed, with or without a carriage return before it.  Control
characters other than the tab are written nowhere, neither in comments nor in strings.
Readers take the rest of the document and give what is left of it.
-/
import CallData.Text.Digits

namespace CallData.Toml

/-! ### Blanks, line ends and comments -/

/-- A blank within a line. -/
def isBlank (c : Char) : Bool := c == ' ' || c == '\t'

/-- The text without the blanks it begins with. -/
def skipBlanks (cs : List Char) : List Char := cs.dropWhile isBlank

/-- What follows a line end, if one stands here. -/
def afterNewline? : List Char → Option (List Char)
  | '\n' :: rest => some rest
  | '\r' :: '\n' :: rest => some rest
  | _ => none

/-- The character may stand in comments and strings: a tab, or no control character. -/
def isPlain (c : Char) : Bool := c == '\t' || (0x20 ≤ c.toNat && c.toNat != 0x7F)

/-- The text without the comment it begins with, if there is one. -/
def skipComment : List Char → List Char
  | '#' :: rest => rest.dropWhile isPlain
  | cs => cs

/-- What follows the blanks, the comment and the line end that close a statement.  The end
of the document serves as a line end. -/
def afterLine? (cs : List Char) : Option (List Char) :=
  match skipComment (skipBlanks cs) with
  | [] => some []
  | rest => afterNewline? rest

/-- The text without the blanks, comments and line ends it begins with, of which no more
than `fuel` lines are passed over. -/
def skipLines : Nat → List Char → Option (List Char)
  | 0, cs => some cs
  | fuel + 1, cs =>
    match skipBlanks cs with
    | '#' :: rest =>
      match afterNewline? (rest.dropWhile isPlain) with
      | some rest' => skipLines fuel rest'
      | none => none
    | rest =>
      match afterNewline? rest with
      | some rest' => skipLines fuel rest'
      | none => some rest

/-! ### Strings on one line -/

/-- The number that hexadecimal digits spell. -/
def hexNumber? (ds : List Char) : Option Nat :=
  ds.foldlM (fun n c => (Text.hexValue? c).map fun d => 16 * n + d) 0

/-- The character of this number, unless it is half of a surrogate pair or too large. -/
def charOfNumber? (n : Nat) : Option Char :=
  if n.isValidChar then some (Char.ofNat n) else none

/-- The character that an escape stands for, the backslash having been read. -/
def escape? : List Char → Option (Char × List Char)
  | 'b' :: rest => some ('\x08', rest)
  | 't' :: rest => some ('\t', rest)
  | 'n' :: rest => some ('\n', rest)
  | 'f' :: rest => some ('\x0c', rest)
  | 'r' :: rest => some ('\r', rest)
  | '"' :: rest => some ('"', rest)
  | '\\' :: rest => some ('\\', rest)
  | 'u' :: a :: b :: c :: d :: rest => do
    let ch ← charOfNumber? (← hexNumber? [a, b, c, d])
    return (ch, rest)
  | 'U' :: a :: b :: c :: d :: e :: f :: g :: h :: rest => do
    let ch ← charOfNumber? (← hexNumber? [a, b, c, d, e, f, g, h])
    return (ch, rest)
  | _ => none

/-- The content of a string between double quotes, the first of which has been read. -/
def basic? : Nat → List Char → Option (List Char × List Char)
  | _, '"' :: rest => some ([], rest)
  | fuel + 1, '\\' :: rest => do
    let (c, rest') ← escape? rest
    let (content, rest'') ← basic? fuel rest'
    return (c :: content, rest'')
  | fuel + 1, c :: rest =>
    if isPlain c then do
      let (content, rest') ← basic? fuel rest
      return (c :: content, rest')
    else none
  | _, _ => none

/-- The content of a string between single quotes, the first of which has been read. -/
def literal? : List Char → Option (List Char × List Char)
  | '\'' :: rest => some ([], rest)
  | c :: rest =>
    if isPlain c then do
      let (content, rest') ← literal? rest
      return (c :: content, rest')
    else none
  | [] => none

/-! ### Strings over several lines -/

/-- The text without the line end that may follow the opening quotes. -/
def afterOpening (cs : List Char) : List Char := (afterNewline? cs).getD cs

/-- The quotes at the start of a text that close a string, seen as the content that they
still add and the rest.  Up to two quotes may stand before the closing three; fewer than
three close nothing. -/
def closing? (quote : Char) (cs : List Char) : Option (List Char × List Char) :=
  let count := (cs.takeWhile (· == quote)).length
  if count < 3 then none
  else
    let extra := min (count - 3) 2
    some (List.replicate extra quote, cs.drop (extra + 3))

/-- The text without the blanks and line ends it begins with. -/
def skipWhite : Nat → List Char → List Char
  | 0, cs => cs
  | fuel + 1, cs =>
    match skipBlanks cs with
    | rest =>
      match afterNewline? rest with
      | some rest' => skipWhite fuel rest'
      | none => rest

/-- The content of a string between three double quotes, after the opening. -/
def multilineBasic? : Nat → List Char → Option (List Char × List Char)
  | 0, _ => none
  | fuel + 1, cs =>
    match closing? '"' cs with
    | some closed => some closed
    | none =>
      match afterNewline? cs with
      | some rest => do
        let (content, rest') ← multilineBasic? fuel rest
        return ('\n' :: content, rest')
      | none =>
        match cs with
        | '\\' :: rest =>
          match afterNewline? (skipBlanks rest) with
          | some next => multilineBasic? fuel (skipWhite next.length next)
          | none => do
            let (c, rest') ← escape? rest
            let (content, rest'') ← multilineBasic? fuel rest'
            return (c :: content, rest'')
        | c :: rest =>
          if isPlain c then do
            let (content, rest') ← multilineBasic? fuel rest
            return (c :: content, rest')
          else none
        | [] => none

/-- The content of a string between three single quotes, after the opening. -/
def multilineLiteral? : Nat → List Char → Option (List Char × List Char)
  | 0, _ => none
  | fuel + 1, cs =>
    match closing? '\'' cs with
    | some closed => some closed
    | none =>
      match afterNewline? cs with
      | some rest => do
        let (content, rest') ← multilineLiteral? fuel rest
        return ('\n' :: content, rest')
      | none =>
        match cs with
        | c :: rest =>
          if isPlain c then do
            let (content, rest') ← multilineLiteral? fuel rest
            return (c :: content, rest')
          else none
        | [] => none

/-- A string of any of the four kinds. -/
def string? : List Char → Option (List Char × List Char)
  | '"' :: '"' :: '"' :: rest => multilineBasic? (rest.length + 1) (afterOpening rest)
  | '\'' :: '\'' :: '\'' :: rest => multilineLiteral? (rest.length + 1) (afterOpening rest)
  | '"' :: rest => basic? rest.length rest
  | '\'' :: rest => literal? rest
  | _ => none

/-! ### Keys -/

/-- A character of a key that stands without quotes. -/
def isBareKeyChar (c : Char) : Bool := c.isAlphanum || c == '_' || c == '-'

/-- A key without dots. -/
def simpleKey? : List Char → Option (String × List Char)
  | '"' :: rest => (basic? rest.length rest).map fun (k, r) => (String.ofList k, r)
  | '\'' :: rest => (literal? rest).map fun (k, r) => (String.ofList k, r)
  | cs =>
    let run := cs.takeWhile isBareKeyChar
    if run.isEmpty then none else some (String.ofList run, cs.dropWhile isBareKeyChar)

/-- The parts of a key, of which there are no more than `limit`, and what follows the
blanks after them.  Blanks may stand around each part. -/
def keyParts? : Nat → List Char → Option (List String × List Char)
  | 0, _ => none
  | limit + 1, cs => do
    let (part, rest) ← simpleKey? (skipBlanks cs)
    match skipBlanks rest with
    | '.' :: rest' => do
      let (parts, rest'') ← keyParts? limit rest'
      return (part :: parts, rest'')
    | rest' => return ([part], rest')

/-- How many levels deep arrays and tables between braces may stand in each other, and how
many parts a key may have. -/
def maxDepth : Nat := 79

/-- A dotted key. -/
def key? (cs : List Char) : Option (List String × List Char) := keyParts? maxDepth cs

end CallData.Toml
