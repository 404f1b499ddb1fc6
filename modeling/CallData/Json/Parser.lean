/-
CallData/Json/Parser.lean

Reading JSON texts, strictly as RFC 8259 describes them.

Blanks are the space, the tab, the line feed and the carriage return.  A string holds no
control character below U+0020 and no escape of half a surrogate pair.  A text holds one
value and nothing after it, and its arrays and objects are nested at most 127 deep.

The readers take the rest of the text and give what is left of it.  Those for values and
strings go down one unit of `fuel` with each nested call.  What such a call reads is always
at least as long as the calls it makes are deep, so the length of the text is enough.
-/
import CallData.Json.Basic

namespace CallData.Json

/-! ### Blanks and words -/

/-- A blank of the JSON grammar. -/
def isBlank (c : Char) : Bool := c == ' ' || c == '\t' || c == '\n' || c == '\r'

/-- The text without the blanks it begins with. -/
def skipBlanks (cs : List Char) : List Char := cs.dropWhile isBlank

/-- What follows a word at the start of a text. -/
def afterWord? : List Char → List Char → Option (List Char)
  | [], cs => some cs
  | w :: word, c :: cs => if w = c then afterWord? word cs else none
  | _ :: _, [] => none

/-! ### Strings -/

/-- The number that four hexadecimal digits spell. -/
def hex4? (a b c d : Char) : Option Nat := do
  let w ← Text.hexValue? a
  let x ← Text.hexValue? b
  let y ← Text.hexValue? c
  let z ← Text.hexValue? d
  return 4096 * w + 256 * x + 16 * y + z

/-- The first unit of a surrogate pair. -/
def isHighSurrogate (n : Nat) : Bool := 0xD800 ≤ n && n < 0xDC00

/-- The second unit of a surrogate pair. -/
def isLowSurrogate (n : Nat) : Bool := 0xDC00 ≤ n && n < 0xE000

/-- The character that a surrogate pair stands for. -/
def joinSurrogates (high low : Nat) : Char :=
  Char.ofNat (0x10000 + (high - 0xD800) * 0x400 + (low - 0xDC00))

/-- The character that a backslash and this one stand for. -/
def simpleEscape? : Char → Option Char
  | '"' => some '"'
  | '\\' => some '\\'
  | '/' => some '/'
  | 'b' => some '\x08'
  | 'f' => some '\x0c'
  | 'n' => some '\n'
  | 'r' => some '\r'
  | 't' => some '\t'
  | _ => none

/-- One character of a string, written raw or as an escape, and what follows it. -/
def readChar? : List Char → Option (Char × List Char)
  | '\\' :: 'u' :: a :: b :: c :: d :: rest => do
    let n ← hex4? a b c d
    if isHighSurrogate n then
      match rest with
      | '\\' :: 'u' :: e :: f :: g :: h :: rest' => do
        let m ← hex4? e f g h
        if isLowSurrogate m then some (joinSurrogates n m, rest') else none
      | _ => none
    else if isLowSurrogate n then none
    else some (Char.ofNat n, rest)
  | '\\' :: c :: rest => do
    let e ← simpleEscape? c
    return (e, rest)
  | '"' :: _ => none
  | c :: rest => if c.toNat < 0x20 then none else some (c, rest)
  | [] => none

/-- The characters of a string up to its closing quote, of which there are at most `fuel`,
and what follows the quote. -/
def readString? : Nat → List Char → Option (List Char × List Char)
  | _, '"' :: rest => some ([], rest)
  | 0, _ => none
  | fuel + 1, cs => do
    let (c, rest) ← readChar? cs
    let (content, rest') ← readString? fuel rest
    return (c :: content, rest')

/-- A string of at most `fuel` characters whose opening quote has been read. -/
def string? (fuel : Nat) (cs : List Char) : Option (String × List Char) := do
  let (content, rest) ← readString? fuel cs
  return (String.ofList content, rest)

/-! ### Numbers -/

/-- The fraction of a number, if one begins here. -/
def fraction? : List Char → Option (Option Text.Digits × List Char)
  | '.' :: rest => do
    let (ds, rest') ← Text.Digits.read? rest
    return (some ds, rest')
  | cs => some (none, cs)

/-- The digits of an exponent after its optional sign. -/
def exponentDigits? : List Char → Option ((Bool × Text.Digits) × List Char)
  | '+' :: rest => (Text.Digits.read? rest).map fun (ds, rest') => ((false, ds), rest')
  | '-' :: rest => (Text.Digits.read? rest).map fun (ds, rest') => ((true, ds), rest')
  | cs => (Text.Digits.read? cs).map fun (ds, rest') => ((false, ds), rest')

/-- The exponent of a number, if one begins here. -/
def exponent? : List Char → Option (Option (Bool × Text.Digits) × List Char)
  | 'e' :: rest => (exponentDigits? rest).map fun (e, rest') => (some e, rest')
  | 'E' :: rest => (exponentDigits? rest).map fun (e, rest') => (some e, rest')
  | cs => some (none, cs)

/-- A number without its sign. -/
def unsigned? (negative : Bool) (cs : List Char) : Option (Number × List Char) := do
  let (whole, rest) ← Text.Digits.read? cs
  if whole.hasLeadingZero then none
  else
    let (fraction, rest) ← fraction? rest
    let (exponent, rest) ← exponent? rest
    return (⟨negative, whole, fraction, exponent⟩, rest)

def number? : List Char → Option (Number × List Char)
  | '-' :: rest => unsigned? true rest
  | cs => unsigned? false cs

/-! ### Values -/

mutual

/-- A value after optional blanks.  It may contain `depth` further levels of nesting. -/
def value? (fuel depth : Nat) (cs : List Char) : Option (Json × List Char) :=
  match fuel with
  | 0 => none
  | fuel + 1 =>
    match skipBlanks cs with
    | 'n' :: rest => (afterWord? ['u', 'l', 'l'] rest).map fun r => (.null, r)
    | 't' :: rest => (afterWord? ['r', 'u', 'e'] rest).map fun r => (.bool true, r)
    | 'f' :: rest => (afterWord? ['a', 'l', 's', 'e'] rest).map fun r => (.bool false, r)
    | '"' :: rest => (string? fuel rest).map fun (s, r) => (.string s, r)
    | '[' :: rest =>
      match depth with
      | 0 => none
      | depth + 1 =>
        match skipBlanks rest with
        | ']' :: rest' => some (.array [], rest')
        | _ => (items? fuel depth rest).map fun (items, r) => (.array items, r)
    | '\x7b' :: rest =>
      match depth with
      | 0 => none
      | depth + 1 =>
        match skipBlanks rest with
        | '\x7d' :: rest' => some (.object [], rest')
        | _ => (members? fuel depth rest).map fun (members, r) => (.object members, r)
    | start => (number? start).map fun (n, r) => (.number n, r)

/-- The items of an array, of which there is at least one, and its closing bracket. -/
def items? (fuel depth : Nat) (cs : List Char) : Option (List Json × List Char) :=
  match fuel with
  | 0 => none
  | fuel + 1 =>
    match value? fuel depth cs with
    | none => none
    | some (item, rest) =>
      match skipBlanks rest with
      | ']' :: rest' => some ([item], rest')
      | ',' :: rest' => (items? fuel depth rest').map fun (items, r) => (item :: items, r)
      | _ => none

/-- The members of an object, of which there is at least one, and its closing brace. -/
def members? (fuel depth : Nat) (cs : List Char) : Option (List (String × Json) × List Char) :=
  match fuel with
  | 0 => none
  | fuel + 1 =>
    match skipBlanks cs with
    | '"' :: start =>
      match string? fuel start with
      | none => none
      | some (key, afterKey) =>
        match skipBlanks afterKey with
        | ':' :: afterColon =>
          match value? fuel depth afterColon with
          | none => none
          | some (item, rest) =>
            match skipBlanks rest with
            | '\x7d' :: rest' => some ([(key, item)], rest')
            | ',' :: rest' =>
              (members? fuel depth rest').map fun (members, r) => ((key, item) :: members, r)
            | _ => none
        | _ => none
    | _ => none

end

/-- How many levels of arrays and objects a text may have. -/
def maxDepth : Nat := 127

/-- Reads a text that holds one value and nothing else. -/
def ofChars? (cs : List Char) : Option Json :=
  match value? (cs.length + 1) maxDepth cs with
  | some (v, rest) => if (skipBlanks rest).isEmpty then some v else none
  | none => none

def parse? (text : String) : Option Json := ofChars? text.toList

end CallData.Json
