/-
CallData/Json/Printer.lean

Writing JSON texts: strings, and flat objects over several lines or on one.

A string escapes the quote, the backslash and the control characters below U+0020, five of
them by a letter; every other character stands for itself.
-/
namespace CallData.Json

/-! ### Strings -/

/-- A control character by its number, in four lower-case digits. -/
def controlEscape (n : Nat) : List Char :=
  ['\\', 'u', '0', '0', Nat.digitChar (n / 16), Nat.digitChar (n % 16)]

/-- A character as it stands in a string. -/
def escapeChar (c : Char) : List Char :=
  if c = '"' then ['\\', '"']
  else if c = '\\' then ['\\', '\\']
  else if c = '\x08' then ['\\', 'b']
  else if c = '\t' then ['\\', 't']
  else if c = '\n' then ['\\', 'n']
  else if c = '\x0c' then ['\\', 'f']
  else if c = '\r' then ['\\', 'r']
  else if c.toNat < 0x20 then controlEscape c.toNat
  else [c]

/-- A string between quotes. -/
def quote (s : String) : List Char := '"' :: s.toList.flatMap escapeChar ++ ['"']

/-! ### Flat objects -/

/-- A value that contains no other value. -/
inductive Scalar where
  | text (content : String)
  | flag (value : Bool)
  | count (value : UInt64)
  deriving DecidableEq

def Scalar.chars : Scalar → List Char
  | text content => quote content
  | flag true => ['t', 'r', 'u', 'e']
  | flag false => ['f', 'a', 'l', 's', 'e']
  | count value => Nat.toDigits 10 value.toNat

/-- A member of an object on a line of its own. -/
def memberLine (member : String × Scalar) : List Char :=
  '\n' :: ' ' :: ' ' :: quote member.1 ++ ':' :: ' ' :: member.2.chars

/-- An object with each member on a line of its own. -/
def prettyObject (members : List (String × Scalar)) : List Char :=
  match members with
  | [] => ['\x7b', '\x7d']
  | _ => '\x7b' :: [','].intercalate (members.map memberLine) ++ ['\n', '\x7d']

/-- A member of an object without blanks. -/
def compactMember (member : String × Scalar) : List Char :=
  quote member.1 ++ ':' :: member.2.chars

/-- An object without blanks. -/
def compactObject (members : List (String × Scalar)) : List Char :=
  '\x7b' :: [','].intercalate (members.map compactMember) ++ ['\x7d']

end CallData.Json
