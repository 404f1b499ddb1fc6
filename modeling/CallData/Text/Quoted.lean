/-
CallData/Text/Quoted.lean

How a single byte is shown in a message: read as a Latin-1 character, between single
quotes, and escaped where it would not be seen.
-/
namespace CallData.Text

/-- The hexadecimal escape of a character number. -/
def numericEscape (n : Nat) : String :=
  "\\u\x7b" ++ String.ofList (Nat.toDigits 16 n) ++ "\x7d"

/-- A Latin-1 character that leaves a mark on the page, or is the plain space.
The controls, the no-break space and the soft hyphen do not. -/
def isVisibleLatin1 (n : Nat) : Bool :=
  (0x20 ≤ n && n ≤ 0x7E) || (0xA1 ≤ n && n != 0xAD)

/-- A byte as a quoted Latin-1 character.  The quote and the backslash are escaped, four
controls have a name, and all else that is not visible is written by its number. -/
def quotedByte (b : UInt8) : String :=
  let body :=
    match b.toNat with
    | 0x00 => "\\0"
    | 0x09 => "\\t"
    | 0x0A => "\\n"
    | 0x0D => "\\r"
    | 0x27 => "\\'"
    | 0x5C => "\\\\"
    | n => if isVisibleLatin1 n then String.singleton (Char.ofNat n) else numericEscape n
  "'" ++ body ++ "'"

end CallData.Text
