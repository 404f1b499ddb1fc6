/-
CallData/Text/Blank.lean

Blank characters and trimming.

Blank is what has the Unicode property White_Space: the ASCII blanks, U+0085, U+00A0 and
the spaces and separators of the later blocks.  The zero-width space, the byte order mark
and the separators U+001C to U+001F do not have it.
-/
namespace CallData.Text

/-- The character has the Unicode property White_Space. -/
def isBlank (c : Char) : Bool :=
  let n := c.toNat
  (0x9 ≤ n && n ≤ 0xD) || n == 0x20 || n == 0x85 || n == 0xA0 || n == 0x1680 ||
    (0x2000 ≤ n && n ≤ 0x200A) || n == 0x2028 || n == 0x2029 || n == 0x202F ||
    n == 0x205F || n == 0x3000

/-- The characters between the first and the last one that is not blank. -/
def trim (cs : List Char) : List Char :=
  ((cs.dropWhile isBlank).reverse.dropWhile isBlank).reverse

/-- A text of blank characters only, the empty one included. -/
def isBlankText (cs : List Char) : Bool := cs.all isBlank

end CallData.Text
