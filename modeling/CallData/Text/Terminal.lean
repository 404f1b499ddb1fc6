/-
CallData/Text/Terminal.lean

The text that is left when the control sequences for a terminal are taken out.

A control sequence starts with the escape character.  What comes next decides its kind, and
with it where the sequence ends.  Outside of sequences the blanks among the control
characters are kept and the other ones are dropped.  Within the short kinds a blank is kept as
well; it then interrupts the sequence, which goes on at the next character that is dropped.
-/
namespace CallData.Text

/-! ### Single characters -/

/-- A control character that counts as a blank: a tab, a line end or a page end. -/
def isBlankControl (c : Char) : Bool := c == '\t' || c == '\n' || c == '\x0c' || c == '\r'

/-- A character that is kept outside of control sequences. -/
def isKept (c : Char) : Bool := (0x20 ≤ c.toNat && c.toNat != 0x7F) || isBlankControl c

/-- The number of the character lies between the two bounds. -/
def isWithin (low high : Nat) (c : Char) : Bool := low ≤ c.toNat && c.toNat ≤ high

/-- The UTF-8 form of the character holds the byte that terminates a string of commands. -/
def holdsTerminator (c : Char) : Bool := (String.utf8EncodeChar c).contains 0x9C

/-! ### Control sequences -/

/-- Where a text stands with regard to control sequences. -/
inductive Sequence where
  | outside
  | escape
  /-- After further characters that announce a short sequence. -/
  | announced
  /-- Within a sequence with parameters, which ends with a letter. -/
  | parameters
  /-- Before the letter that opens a string of commands for a device. -/
  | device
  | commands
  /-- Within a string for the operating system, which a bell ends. -/
  | system
  deriving DecidableEq, Repr

namespace Sequence

/-- The character is kept where the text stands. -/
def keeps (s : Sequence) (c : Char) : Bool :=
  match s with
  | outside => isKept c
  | escape => isBlankControl c
  | announced => isBlankControl c
  | parameters => isBlankControl c
  | device => false
  | commands => false
  | system => false

/-- The kind of sequence that a character after the escape character leads to. -/
def afterEscape (c : Char) : Sequence :=
  if isWithin 0x20 0x2F c then announced
  else if c = '[' then parameters
  else if c = ']' then system
  else if c = 'P' then device
  else if c = 'X' ∨ c = '^' ∨ c = '_' then commands
  else if isWithin 0x30 0x7E c then outside
  else escape

/-- Where the text stands after a character.  A new escape character starts over, and the
characters for `cancel` and `substitute` break any sequence off. -/
def next (s : Sequence) (c : Char) : Sequence :=
  if c = '\x1b' then escape
  else if c = '\x18' ∨ c = '\x1a' then outside
  else
    match s with
    | outside => outside
    | escape => afterEscape c
    | announced => if isWithin 0x30 0x7E c then outside else announced
    | parameters => if isWithin 0x40 0x7E c then outside else parameters
    | device => if isWithin 0x40 0x7E c then commands else device
    | commands => if holdsTerminator c then outside else commands
    | system => if c = '\x07' then outside else system

/-- What is kept of a text.  `interrupted` says that the character before was kept; those that
follow it are kept as they are outside of sequences. -/
def strip (s : Sequence) (interrupted : Bool) : List Char → List Char
  | [] => []
  | c :: cs =>
    if interrupted && isKept c then
      -- a character of more than one byte ends the sequence it stands in
      c :: strip (if c.toNat < 0x80 then s else outside) true cs
    else if s.keeps c then c :: strip (s.next c) true cs
    else strip (s.next c) false cs

end Sequence

/-! ### Texts -/

/-- The text without control sequences. -/
def plain (text : String) : String := String.ofList (Sequence.strip .outside false text.toList)

end CallData.Text
