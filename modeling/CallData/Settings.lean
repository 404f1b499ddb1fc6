/-
CallData/Settings.lean

The settings of the command line, the file that keeps them, and the two ways in which call
data is written out under them.

The file is a TOML document.  What it does not mention has its default; what it does mention
beside the two settings is passed over.  A file that cannot be read as a whole, because it is
no TOML document or gives a setting an impossible value, counts as no file at all.
-/
import CallData.Hex
import CallData.Toml.Parser

namespace CallData

/-! ### Settings -/

/-- How call data is written out. -/
inductive DataFormat where
  /-- As one hexadecimal number. -/
  | hex
  /-- As the selector and then one word per line. -/
  | words
  deriving DecidableEq, Repr

namespace DataFormat

def name : DataFormat → String
  | hex => "hex"
  | words => "words"

def ofName? (text : String) : Option DataFormat :=
  match text with
  | "hex" => some hex
  | "words" => some words
  | _ => none

@[simp] theorem ofName?_name (f : DataFormat) : ofName? f.name = some f := by
  cases f <;> rfl

end DataFormat

/-- The settings of the command line. -/
structure Settings where
  /-- Hexadecimal output starts with `0x`. -/
  hexMark : Bool
  format : DataFormat
  deriving DecidableEq, Repr

namespace Settings

/-- The settings in force where nothing is said. -/
def standard : Settings := ⟨true, .hex⟩

/-! ### The file -/

/-- A truth value by its name. -/
def boolName (b : Bool) : String := if b then "true" else "false"

/-- The document that keeps these settings. -/
def document (s : Settings) : String :=
  "hex_prefix = " ++ boolName s.hexMark ++ "\noutput_format = \"" ++ s.format.name ++ "\"\n"

/-- The content of the file that keeps these settings. -/
def file (s : Settings) : Bytes := Text.utf8 s.document

/-- The truth value of a setting. -/
def boolOf? : Toml.Node → Option Bool
  | .flag b => some b
  | _ => none

/-- The node holds nothing: an array or a table without content. -/
def isVoid : Toml.Node → Bool
  | .array [] => true
  | .table _ [] => true
  | _ => false

/-- The format of a setting: its name as a text, or as the only key of a table, where
nothing may be under the key. -/
def formatOf? : Toml.Node → Option DataFormat
  | .text name => DataFormat.ofName? name
  | .table _ [(name, node)] => if isVoid node then DataFormat.ofName? name else none
  | _ => none

/-- The value of an entry, or the default if the entry is missing.  An entry that cannot be
read is not a missing one. -/
def entry (entries : Toml.Entries) (key : String) (read? : Toml.Node → Option α) (default : α) :
    Option α :=
  match entries.get? key with
  | some node => read? node
  | none => some default

/-- The settings that the entries of a document give. -/
def ofEntries? (entries : Toml.Entries) : Option Settings := do
  let hexMark ← entry entries "hex_prefix" boolOf? standard.hexMark
  let format ← entry entries "output_format" formatOf? standard.format
  return ⟨hexMark, format⟩

/-- The settings that a document gives. -/
def ofDocument? (text : String) : Option Settings := do
  let entries ← Toml.parse? text
  ofEntries? entries

/-- The settings in force, given the content of the file if there is one. -/
def load (file : Option Bytes) : Settings :=
  ((file.bind Text.ofUtf8?).bind ofDocument?).getD standard

/-! ### Output -/

/-- Bytes as hexadecimal output. -/
def hexText (s : Settings) (bs : Bytes) : String :=
  if s.hexMark then Hex.encodeMarked bs else Hex.encode bs

/-- The lines of the format with one word per line.  Data shorter than a selector is a line
by itself. -/
def wordLines (s : Settings) (bs : Bytes) : List String :=
  s.hexText (bs.take 4) :: (Bytes.chunks 32 (bs.drop 4)).map Hex.encode

/-- Call data as output. -/
def dataText (s : Settings) (bs : Bytes) : String :=
  match s.format with
  | .hex => s.hexText bs
  | .words => "\n".intercalate (s.wordLines bs)

end Settings

end CallData
