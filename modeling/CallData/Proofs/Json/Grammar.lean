/-
CallData/Proofs/Json/Grammar.lean

The grammar of JSON texts, apart from any reader.

`Written text v` says that `text` spells the value `v`, with one rule for each form that a value
takes; a document is such a text between blanks (`IsDocument`).  Strings are spelled character by
character (`CharText`), raw or by an escape that denotes a character; numbers digit by digit, with
the exponent's mark in either case and its sign optional.  The grammar does not limit how deep
arrays and objects are nested, which `Json.depth` measures.

Blanks may stand around every item of an array and every key and item of an object.  An `Item` and
a `Member` hold such a piece of text with the blanks that belong to it.
-/
import CallData.Json.Parser

namespace CallData.Json

/-! ### Blanks -/

/-- A run of blanks, possibly empty. -/
structure Blanks where
  chars : List Char
  blank : ∀ c ∈ chars, isBlank c = true

/-- No blanks. -/
def Blanks.none : Blanks := ⟨[], by simp⟩

/-! ### Strings -/

/-- The letters of the short escapes, and the characters that they denote. -/
def shortEscapes : List (Char × Char) :=
  [('"', '"'), ('\\', '\\'), ('/', '/'), ('b', '\x08'), ('f', '\x0c'), ('n', '\n'), ('r', '\r'),
    ('t', '\t')]

/-- A text that denotes one character of a string. -/
inductive CharText : List Char → Char → Prop
  | raw {c} (hquote : c ≠ '"') (hbackslash : c ≠ '\\') (hcontrol : 0x20 ≤ c.toNat) :
      CharText [c] c
  | short {letter c} (h : (letter, c) ∈ shortEscapes) : CharText ['\\', letter] c
  | unit {a b c d n} (h : hex4? a b c d = some n) (hscalar : n.isValidChar) :
      CharText ['\\', 'u', a, b, c, d] (Char.ofNat n)
  | pair {a b c d e f g h high low} (hfirst : hex4? a b c d = some high)
      (hhigh : isHighSurrogate high = true) (hsecond : hex4? e f g h = some low)
      (hlow : isLowSurrogate low = true) :
      CharText ['\\', 'u', a, b, c, d, '\\', 'u', e, f, g, h] (joinSurrogates high low)

/-- A text that denotes the characters of a string, one after the other. -/
inductive ContentText : List Char → List Char → Prop
  | nil : ContentText [] []
  | cons {text c rest cs} (hc : CharText text c) (hcs : ContentText rest cs) :
      ContentText (text ++ rest) (c :: cs)

/-- A string between quotes. -/
def StringText (text : List Char) (s : String) : Prop :=
  ∃ inner, ContentText inner s.toList ∧ text = '"' :: inner ++ ['"']

/-! ### Numbers -/

def signChars (negative : Bool) : List Char := if negative then ['-'] else []

def fractionChars : Option Text.Digits → List Char
  | some ds => '.' :: ds.chars
  | none => []

/-- An exponent as it may be written. -/
inductive ExponentText : List Char → Option (Bool × Text.Digits) → Prop
  | absent : ExponentText [] none
  | bare {mark} (h : mark = 'e' ∨ mark = 'E') (ds : Text.Digits) :
      ExponentText (mark :: ds.chars) (some (false, ds))
  | plus {mark} (h : mark = 'e' ∨ mark = 'E') (ds : Text.Digits) :
      ExponentText (mark :: '+' :: ds.chars) (some (false, ds))
  | minus {mark} (h : mark = 'e' ∨ mark = 'E') (ds : Text.Digits) :
      ExponentText (mark :: '-' :: ds.chars) (some (true, ds))

/-- A number as it may be written: no zero stands in front of other digits. -/
def NumberText (text : List Char) (n : Number) : Prop :=
  n.whole.hasLeadingZero = false ∧
    ∃ exponent, ExponentText exponent n.exponent ∧
      text = signChars n.negative ++ (n.whole.chars ++ (fractionChars n.fraction ++ exponent))

/-! ### Values -/

/-- The text of a value with the blanks around it. -/
structure Item where
  before : Blanks
  text : List Char
  value : Json
  after : Blanks

def Item.chars (item : Item) : List Char :=
  item.before.chars ++ (item.text ++ item.after.chars)

/-- A key and an item of an object, with the blanks around the key. -/
structure Member where
  before : Blanks
  keyText : List Char
  key : String
  after : Blanks
  item : Item
  quoted : StringText keyText key

namespace Member

def chars (m : Member) : List Char :=
  m.before.chars ++ (m.keyText ++ (m.after.chars ++ ':' :: m.item.chars))

def entry (m : Member) : String × Json := (m.key, m.item.value)

end Member

/-- Pieces of text with commas between them. -/
def separated (pieces : List (List Char)) : List Char := [','].intercalate pieces

@[simp] theorem separated_singleton (piece : List Char) : separated [piece] = piece :=
  List.intercalate_singleton

theorem separated_cons {pieces : List (List Char)} (piece : List Char) (h : pieces ≠ []) :
    separated (piece :: pieces) = piece ++ ',' :: separated pieces := by
  obtain ⟨next, pieces, rfl⟩ := List.exists_cons_of_ne_nil h
  simp [separated, List.intercalate_cons_cons]

/-- The text spells the value. -/
inductive Written : List Char → Json → Prop
  | null : Written ['n', 'u', 'l', 'l'] .null
  | true : Written ['t', 'r', 'u', 'e'] (.bool true)
  | false : Written ['f', 'a', 'l', 's', 'e'] (.bool false)
  | number {text n} (h : NumberText text n) : Written text (.number n)
  | string {text s} (h : StringText text s) : Written text (.string s)
  | emptyArray (blanks : Blanks) : Written ('[' :: (blanks.chars ++ [']'])) (.array [])
  | array {items : List Item} (hne : items ≠ [])
      (h : ∀ item ∈ items, Written item.text item.value) :
      Written ('[' :: (separated (items.map Item.chars) ++ [']'])) (.array (items.map Item.value))
  | emptyObject (blanks : Blanks) :
      Written ('\x7b' :: (blanks.chars ++ ['\x7d'])) (.object [])
  | object {members : List Member} (hne : members ≠ [])
      (h : ∀ m ∈ members, Written m.item.text m.item.value) :
      Written ('\x7b' :: (separated (members.map Member.chars) ++ ['\x7d']))
        (.object (members.map Member.entry))

/-- The text is a document of the value: it spells the value, between blanks. -/
def IsDocument (text : List Char) (v : Json) : Prop :=
  ∃ item : Item, item.chars = text ∧ item.value = v ∧ Written item.text v

/-! ### Nesting -/

mutual

/-- How many arrays and objects are nested in each other at the deepest place of a value. -/
def depth : Json → Nat
  | .array items => depthOfItems items + 1
  | .object members => depthOfMembers members + 1
  | _ => 0

def depthOfItems : List Json → Nat
  | [] => 0
  | v :: vs => max v.depth (depthOfItems vs)

def depthOfMembers : List (String × Json) → Nat
  | [] => 0
  | (_, v) :: members => max v.depth (depthOfMembers members)

end

theorem depthOfItems_le_iff {vs : List Json} {n : Nat} :
    depthOfItems vs ≤ n ↔ ∀ v ∈ vs, v.depth ≤ n := by
  induction vs with
  | nil => simp [depthOfItems]
  | cons v vs ih => rw [depthOfItems, Nat.max_le, ih, List.forall_mem_cons]

theorem depthOfMembers_le_iff {members : List (String × Json)} {n : Nat} :
    depthOfMembers members ≤ n ↔ ∀ m ∈ members, m.2.depth ≤ n := by
  induction members with
  | nil => simp [depthOfMembers]
  | cons m members ih => rw [depthOfMembers, Nat.max_le, ih, List.forall_mem_cons]

@[simp] theorem depth_array_le_iff {items : List Json} {n : Nat} :
    (Json.array items).depth ≤ n + 1 ↔ ∀ v ∈ items, v.depth ≤ n := by
  rw [depth, Nat.add_le_add_iff_right, depthOfItems_le_iff]

@[simp] theorem depth_object_le_iff {members : List (String × Json)} {n : Nat} :
    (Json.object members).depth ≤ n + 1 ↔ ∀ m ∈ members, m.2.depth ≤ n := by
  rw [depth, Nat.add_le_add_iff_right, depthOfMembers_le_iff]

end CallData.Json
