/-
CallData/Proofs/Json/ReadBack.lean

JSON texts that are read back as the values they were written for.

What is written for a string, a number, an array or a flat object is a text of the grammar in
`CallData/Proofs/Json/Grammar.lean`, so it is read as the value, by
`CallData/Proofs/Json/Completeness.lean`.  An object is read back in both of its forms: on one line
(`isReadAs_compactObject`) and with each member on a line of its own (`isReadAs_prettyObject`).
-/
import CallData.Json.Printer
import CallData.Proofs.Json.Completeness

namespace CallData.Json

variable {c : Char} {n depth : Nat} {text : List Char} {v : Json}

/-! ### Strings -/

/-- Every character that is written by its number is read back from its four digits. -/
theorem hex4?_controlEscape (h : n < 0x20) :
    hex4? '0' '0' (Nat.digitChar (n / 16)) (Nat.digitChar (n % 16)) = some n := by
  revert n
  decide

/-- The way a character stands in a string denotes the character. -/
theorem charText_escapeChar (c : Char) : CharText (escapeChar c) c := by
  fun_cases escapeChar c with
  | case8 _ _ _ _ _ _ _ hcontrol =>
    have hunit := CharText.unit (hex4?_controlEscape hcontrol) (.inl (by omega))
    rwa [Char.ofNat_toNat] at hunit
  | case9 hquote hbackslash _ _ _ _ _ hcontrol =>
    exact .raw hquote hbackslash (Nat.not_lt.mp hcontrol)
  | _ =>
    subst c
    exact .short (by decide)

theorem contentText_escaped (content : List Char) :
    ContentText (content.flatMap escapeChar) content := by
  induction content with
  | nil => exact .nil
  | cons c content ih => exact .cons (charText_escapeChar c) ih

theorem stringText_quote (s : String) : StringText (quote s) s :=
  ⟨_, contentText_escaped s.toList, rfl⟩

theorem isReadAs_quote (s : String) : IsReadAs depth (quote s) (.string s) :=
  isReadAs_string (stringText_quote s)

/-! ### Numbers -/

theorem numberText_toDigits (n : Nat) : NumberText (Nat.toDigits 10 n) (.ofNat n) :=
  ⟨Text.Digits.hasLeadingZero_ofNat n, [], .absent, by
    simp [Number.ofNat, signChars, fractionChars, Text.Digits.ofNat]⟩

theorem isReadAs_toDigits (n : Nat) : IsReadAs depth (Nat.toDigits 10 n) (.number (.ofNat n)) :=
  isReadAs_number (numberText_toDigits n)

/-! ### Arrays -/

/-- An array with these texts between its brackets. -/
def bracketed (texts : List (List Char)) : List Char := '[' :: [','].intercalate texts ++ [']']

variable {α : Type} {write : α → List Char} {read : α → Json} {xs : List α}

/-- An array is read back if its items are. -/
theorem isReadAs_bracketed (h : ∀ x ∈ xs, IsReadAs depth (write x) (read x)) :
    IsReadAs (depth + 1) (bracketed (xs.map write)) (.array (xs.map read)) := by
  by_cases hnil : xs = []
  · subst hnil
    exact isReadAs_emptyArray .none
  · have hitems : ∀ item ∈ xs.map fun x => (⟨.none, write x, read x, .none⟩ : Item),
        IsReadAs depth item.text item.value := List.forall_mem_map.mpr h
    have hread := isReadAs_array (by simpa using hnil) hitems
    rw [List.map_map, List.map_map] at hread
    simpa [bracketed, separated, Function.comp_def, Item.chars, Blanks.none] using hread

/-! ### Flat objects -/

/-- The value that a scalar is written for. -/
def Scalar.toJson : Scalar → Json
  | .text content => .string content
  | .flag value => .bool value
  | .count value => .number (.ofNat value.toNat)

theorem isReadAs_scalar (s : Scalar) : IsReadAs depth s.chars s.toJson := by
  cases s with
  | text content => exact isReadAs_quote content
  | flag value => cases value <;> exact isReadAs_word fun _ _ => rfl
  | count value => exact isReadAs_toDigits value.toNat

/-- The entries of an object with these members. -/
def entries (members : List (String × Scalar)) : List (String × Json) :=
  members.map fun m => (m.1, m.2.toJson)

/-- A member as it is written between the given blanks. -/
def memberBetween (before between after : Blanks) (m : String × Scalar) : Member where
  before := before
  keyText := quote m.1
  key := m.1
  after := .none
  item := ⟨between, m.2.chars, m.2.toJson, after⟩
  quoted := stringText_quote m.1

theorem chars_memberBetween (before between after : Blanks) (m : String × Scalar) :
    (memberBetween before between after m).chars =
      before.chars ++ (quote m.1 ++ ':' :: (between.chars ++ (m.2.chars ++ after.chars))) := rfl

theorem isReadAs_compactObject (members : List (String × Scalar)) :
    IsReadAs (depth + 1) (compactObject members) (.object (entries members)) := by
  by_cases hnil : members = []
  · subst hnil
    exact isReadAs_emptyObject .none
  · have hchars : Member.chars ∘ memberBetween .none .none .none = compactMember := by
      funext m
      simp [chars_memberBetween, compactMember, Blanks.none]
    have hitems : ∀ m ∈ members.map (memberBetween .none .none .none),
        IsReadAs depth m.item.text m.item.value :=
      List.forall_mem_map.mpr fun m _ => isReadAs_scalar m.2
    have hread := isReadAs_object (by simpa using hnil) hitems
    rw [List.map_map, List.map_map, hchars] at hread
    exact hread

/-- What follows the last piece may be seen as a part of it. -/
theorem separated_concat_append (pieces : List (List Char)) (last more : List Char) :
    separated (pieces ++ [last]) ++ more = separated (pieces ++ [last ++ more]) := by
  induction pieces with
  | nil => simp
  | cons piece pieces ih =>
    rw [List.cons_append, List.cons_append, separated_cons _ (by simp), separated_cons _ (by simp),
      List.append_assoc, List.cons_append, ih]

/-- The blanks in front of a member on a line of its own. -/
def indent : Blanks := ⟨['\n', ' ', ' '], by simp [isBlank]⟩

def space : Blanks := ⟨[' '], by simp [isBlank]⟩

def lineEnd : Blanks := ⟨['\n'], by simp [isBlank]⟩

theorem prettyObject_concat (front : List (String × Scalar)) (last : String × Scalar) :
    prettyObject (front ++ [last]) =
      '\x7b' :: (separated (front.map memberLine ++ [memberLine last ++ ['\n']]) ++ ['\x7d']) := by
  rw [prettyObject]
  · rw [List.map_append, List.map_singleton, ← separated_concat_append, List.append_assoc]
    rfl
  · simp

theorem isReadAs_prettyObject (members : List (String × Scalar)) :
    IsReadAs (depth + 1) (prettyObject members) (.object (entries members)) := by
  rcases List.eq_nil_or_concat members with rfl | ⟨front, last, rfl⟩
  · exact isReadAs_emptyObject .none
  · rw [List.concat_eq_append, prettyObject_concat]
    have hchars : Member.chars ∘ memberBetween indent space .none = memberLine := by
      funext m
      simp [chars_memberBetween, memberLine, indent, space, Blanks.none]
    -- the line end before the closing brace belongs to the last member
    have hlast : (memberBetween indent space lineEnd last).chars = memberLine last ++ ['\n'] := by
      simp [chars_memberBetween, memberLine, indent, space, lineEnd]
    have hitems : ∀ m ∈ front.map (memberBetween indent space .none) ++
        [memberBetween indent space lineEnd last], IsReadAs depth m.item.text m.item.value := by
      intro m hm
      rcases List.mem_append.mp hm with hfront | hlast
      · obtain ⟨m', -, rfl⟩ := List.mem_map.mp hfront
        exact isReadAs_scalar m'.2
      · obtain rfl := List.mem_singleton.mp hlast
        exact isReadAs_scalar last.2
    have hread := isReadAs_object (by simp) hitems
    rw [List.map_append, List.map_map, hchars, List.map_singleton, hlast, List.map_append,
      List.map_map] at hread
    rw [entries, List.map_append]
    exact hread

/-! ### Texts by themselves -/

/-- A text that is read as a value at the outermost level is parsed as the value. -/
theorem parse?_of_isReadAs (h : IsReadAs maxDepth text v) :
    parse? (String.ofList text) = some v := by
  have hread := ofChars?_chars ⟨.none, text, v, .none⟩ h
  rw [parse?, String.toList_ofList]
  simpa [Item.chars, Blanks.none] using hread

/-- So it is with a line end behind it. -/
theorem parse?_line (h : IsReadAs maxDepth text v) :
    parse? (String.ofList text ++ "\n") = some v := by
  have hread := ofChars?_chars ⟨.none, text, v, lineEnd⟩ h
  rw [parse?, String.toList_append, String.toList_ofList]
  simpa [Item.chars, Blanks.none, lineEnd] using hread

end CallData.Json
