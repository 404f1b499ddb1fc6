/-
CallData/Proofs/Json/Completeness.lean

Every text of the grammar is read.

`IsReadAs depth text v` says that a reader takes `text` for `v` wherever it stands, as long as
nothing behind it would go on with a number, and with fuel for no more than the length of the
text.  It holds of strings, of numbers, and of arrays and objects whose parts it holds of, one
level of nesting further out.  So it holds of every text that spells a value, if the nesting of the
value is within the depth (`isReadAs_of_written`).
-/
import CallData.Proofs.Json.Grammar
import CallData.Proofs.Text.Digits

namespace CallData.Json

variable {c : Char} {n fuel depth : Nat} {text rest : List Char} {v : Json}

/-! ### Blanks -/

theorem skipBlanks_append (blanks : Blanks) (rest : List Char) :
    skipBlanks (blanks.chars ++ rest) = skipBlanks rest :=
  List.dropWhile_append_of_pos blanks.blank

theorem skipBlanks_cons (h : isBlank c = false) (rest : List Char) :
    skipBlanks (c :: rest) = c :: rest :=
  List.dropWhile_cons_of_neg (by simp [h])

theorem value?_blanks (blanks : Blanks) (rest : List Char) :
    value? fuel depth (blanks.chars ++ rest) = value? fuel depth rest := by
  cases fuel with
  | zero => rfl
  | succ fuel => rw [value?, value?, skipBlanks_append]

/-! ### Strings -/

theorem simpleEscape?_of_mem {letter : Char} (h : (letter, c) ∈ shortEscapes) :
    simpleEscape? letter = some c := by
  simp only [shortEscapes, List.mem_cons, Prod.mk.injEq, List.not_mem_nil, or_false] at h
  rcases h with ⟨rfl, rfl⟩ | ⟨rfl, rfl⟩ | ⟨rfl, rfl⟩ | ⟨rfl, rfl⟩ | ⟨rfl, rfl⟩ | ⟨rfl, rfl⟩ |
    ⟨rfl, rfl⟩ | ⟨rfl, rfl⟩ <;> rfl

/-- A short escape is not the start of a numeric one. -/
theorem ne_u_of_mem {letter : Char} (h : (letter, c) ∈ shortEscapes) : letter ≠ 'u' := by
  rintro rfl
  have hread := simpleEscape?_of_mem h
  cases hread

/-- The number of a character is not half of a surrogate pair. -/
theorem not_surrogate_of_isValidChar (h : n.isValidChar) :
    isHighSurrogate n = false ∧ isLowSurrogate n = false := by
  simp only [Nat.isValidChar] at h
  simp only [isHighSurrogate, isLowSurrogate, Bool.and_eq_false_iff, decide_eq_false_iff_not]
  omega

/-- A character is read from any text that denotes it. -/
theorem readChar?_of_charText (h : CharText text c) (rest : List Char) :
    readChar? (text ++ rest) = some (c, rest) := by
  cases h with
  | raw hquote hbackslash hcontrol =>
    rw [List.singleton_append, readChar?]
    · rw [if_neg (Nat.not_lt.mpr hcontrol)]
    all_goals simp_all
  | short h =>
    have hu := ne_u_of_mem h
    rw [List.cons_append, List.singleton_append, readChar?]
    · rw [simpleEscape?_of_mem h]
      rfl
    · simp_all
  | unit h hscalar =>
    obtain ⟨hhigh, hlow⟩ := not_surrogate_of_isValidChar hscalar
    simp [readChar?, h, hhigh, hlow]
  | pair hfirst hhigh hsecond hlow => simp [readChar?, hfirst, hhigh, hsecond, hlow]

/-- No text that denotes a character begins with a quote. -/
theorem ne_quote_of_charText (h : CharText text c) (rest after : List Char) :
    text ++ rest ≠ '"' :: after := by
  intro heq
  have hread := readChar?_of_charText h rest
  rw [heq] at hread
  cases hread

theorem length_pos_of_charText (h : CharText text c) : 0 < text.length := by
  cases h <;> simp

theorem length_le_of_contentText {content : List Char} (h : ContentText text content) :
    content.length ≤ text.length := by
  induction h with
  | nil => exact Nat.le_refl _
  | cons hc _ ih =>
    have hpos := length_pos_of_charText hc
    rw [List.length_cons, List.length_append]
    omega

theorem readString?_of_contentText {content : List Char} (h : ContentText text content)
    (hfuel : content.length ≤ fuel) (rest : List Char) :
    readString? fuel (text ++ '"' :: rest) = some (content, rest) := by
  induction h generalizing fuel with
  | nil => simp [readString?]
  | cons hc _ ih =>
    obtain ⟨fuel, rfl⟩ : ∃ m, fuel = m + 1 :=
      Nat.exists_eq_add_one.mpr (Nat.lt_of_lt_of_le (by simp) hfuel)
    rw [List.append_assoc, readString?]
    · rw [readChar?_of_charText hc]
      simp [ih (Nat.le_of_succ_le_succ hfuel)]
    · exact ne_quote_of_charText hc _

/-- A string is read from behind its opening quote. -/
theorem string?_of_contentText {inner : List Char} {s : String} (h : ContentText inner s.toList)
    (hfuel : inner.length ≤ fuel) (rest : List Char) :
    string? fuel (inner ++ '"' :: rest) = some (s, rest) := by
  have hlen := length_le_of_contentText h
  rw [string?, readString?_of_contentText h (Nat.le_trans hlen hfuel)]
  simp

/-! ### Numbers -/

/-- What follows does not go on with a number. -/
def EndsNumber (rest : List Char) : Prop :=
  ∀ c ∈ rest.head?, c.isDigit = false ∧ c ≠ '.' ∧ c ≠ 'e' ∧ c ≠ 'E'

theorem endsNumber_nil : EndsNumber [] := by
  intro c hc
  cases hc

theorem endsNumber_cons (h : c.isDigit = false ∧ c ≠ '.' ∧ c ≠ 'e' ∧ c ≠ 'E') (rest : List Char) :
    EndsNumber (c :: rest) := by
  intro d hd
  obtain rfl := Option.some.inj hd
  exact h

theorem endsNumber_blanks (blanks : Blanks) (h : EndsNumber rest) :
    EndsNumber (blanks.chars ++ rest) := by
  obtain ⟨chars, hblank⟩ := blanks
  cases chars with
  | nil => exact h
  | cons b chars =>
    have hb := hblank b List.mem_cons_self
    simp only [isBlank, Bool.or_eq_true, beq_iff_eq] at hb
    rcases hb with ((rfl | rfl) | rfl) | rfl <;> exact endsNumber_cons (by decide) _

theorem exponent?_of_endsNumber (h : EndsNumber rest) : exponent? rest = some (none, rest) := by
  rw [exponent?]
  · rintro rest' rfl
    exact absurd rfl (h 'e' rfl).2.2.1
  · rintro rest' rfl
    exact absurd rfl (h 'E' rfl).2.2.2

theorem exponentDigits?_digits (ds : Text.Digits) (h : EndsNumber rest) :
    exponentDigits? (ds.chars ++ rest) = some ((false, ds), rest) := by
  have hread : Text.Digits.read? (ds.chars ++ rest) = some (ds, rest) :=
    ds.read?_append fun c hc => (h c hc).1
  obtain ⟨d, more, hchars, hd⟩ := ds.exists_cons
  rw [hchars, List.cons_append] at hread ⊢
  rw [exponentDigits?]
  · rw [hread]
    rfl
  -- a digit is no sign
  all_goals
    rintro rest' heq
    obtain ⟨rfl, -⟩ := List.cons.inj heq
    exact absurd hd (by decide)

theorem exponent?_of_exponentText {exponent : Option (Bool × Text.Digits)}
    (h : ExponentText text exponent) (hrest : EndsNumber rest) :
    exponent? (text ++ rest) = some (exponent, rest) := by
  cases h with
  | absent => exact exponent?_of_endsNumber hrest
  | bare hmark ds =>
    have hread := exponentDigits?_digits ds hrest
    rcases hmark with rfl | rfl <;> simp [exponent?, hread]
  | plus hmark ds | minus hmark ds =>
    have hread : Text.Digits.read? (ds.chars ++ rest) = some (ds, rest) :=
      ds.read?_append fun c hc => (hrest c hc).1
    rcases hmark with rfl | rfl <;> simp [exponent?, exponentDigits?, hread]

/-- An exponent, or what follows a number without one, does not go on with digits. -/
theorem head?_exponentText {exponent : Option (Bool × Text.Digits)}
    (h : ExponentText text exponent) (hrest : EndsNumber rest) :
    ∀ c ∈ (text ++ rest).head?, c.isDigit = false ∧ c ≠ '.' := by
  cases h with
  | absent =>
    intro c hc
    exact ⟨(hrest c hc).1, (hrest c hc).2.1⟩
  | bare hmark ds | plus hmark ds | minus hmark ds =>
    intro c hc
    obtain rfl := Option.some.inj hc
    rcases hmark with rfl | rfl <;> decide

theorem fraction?_fractionChars (fraction : Option Text.Digits)
    (hrest : ∀ c ∈ rest.head?, c.isDigit = false ∧ c ≠ '.') :
    fraction? (fractionChars fraction ++ rest) = some (fraction, rest) := by
  cases fraction with
  | none =>
    rw [fractionChars, List.nil_append, fraction?]
    rintro rest' rfl
    exact (hrest '.' rfl).2 rfl
  | some ds =>
    have hread := ds.read?_append fun c hc => (hrest c hc).1
    simp [fractionChars, fraction?, hread]

theorem head?_fractionChars (fraction : Option Text.Digits)
    (hrest : ∀ c ∈ rest.head?, c.isDigit = false ∧ c ≠ '.') :
    ∀ c ∈ (fractionChars fraction ++ rest).head?, c.isDigit = false := by
  cases fraction with
  | none =>
    intro c hc
    exact (hrest c hc).1
  | some ds =>
    intro c hc
    obtain rfl := Option.some.inj hc
    decide

/-- A number is read from any text of it. -/
theorem number?_of_numberText {n : Number} (h : NumberText text n) (hrest : EndsNumber rest) :
    number? (text ++ rest) = some (n, rest) := by
  obtain ⟨hzero, exponent, hexponent, rfl⟩ := h
  obtain ⟨negative, whole, fraction, exponent'⟩ := n
  have hafter := head?_exponentText hexponent hrest
  have hunsigned : unsigned? negative
      (whole.chars ++ (fractionChars fraction ++ (exponent ++ rest))) =
        some (⟨negative, whole, fraction, exponent'⟩, rest) := by
    rw [unsigned?, whole.read?_append (head?_fractionChars fraction hafter)]
    simp only [Option.bind_eq_bind, Option.bind_some]
    rw [if_neg (by simpa using hzero), fraction?_fractionChars fraction hafter]
    simp [exponent?_of_exponentText hexponent hrest]
  cases negative with
  | true => simpa [signChars, number?] using hunsigned
  | false =>
    simp only [signChars, Bool.false_eq_true, if_false, List.nil_append, List.append_assoc]
    obtain ⟨d, more, hchars, hd⟩ := whole.exists_cons
    rw [hchars, List.cons_append] at hunsigned ⊢
    rw [number?]
    · exact hunsigned
    · rintro rest' heq
      obtain ⟨rfl, -⟩ := List.cons.inj heq
      exact absurd hd (by decide)

/-- A number begins with a digit or a minus sign. -/
theorem exists_cons_of_numberText {n : Number} (h : NumberText text n) :
    ∃ c more, text = c :: more ∧ (c = '-' ∨ c.isDigit = true) := by
  obtain ⟨-, exponent, -, rfl⟩ := h
  obtain ⟨negative, whole, fraction, exponent'⟩ := n
  cases negative with
  | true => exact ⟨'-', _, rfl, .inl rfl⟩
  | false =>
    obtain ⟨d, more, hchars, hd⟩ := whole.exists_cons
    simp only [signChars, Bool.false_eq_true, if_false, List.nil_append, hchars, List.cons_append]
    exact ⟨d, _, rfl, .inr hd⟩

/-! ### Values -/

theorem isBlank_of_begins (h : c = '-' ∨ c.isDigit = true) : isBlank c = false := by
  rw [Bool.eq_false_iff]
  intro hblank
  simp only [isBlank, Bool.or_eq_true, beq_iff_eq] at hblank
  rcases hblank with ((rfl | rfl) | rfl) | rfl <;> exact absurd h (by decide)

/-- A value that begins like a number is read as one. -/
theorem value?_begins (h : c = '-' ∨ c.isDigit = true) (rest : List Char) :
    value? (fuel + 1) depth (c :: rest) =
      (number? (c :: rest)).map fun (n, r) => (.number n, r) := by
  rw [value?, skipBlanks_cons (isBlank_of_begins h)]
  split
  case h_7 => rfl
  -- the other values begin with another character
  all_goals
    rename_i heq
    obtain ⟨rfl, -⟩ := List.cons.inj heq
    exact absurd h (by decide)

/-- The text is read as the value, wherever it stands. -/
def IsReadAs (depth : Nat) (text : List Char) (v : Json) : Prop :=
  ∀ fuel rest, text.length < fuel → EndsNumber rest →
    value? fuel depth (text ++ rest) = some (v, rest)

theorem isReadAs_number {n : Number} (h : NumberText text n) : IsReadAs depth text (.number n) := by
  intro fuel rest hfuel hrest
  obtain ⟨fuel, rfl⟩ : ∃ m, fuel = m + 1 := Nat.exists_eq_add_one.mpr (by omega)
  have hread := number?_of_numberText h hrest
  obtain ⟨c, more, rfl, hc⟩ := exists_cons_of_numberText h
  rw [List.cons_append] at hread ⊢
  rw [value?_begins hc, hread]
  rfl

theorem isReadAs_string {s : String} (h : StringText text s) : IsReadAs depth text (.string s) := by
  intro fuel rest hfuel _
  obtain ⟨fuel, rfl⟩ : ∃ m, fuel = m + 1 := Nat.exists_eq_add_one.mpr (by omega)
  obtain ⟨inner, hinner, rfl⟩ := h
  have hlen : inner.length ≤ fuel := by
    simp only [List.length_append, List.length_cons] at hfuel
    omega
  have hstart : '"' :: inner ++ ['"'] ++ rest = '"' :: (inner ++ '"' :: rest) := by simp
  rw [hstart, value?, skipBlanks_cons (by decide)]
  show (string? fuel _).map _ = _
  rw [string?_of_contentText hinner hlen]
  rfl

/-! ### Arrays -/

/-- No value begins with a closing bracket, and so no list of items does. -/
theorem value?_closing (h : skipBlanks text = ']' :: rest) : value? fuel depth text = none := by
  cases fuel with
  | zero => rfl
  | succ fuel =>
    rw [value?, h]
    rfl

theorem items?_closing (h : skipBlanks text = ']' :: rest) : items? fuel depth text = none := by
  cases fuel with
  | zero => rfl
  | succ fuel => rw [items?, value?_closing h]

theorem value?_bracket (rest : List Char) :
    value? (fuel + 1) (depth + 1) ('[' :: rest) =
      match skipBlanks rest with
      | ']' :: rest' => some (.array [], rest')
      | _ => (items? fuel depth rest).map fun (items, r) => (.array items, r) := rfl

/-- What can be read as items is not closed at once. -/
theorem value?_array {items : List Json} (h : items? fuel depth text = some (items, rest)) :
    value? (fuel + 1) (depth + 1) ('[' :: text) = some (.array items, rest) := by
  rw [value?_bracket]
  split
  · rename_i hclosed
    rw [items?_closing hclosed] at h
    cases h
  · rw [h]
    rfl

/-- What comes after an item does not go on with a number. -/
theorem endsNumber_after (item : Item) (h : c.isDigit = false ∧ c ≠ '.' ∧ c ≠ 'e' ∧ c ≠ 'E') :
    EndsNumber (item.after.chars ++ c :: rest) :=
  endsNumber_blanks _ (endsNumber_cons h rest)

/-- An item is read with the blanks around it. -/
theorem value?_item {item : Item} (h : IsReadAs depth item.text item.value)
    (hfuel : item.chars.length < fuel) (hc : c.isDigit = false ∧ c ≠ '.' ∧ c ≠ 'e' ∧ c ≠ 'E')
    (rest : List Char) :
    value? fuel depth (item.chars ++ c :: rest) =
      some (item.value, item.after.chars ++ c :: rest) := by
  simp only [Item.chars, List.length_append] at hfuel
  rw [Item.chars, List.append_assoc, List.append_assoc, value?_blanks]
  exact h fuel _ (by omega) (endsNumber_after item hc)

/-- Items are read one after the other, up to the closing bracket. -/
theorem items?_separated {items : List Item}
    (h : ∀ item ∈ items, IsReadAs depth item.text item.value)
    (hne : items ≠ []) (hfuel : (separated (items.map Item.chars)).length + 1 < fuel)
    (rest : List Char) :
    items? fuel depth (separated (items.map Item.chars) ++ ']' :: rest) =
      some (items.map Item.value, rest) := by
  induction items generalizing fuel with
  | nil => exact absurd rfl hne
  | cons item items ih =>
    obtain ⟨fuel, rfl⟩ : ∃ m, fuel = m + 1 := Nat.exists_eq_add_one.mpr (by omega)
    have hitem := h item List.mem_cons_self
    cases items with
    | nil =>
      rw [List.map_singleton, separated_singleton] at hfuel ⊢
      rw [items?, value?_item hitem (by omega) (by decide)]
      dsimp only
      rw [skipBlanks_append, skipBlanks_cons (by decide)]
      rfl
    | cons next items =>
      rw [List.map_cons, separated_cons _ (by simp)] at hfuel ⊢
      simp only [List.length_append, List.length_cons] at hfuel
      rw [List.append_assoc, List.cons_append, items?, value?_item hitem (by omega) (by decide)]
      dsimp only
      rw [skipBlanks_append, skipBlanks_cons (by decide)]
      show (items? fuel depth _).map _ = _
      rw [ih (fun other hother => h other (List.mem_cons_of_mem _ hother)) (by simp) (by omega)]
      rfl

/-- An array is read if its items are. -/
theorem isReadAs_array {items : List Item} (hne : items ≠ [])
    (h : ∀ item ∈ items, IsReadAs depth item.text item.value) :
    IsReadAs (depth + 1) ('[' :: (separated (items.map Item.chars) ++ [']']))
      (.array (items.map Item.value)) := by
  intro fuel rest hfuel _
  obtain ⟨fuel, rfl⟩ : ∃ m, fuel = m + 1 := Nat.exists_eq_add_one.mpr (by omega)
  simp only [List.length_cons, List.length_append, List.length_nil] at hfuel
  rw [List.cons_append, List.append_assoc, List.singleton_append]
  exact value?_array (items?_separated h hne (by omega) rest)

theorem isReadAs_emptyArray (blanks : Blanks) :
    IsReadAs (depth + 1) ('[' :: (blanks.chars ++ [']'])) (.array []) := by
  intro fuel rest hfuel _
  obtain ⟨fuel, rfl⟩ : ∃ m, fuel = m + 1 := Nat.exists_eq_add_one.mpr (by omega)
  rw [List.cons_append, List.append_assoc, List.singleton_append, value?_bracket,
    skipBlanks_append, skipBlanks_cons (by decide)]
  rfl

/-! ### Objects -/

/-- What can be read as members is not closed at once. -/
theorem members?_closing (h : skipBlanks text = '\x7d' :: rest) :
    members? fuel depth text = none := by
  cases fuel with
  | zero => rfl
  | succ fuel =>
    rw [members?, h]
    rfl

theorem value?_brace (rest : List Char) :
    value? (fuel + 1) (depth + 1) ('\x7b' :: rest) =
      match skipBlanks rest with
      | '\x7d' :: rest' => some (.object [], rest')
      | _ => (members? fuel depth rest).map fun (members, r) => (.object members, r) := rfl

/-- What can be read as members is not closed at once. -/
theorem value?_object {members : List (String × Json)}
    (h : members? fuel depth text = some (members, rest)) :
    value? (fuel + 1) (depth + 1) ('\x7b' :: text) = some (.object members, rest) := by
  rw [value?_brace]
  split
  · rename_i hclosed
    rw [members?_closing hclosed] at h
    cases h
  · rw [h]
    rfl

/-- The key of a member is read with the blanks around it. -/
theorem string?_key {m : Member} (hfuel : m.keyText.length ≤ fuel) (rest : List Char) :
    ∃ start, skipBlanks (m.chars ++ rest) = '"' :: start ∧
      string? fuel start = some (m.key, m.after.chars ++ ':' :: (m.item.chars ++ rest)) := by
  obtain ⟨inner, hinner, htext⟩ := m.quoted
  have hlen : inner.length ≤ fuel := by
    simp only [htext, List.length_append, List.length_cons] at hfuel
    omega
  refine ⟨inner ++ '"' :: (m.after.chars ++ ':' :: (m.item.chars ++ rest)), ?_, ?_⟩
  · have hchars : m.chars ++ rest = m.before.chars ++
        '"' :: (inner ++ '"' :: (m.after.chars ++ ':' :: (m.item.chars ++ rest))) := by
      simp [Member.chars, htext]
    rw [hchars, skipBlanks_append, skipBlanks_cons (by decide)]
  · exact string?_of_contentText hinner hlen _

/-- A member is read up to what follows its item. -/
theorem members?_member {m : Member} (h : IsReadAs depth m.item.text m.item.value)
    (hfuel : m.chars.length < fuel) (hc : c.isDigit = false ∧ c ≠ '.' ∧ c ≠ 'e' ∧ c ≠ 'E')
    (hblank : isBlank c = false) (rest : List Char) :
    members? (fuel + 1) depth (m.chars ++ c :: rest) =
      match c :: rest with
      | '\x7d' :: rest' => some ([m.entry], rest')
      | ',' :: rest' =>
        (members? fuel depth rest').map fun (members, r) => (m.entry :: members, r)
      | _ => none := by
  have hlen : m.keyText.length ≤ fuel ∧ m.item.chars.length < fuel := by
    simp only [Member.chars, List.length_append, List.length_cons] at hfuel
    omega
  obtain ⟨start, hstart, hkey⟩ := string?_key hlen.1 (c :: rest)
  rw [members?, hstart]
  simp only [hkey, skipBlanks_append, skipBlanks_cons (show isBlank ':' = false by decide),
    value?_item h hlen.2 hc, skipBlanks_cons hblank]
  rfl

/-- Members are read one after the other, up to the closing brace. -/
theorem members?_separated {members : List Member}
    (h : ∀ m ∈ members, IsReadAs depth m.item.text m.item.value) (hne : members ≠ [])
    (hfuel : (separated (members.map Member.chars)).length + 1 < fuel) (rest : List Char) :
    members? fuel depth (separated (members.map Member.chars) ++ '\x7d' :: rest) =
      some (members.map Member.entry, rest) := by
  induction members generalizing fuel with
  | nil => exact absurd rfl hne
  | cons m members ih =>
    obtain ⟨fuel, rfl⟩ : ∃ m, fuel = m + 1 := Nat.exists_eq_add_one.mpr (by omega)
    have hm := h m List.mem_cons_self
    cases members with
    | nil =>
      rw [List.map_singleton, separated_singleton] at hfuel ⊢
      rw [members?_member hm (by omega) (by decide) (by decide)]
      rfl
    | cons next members =>
      rw [List.map_cons, separated_cons _ (by simp)] at hfuel ⊢
      simp only [List.length_append, List.length_cons] at hfuel
      rw [List.append_assoc, List.cons_append,
        members?_member hm (by omega) (by decide) (by decide)]
      show (members? fuel depth _).map _ = _
      rw [ih (fun other hother => h other (List.mem_cons_of_mem _ hother)) (by simp) (by omega)]
      rfl

/-- An object is read if its items are. -/
theorem isReadAs_object {members : List Member} (hne : members ≠ [])
    (h : ∀ m ∈ members, IsReadAs depth m.item.text m.item.value) :
    IsReadAs (depth + 1) ('\x7b' :: (separated (members.map Member.chars) ++ ['\x7d']))
      (.object (members.map Member.entry)) := by
  intro fuel rest hfuel _
  obtain ⟨fuel, rfl⟩ : ∃ m, fuel = m + 1 := Nat.exists_eq_add_one.mpr (by omega)
  simp only [List.length_cons, List.length_append, List.length_nil] at hfuel
  rw [List.cons_append, List.append_assoc, List.singleton_append]
  exact value?_object (members?_separated h hne (by omega) rest)

theorem isReadAs_emptyObject (blanks : Blanks) :
    IsReadAs (depth + 1) ('\x7b' :: (blanks.chars ++ ['\x7d'])) (.object []) := by
  intro fuel rest hfuel _
  obtain ⟨fuel, rfl⟩ : ∃ m, fuel = m + 1 := Nat.exists_eq_add_one.mpr (by omega)
  rw [List.cons_append, List.append_assoc, List.singleton_append, value?_brace,
    skipBlanks_append, skipBlanks_cons (by decide)]
  rfl

/-! ### All values -/

theorem isReadAs_word
    (hfuel : ∀ fuel rest, value? (fuel + 1) depth (text ++ rest) = some (v, rest)) :
    IsReadAs depth text v := by
  intro fuel rest hlen _
  obtain ⟨fuel, rfl⟩ : ∃ m, fuel = m + 1 := Nat.exists_eq_add_one.mpr (by omega)
  exact hfuel fuel rest

/-- A nested value has room for a level. -/
theorem exists_depth_of_array {items : List Json} (h : (Json.array items).depth ≤ depth) :
    ∃ inner, depth = inner + 1 ∧ ∀ v ∈ items, v.depth ≤ inner := by
  obtain ⟨inner, rfl⟩ : ∃ m, depth = m + 1 :=
    Nat.exists_eq_add_one.mpr (Nat.lt_of_lt_of_le (Nat.succ_pos _) h)
  exact ⟨inner, rfl, depth_array_le_iff.mp h⟩

theorem exists_depth_of_object {members : List (String × Json)}
    (h : (Json.object members).depth ≤ depth) :
    ∃ inner, depth = inner + 1 ∧ ∀ m ∈ members, m.2.depth ≤ inner := by
  obtain ⟨inner, rfl⟩ : ∃ m, depth = m + 1 :=
    Nat.exists_eq_add_one.mpr (Nat.lt_of_lt_of_le (Nat.succ_pos _) h)
  exact ⟨inner, rfl, depth_object_le_iff.mp h⟩

/-- **What is written is read**, as far as the nesting is within the depth. -/
theorem isReadAs_of_written (h : Written text v) (hdepth : v.depth ≤ depth) :
    IsReadAs depth text v := by
  induction h generalizing depth with
  | null | true | false => exact isReadAs_word fun _ _ => rfl
  | number h => exact isReadAs_number h
  | string h => exact isReadAs_string h
  | emptyArray blanks =>
    obtain ⟨depth, rfl, -⟩ := exists_depth_of_array hdepth
    exact isReadAs_emptyArray blanks
  | array hne _ ih =>
    obtain ⟨depth, rfl, hitems⟩ := exists_depth_of_array hdepth
    exact isReadAs_array hne fun item hitem =>
      ih item hitem (hitems _ (List.mem_map_of_mem hitem))
  | emptyObject blanks =>
    obtain ⟨depth, rfl, -⟩ := exists_depth_of_object hdepth
    exact isReadAs_emptyObject blanks
  | object hne _ ih =>
    obtain ⟨depth, rfl, hmembers⟩ := exists_depth_of_object hdepth
    exact isReadAs_object hne fun m hm => ih m hm (hmembers _ (List.mem_map_of_mem hm))

/-- The text of an item by itself is read as its value. -/
theorem value?_chars {item : Item} (h : IsReadAs depth item.text item.value) :
    value? (item.chars.length + 1) depth item.chars = some (item.value, item.after.chars) := by
  have hlen : item.text.length < item.chars.length + 1 := by
    simp only [Item.chars, List.length_append]
    omega
  have hend : EndsNumber item.after.chars := by
    simpa using endsNumber_blanks item.after endsNumber_nil
  have hread := h (item.chars.length + 1) item.after.chars hlen hend
  rwa [← value?_blanks item.before] at hread

theorem ofChars?_chars (item : Item) (h : IsReadAs maxDepth item.text item.value) :
    ofChars? item.chars = some item.value := by
  have hrest : skipBlanks item.after.chars = [] := by
    simpa [skipBlanks] using skipBlanks_append item.after []
  rw [ofChars?, value?_chars h]
  simp [hrest]

end CallData.Json
