/-
CallData/Proofs/Json/Soundness.lean

What is read is a text of the grammar.

Each reader gives back what stands in front of the rest that it leaves: the text that it has taken
in is one that the grammar has for its result.  For values, items and members this is shown for all
three together, by induction on the fuel, since they call each other.

Main results: parsing succeeds on the documents whose nesting is within the limit, and on no other
text (`parse?_eq_some_iff`); a text is the document of one value at most (`IsDocument.unique`).
-/
import CallData.Proofs.Json.Completeness

namespace CallData.Json

variable {c : Char} {n fuel depth : Nat} {cs rest : List Char} {v : Json}

/-! ### Blanks and words -/

theorem exists_blanks (cs : List Char) : ∃ blanks : Blanks, cs = blanks.chars ++ skipBlanks cs :=
  ⟨⟨cs.takeWhile isBlank, fun _ hc => List.all_eq_true.mp List.all_takeWhile _ hc⟩,
    List.takeWhile_append_dropWhile.symm⟩

theorem exists_blanks_of_skipBlanks (h : skipBlanks cs = rest) :
    ∃ blanks : Blanks, cs = blanks.chars ++ rest := by
  obtain ⟨blanks, hcs⟩ := exists_blanks cs
  rw [h] at hcs
  exact ⟨blanks, hcs⟩

theorem eq_append_of_afterWord? {word : List Char} (h : afterWord? word cs = some rest) :
    cs = word ++ rest := by
  induction word generalizing cs with
  | nil =>
    obtain rfl := Option.some.inj h
    rfl
  | cons w word ih =>
    cases cs with
    | nil => cases h
    | cons c cs =>
      rw [afterWord?] at h
      split at h
      · rename_i hw
        rw [hw, ih h, List.cons_append]
      · cases h

/-! ### Strings -/

theorem mem_of_simpleEscape? {letter : Char} (h : simpleEscape? letter = some c) :
    (letter, c) ∈ shortEscapes := by
  rw [simpleEscape?.eq_def] at h
  split at h
  case h_9 => cases h
  all_goals
    obtain rfl := Option.some.inj h
    decide

theorem hexValue?_lt (h : Text.hexValue? c = some n) : n < 16 := by
  rw [Text.hexValue?] at h
  split at h
  · rename_i hdigit
    obtain rfl := Option.some.inj h
    have hle : c.toNat ≤ '9'.toNat := hdigit.2
    have h9 : '9'.toNat = 57 := rfl
    have h0 : '0'.toNat = 48 := rfl
    omega
  · split at h
    · rename_i hlower
      obtain rfl := Option.some.inj h
      have hle : c.toNat ≤ 'f'.toNat := hlower.2
      have hf : 'f'.toNat = 102 := rfl
      have ha : 'a'.toNat = 97 := rfl
      omega
    · split at h
      · rename_i hupper
        obtain rfl := Option.some.inj h
        have hle : c.toNat ≤ 'F'.toNat := hupper.2
        have hf : 'F'.toNat = 70 := rfl
        have ha : 'A'.toNat = 65 := rfl
        omega
      · cases h

/-- Four digits spell a number of 16 bits. -/
theorem hex4?_lt {a b d e : Char} (h : hex4? a b d e = some n) : n < 0x10000 := by
  simp only [hex4?, Option.bind_eq_bind, Option.bind_eq_some_iff] at h
  obtain ⟨w, hw, x, hx, y, hy, z, hz, h⟩ := h
  obtain rfl := Option.some.inj h
  have hlts := And.intro (hexValue?_lt hw) (And.intro (hexValue?_lt hx)
    (And.intro (hexValue?_lt hy) (hexValue?_lt hz)))
  omega

theorem isValidChar_of_not_surrogate (h : n < 0x10000) (hhigh : ¬ isHighSurrogate n = true)
    (hlow : ¬ isLowSurrogate n = true) : n.isValidChar := by
  simp only [isHighSurrogate, isLowSurrogate, Bool.and_eq_true, decide_eq_true_eq] at hhigh hlow
  simp only [Nat.isValidChar]
  omega

/-- A numeric escape denotes a character by itself, or with the escape behind it. -/
theorem exists_charText_of_unit {a b d e : Char} {after : List Char}
    (h : readChar? ('\\' :: 'u' :: a :: b :: d :: e :: after) = some (c, rest)) :
    ∃ text, CharText text c ∧ '\\' :: 'u' :: a :: b :: d :: e :: after = text ++ rest := by
  rw [readChar?] at h
  obtain ⟨n, hn, h⟩ := Option.bind_eq_some_iff.mp h
  split at h
  · rename_i hhigh
    split at h
    · obtain ⟨m, hm, h⟩ := Option.bind_eq_some_iff.mp h
      split at h
      · rename_i hlow
        obtain ⟨rfl, rfl⟩ := Prod.mk.inj (Option.some.inj h)
        exact ⟨_, .pair hn hhigh hm hlow, rfl⟩
      · cases h
    · cases h
  · rename_i hhigh
    split at h
    · cases h
    · rename_i hlow
      obtain ⟨rfl, rfl⟩ := Prod.mk.inj (Option.some.inj h)
      exact ⟨_, .unit hn (isValidChar_of_not_surrogate (hex4?_lt hn) hhigh hlow), rfl⟩

/-- A character is read from a text that denotes it, if it is not the last one. -/
theorem exists_charText_of_readChar? (h : readChar? cs = some (c, rest)) (hrest : rest ≠ []) :
    ∃ text, CharText text c ∧ cs = text ++ rest := by
  fun_cases readChar? cs with
  | case1 => exact exists_charText_of_unit h
  | case2 letter after hnumeric =>
    rw [readChar?] at h
    · obtain ⟨e, he, h⟩ := Option.bind_eq_some_iff.mp h
      obtain ⟨rfl, rfl⟩ := Prod.mk.inj (Option.some.inj h)
      exact ⟨_, .short (mem_of_simpleEscape? he), rfl⟩
    · exact hnumeric
  | case3 => cases h
  | case4 d after hnumeric hescape hquote hcontrol =>
    rw [readChar?, if_pos hcontrol] at h
    · cases h
    all_goals assumption
  | case5 d after hnumeric hescape hquote hcontrol =>
    rw [readChar?, if_neg hcontrol] at h
    · obtain ⟨rfl, rfl⟩ := Prod.mk.inj (Option.some.inj h)
      -- a backslash has something behind it, so it is not this one
      have hbackslash : d ≠ '\\' := by
        intro hd
        obtain ⟨e, more, rfl⟩ := List.exists_cons_of_ne_nil hrest
        exact hescape e more hd rfl
      exact ⟨[d], .raw hquote hbackslash (Nat.not_lt.mp hcontrol), rfl⟩
    all_goals assumption
  | case6 => cases h

theorem exists_contentText_of_readString? {content : List Char}
    (h : readString? fuel cs = some (content, rest)) :
    ∃ text, ContentText text content ∧ cs = text ++ '"' :: rest := by
  fun_induction readString? fuel cs generalizing content with
  | case1 =>
    obtain ⟨rfl, rfl⟩ := Prod.mk.inj (Option.some.inj h)
    exact ⟨[], .nil, rfl⟩
  | case2 => cases h
  | case3 fuel cs hquote ih =>
    obtain ⟨⟨c, after⟩, hc, h⟩ := Option.bind_eq_some_iff.mp h
    obtain ⟨⟨content', rest'⟩, hcontent, h⟩ := Option.bind_eq_some_iff.mp h
    obtain ⟨rfl, rfl⟩ := Prod.mk.inj (Option.some.inj h)
    obtain ⟨inner, hinner, rfl⟩ := ih _ hcontent
    obtain ⟨text, htext, rfl⟩ := exists_charText_of_readChar? hc (by simp)
    exact ⟨text ++ inner, .cons htext hinner, by simp⟩

theorem exists_stringText_of_string? {s : String} (h : string? fuel cs = some (s, rest)) :
    ∃ text, StringText text s ∧ '"' :: cs = text ++ rest := by
  obtain ⟨⟨content, rest'⟩, hcontent, h⟩ := Option.bind_eq_some_iff.mp h
  obtain ⟨rfl, rfl⟩ := Prod.mk.inj (Option.some.inj h)
  obtain ⟨inner, hinner, rfl⟩ := exists_contentText_of_readString? hcontent
  exact ⟨_, ⟨inner, by simpa using hinner, rfl⟩, by simp⟩

/-! ### Numbers -/

theorem eq_append_of_read? {ds : Text.Digits} (h : Text.Digits.read? cs = some (ds, rest)) :
    cs = ds.chars ++ rest := by
  rw [Text.Digits.read?] at h
  split at h
  · obtain ⟨rfl, rfl⟩ := Prod.mk.inj (Option.some.inj h)
    exact List.takeWhile_append_dropWhile.symm
  · cases h

theorem eq_append_of_fraction? {fraction : Option Text.Digits}
    (h : fraction? cs = some (fraction, rest)) : cs = fractionChars fraction ++ rest := by
  rw [fraction?.eq_def] at h
  split at h
  · obtain ⟨⟨ds, rest'⟩, hds, h⟩ := Option.bind_eq_some_iff.mp h
    obtain ⟨rfl, rfl⟩ := Prod.mk.inj (Option.some.inj h)
    rw [eq_append_of_read? hds]
    rfl
  · obtain ⟨rfl, rfl⟩ := Prod.mk.inj (Option.some.inj h)
    rfl

/-- The digits of an exponent, with its mark in front. -/
theorem exists_exponentText_of_exponentDigits? {mark : Char} {e : Bool × Text.Digits}
    (hmark : mark = 'e' ∨ mark = 'E') (h : exponentDigits? cs = some (e, rest)) :
    ∃ text, ExponentText text (some e) ∧ mark :: cs = text ++ rest := by
  rw [exponentDigits?.eq_def] at h
  split at h
  all_goals
    obtain ⟨⟨ds, rest'⟩, hds, h⟩ := Option.map_eq_some_iff.mp h
    obtain ⟨rfl, rfl⟩ := Prod.mk.inj h
    rw [eq_append_of_read? hds]
  · exact ⟨_, .plus hmark ds, rfl⟩
  · exact ⟨_, .minus hmark ds, rfl⟩
  · exact ⟨_, .bare hmark ds, rfl⟩

theorem exists_exponentText_of_exponent? {exponent : Option (Bool × Text.Digits)}
    (h : exponent? cs = some (exponent, rest)) :
    ∃ text, ExponentText text exponent ∧ cs = text ++ rest := by
  rw [exponent?.eq_def] at h
  split at h
  · obtain ⟨⟨e, rest'⟩, he, h⟩ := Option.map_eq_some_iff.mp h
    obtain ⟨rfl, rfl⟩ := Prod.mk.inj h
    exact exists_exponentText_of_exponentDigits? (.inl rfl) he
  · obtain ⟨⟨e, rest'⟩, he, h⟩ := Option.map_eq_some_iff.mp h
    obtain ⟨rfl, rfl⟩ := Prod.mk.inj h
    exact exists_exponentText_of_exponentDigits? (.inr rfl) he
  · obtain ⟨rfl, rfl⟩ := Prod.mk.inj (Option.some.inj h)
    exact ⟨[], .absent, rfl⟩

theorem exists_numberText_of_unsigned? {negative : Bool} {number : Number}
    (h : unsigned? negative cs = some (number, rest)) :
    ∃ text, NumberText text number ∧ signChars negative ++ cs = text ++ rest := by
  obtain ⟨⟨whole, afterWhole⟩, hwhole, h⟩ := Option.bind_eq_some_iff.mp h
  dsimp only at h
  split at h
  · cases h
  · rename_i hzero
    obtain ⟨⟨fraction, afterFraction⟩, hfraction, h⟩ := Option.bind_eq_some_iff.mp h
    obtain ⟨⟨exponent, rest'⟩, hexponent, h⟩ := Option.bind_eq_some_iff.mp h
    obtain ⟨rfl, rfl⟩ := Prod.mk.inj (Option.some.inj h)
    obtain ⟨text, htext, rfl⟩ := exists_exponentText_of_exponent? hexponent
    refine ⟨_, ⟨by simpa using hzero, text, htext, rfl⟩, ?_⟩
    rw [eq_append_of_read? hwhole, eq_append_of_fraction? hfraction]
    simp

theorem exists_numberText_of_number? {number : Number} (h : number? cs = some (number, rest)) :
    ∃ text, NumberText text number ∧ cs = text ++ rest := by
  rw [number?.eq_def] at h
  split at h
  · exact exists_numberText_of_unsigned? h
  · exact exists_numberText_of_unsigned? h

/-! ### Values -/

/-- What a value is read from. -/
def ValuesWritten (fuel : Nat) : Prop :=
  ∀ depth cs v rest, value? fuel depth cs = some (v, rest) →
    ∃ (before : Blanks) (text : List Char),
      cs = before.chars ++ (text ++ rest) ∧ Written text v ∧ v.depth ≤ depth

/-- What the items of an array are read from. -/
def ItemsWritten (fuel : Nat) : Prop :=
  ∀ depth cs vs rest, items? fuel depth cs = some (vs, rest) →
    ∃ items : List Item, items ≠ [] ∧ cs = separated (items.map Item.chars) ++ ']' :: rest ∧
      vs = items.map Item.value ∧
      ∀ item ∈ items, Written item.text item.value ∧ item.value.depth ≤ depth

/-- What the members of an object are read from. -/
def MembersWritten (fuel : Nat) : Prop :=
  ∀ depth cs entries rest, members? fuel depth cs = some (entries, rest) →
    ∃ members : List Member, members ≠ [] ∧
      cs = separated (members.map Member.chars) ++ '\x7d' :: rest ∧
      entries = members.map Member.entry ∧
      ∀ m ∈ members, Written m.item.text m.item.value ∧ m.item.value.depth ≤ depth

/-- An item is read with the blanks before it, and goes on to the next character that is none. -/
theorem exists_item (hvalues : ValuesWritten fuel) {next : List Char}
    (h : value? fuel depth cs = some (v, rest)) (hnext : skipBlanks rest = next) :
    ∃ item : Item, cs = item.chars ++ next ∧ item.value = v ∧ Written item.text item.value ∧
      item.value.depth ≤ depth := by
  obtain ⟨before, text, rfl, hwritten, hdepth⟩ := hvalues _ _ _ _ h
  obtain ⟨after, rfl⟩ := exists_blanks_of_skipBlanks hnext
  exact ⟨⟨before, text, v, after⟩, by simp [Item.chars], rfl, hwritten, hdepth⟩

theorem itemsWritten_succ (hvalues : ValuesWritten fuel) (hitems : ItemsWritten fuel) :
    ItemsWritten (fuel + 1) := by
  intro depth cs vs rest h
  rw [items?] at h
  split at h
  · cases h
  · rename_i v afterItem hv
    split at h
    · rename_i hnext
      obtain ⟨rfl, rfl⟩ := Prod.mk.inj (Option.some.inj h)
      obtain ⟨item, rfl, rfl, hitem⟩ := exists_item hvalues hv hnext
      exact ⟨[item], by simp, by simp, rfl, by simpa using hitem⟩
    · rename_i afterComma hnext
      obtain ⟨⟨vs', rest'⟩, hvs, h⟩ := Option.map_eq_some_iff.mp h
      obtain ⟨rfl, rfl⟩ := Prod.mk.inj h
      obtain ⟨item, rfl, rfl, hitem⟩ := exists_item hvalues hv hnext
      obtain ⟨items, hne, rfl, rfl, hall⟩ := hitems _ _ _ _ hvs
      refine ⟨item :: items, by simp, ?_, rfl, List.forall_mem_cons.mpr ⟨hitem, hall⟩⟩
      rw [List.map_cons, separated_cons _ (by simpa using hne)]
      simp
    · cases h

theorem membersWritten_succ (hvalues : ValuesWritten fuel) (hmembers : MembersWritten fuel) :
    MembersWritten (fuel + 1) := by
  intro depth cs entries rest h
  rw [members?] at h
  split at h
  · rename_i start hstart
    obtain ⟨before, rfl⟩ := exists_blanks_of_skipBlanks hstart
    split at h
    · cases h
    · rename_i key afterKey hkey
      obtain ⟨keyText, hquoted, hkeyText⟩ := exists_stringText_of_string? hkey
      split at h
      · rename_i afterColon hcolon
        obtain ⟨between, rfl⟩ := exists_blanks_of_skipBlanks hcolon
        split at h
        · cases h
        · rename_i v afterItem hv
          split at h
          · rename_i hnext
            obtain ⟨rfl, rfl⟩ := Prod.mk.inj (Option.some.inj h)
            obtain ⟨item, rfl, rfl, hitem⟩ := exists_item hvalues hv hnext
            refine ⟨[⟨before, keyText, key, between, item, hquoted⟩], by simp, ?_, rfl,
              by simpa using hitem⟩
            rw [hkeyText]
            simp [Member.chars]
          · rename_i afterComma hnext
            obtain ⟨⟨entries', rest'⟩, hentries, h⟩ := Option.map_eq_some_iff.mp h
            obtain ⟨rfl, rfl⟩ := Prod.mk.inj h
            obtain ⟨item, rfl, rfl, hitem⟩ := exists_item hvalues hv hnext
            obtain ⟨members, hne, rfl, rfl, hall⟩ := hmembers _ _ _ _ hentries
            refine ⟨⟨before, keyText, key, between, item, hquoted⟩ :: members, by simp, ?_, rfl,
              List.forall_mem_cons.mpr ⟨hitem, hall⟩⟩
            rw [hkeyText, List.map_cons, separated_cons _ (by simpa using hne)]
            simp [Member.chars]
          · cases h
      · cases h
  · cases h

/-- An array is read from its opening bracket. -/
theorem exists_array (hitems : ItemsWritten fuel)
    (h : value? (fuel + 1) (depth + 1) ('[' :: cs) = some (v, rest)) :
    ∃ text, '[' :: cs = text ++ rest ∧ Written text v ∧ v.depth ≤ depth + 1 := by
  rw [value?_bracket] at h
  split at h
  · rename_i hclosed
    obtain ⟨rfl, rfl⟩ := Prod.mk.inj (Option.some.inj h)
    obtain ⟨blanks, rfl⟩ := exists_blanks_of_skipBlanks hclosed
    exact ⟨_, by simp, .emptyArray blanks, by simp⟩
  · obtain ⟨⟨vs, rest'⟩, hvs, h⟩ := Option.map_eq_some_iff.mp h
    obtain ⟨rfl, rfl⟩ := Prod.mk.inj h
    obtain ⟨items, hne, rfl, rfl, hall⟩ := hitems _ _ _ _ hvs
    refine ⟨_, by simp, .array hne fun item hitem => (hall item hitem).1, ?_⟩
    rw [depth_array_le_iff, List.forall_mem_map]
    exact fun item hitem => (hall item hitem).2

/-- An object is read from its opening brace. -/
theorem exists_object (hmembers : MembersWritten fuel)
    (h : value? (fuel + 1) (depth + 1) ('\x7b' :: cs) = some (v, rest)) :
    ∃ text, '\x7b' :: cs = text ++ rest ∧ Written text v ∧ v.depth ≤ depth + 1 := by
  rw [value?_brace] at h
  split at h
  · rename_i hclosed
    obtain ⟨rfl, rfl⟩ := Prod.mk.inj (Option.some.inj h)
    obtain ⟨blanks, rfl⟩ := exists_blanks_of_skipBlanks hclosed
    exact ⟨_, by simp, .emptyObject blanks, by simp⟩
  · obtain ⟨⟨entries, rest'⟩, hentries, h⟩ := Option.map_eq_some_iff.mp h
    obtain ⟨rfl, rfl⟩ := Prod.mk.inj h
    obtain ⟨members, hne, rfl, rfl, hall⟩ := hmembers _ _ _ _ hentries
    refine ⟨_, by simp, .object hne fun m hm => (hall m hm).1, ?_⟩
    rw [depth_object_le_iff, List.forall_mem_map]
    exact fun m hm => (hall m hm).2

theorem valuesWritten_succ (hitems : ItemsWritten fuel) (hmembers : MembersWritten fuel) :
    ValuesWritten (fuel + 1) := by
  intro depth cs v rest h
  obtain ⟨before, hcs⟩ := exists_blanks cs
  suffices htext : ∃ text, skipBlanks cs = text ++ rest ∧ Written text v ∧ v.depth ≤ depth by
    obtain ⟨text, hskip, hwritten, hdepth⟩ := htext
    exact ⟨before, text, by rwa [hskip] at hcs, hwritten, hdepth⟩
  clear hcs
  rw [value?] at h
  split at h
  case h_1 | h_2 | h_3 =>
    rename_i hstart
    obtain ⟨after, hword, h⟩ := Option.map_eq_some_iff.mp h
    obtain ⟨rfl, rfl⟩ := Prod.mk.inj h
    rw [hstart, eq_append_of_afterWord? hword]
    exact ⟨_, rfl, by constructor, Nat.zero_le _⟩
  case h_4 =>
    rename_i hstart
    obtain ⟨⟨s, after⟩, hs, h⟩ := Option.map_eq_some_iff.mp h
    obtain ⟨rfl, rfl⟩ := Prod.mk.inj h
    obtain ⟨text, htext, heq⟩ := exists_stringText_of_string? hs
    exact ⟨text, hstart.trans heq, .string htext, Nat.zero_le _⟩
  case h_5 =>
    rename_i start hstart
    rw [hstart]
    cases depth with
    | zero => cases h
    | succ depth => exact exists_array hitems h
  case h_6 =>
    rename_i start hstart
    rw [hstart]
    cases depth with
    | zero => cases h
    | succ depth => exact exists_object hmembers h
  case h_7 =>
    obtain ⟨⟨number, after⟩, hnumber, h⟩ := Option.map_eq_some_iff.mp h
    obtain ⟨rfl, rfl⟩ := Prod.mk.inj h
    obtain ⟨text, htext, heq⟩ := exists_numberText_of_number? hnumber
    exact ⟨text, heq, .number htext, Nat.zero_le _⟩

/-- What is read is written, with nesting within the depth. -/
theorem written_of_read (fuel : Nat) :
    ValuesWritten fuel ∧ ItemsWritten fuel ∧ MembersWritten fuel := by
  induction fuel with
  | zero =>
    refine ⟨?_, ?_, ?_⟩
    · intro depth cs v rest h
      cases h
    · intro depth cs vs rest h
      cases h
    · intro depth cs entries rest h
      cases h
  | succ fuel ih =>
    obtain ⟨hvalues, hitems, hmembers⟩ := ih
    exact ⟨valuesWritten_succ hitems hmembers, itemsWritten_succ hvalues hitems,
      membersWritten_succ hvalues hmembers⟩

/-! ### Documents -/

/-- Parsing succeeds on the documents that are not nested too deep. -/
theorem ofChars?_eq_some_iff : ofChars? cs = some v ↔ IsDocument cs v ∧ v.depth ≤ maxDepth := by
  constructor
  · intro h
    rw [ofChars?] at h
    split at h
    · rename_i v' rest hread
      split at h
      · rename_i hrest
        obtain rfl := Option.some.inj h
        obtain ⟨item, rfl, rfl, hitem, hdepth⟩ :=
          exists_item (written_of_read _).1 hread (List.isEmpty_iff.mp hrest)
        exact ⟨⟨item, by simp, rfl, hitem⟩, hdepth⟩
      · cases h
    · cases h
  · rintro ⟨⟨item, rfl, rfl, hitem⟩, hdepth⟩
    exact ofChars?_chars item (isReadAs_of_written hitem hdepth)

/-- **What is parsed are the documents within the limit of nesting.** -/
theorem parse?_eq_some_iff {text : String} :
    parse? text = some v ↔ IsDocument text.toList v ∧ v.depth ≤ maxDepth := ofChars?_eq_some_iff

theorem parse?_eq_none_iff {text : String} :
    parse? text = none ↔ ∀ v, IsDocument text.toList v → maxDepth < v.depth := by
  rw [Option.eq_none_iff_forall_ne_some]
  refine forall_congr' fun v => ?_
  rw [ne_eq, parse?_eq_some_iff, not_and, Nat.not_le]

/-- A text is the document of one value at most. -/
theorem IsDocument.unique {v' : Json} (h : IsDocument cs v) (h' : IsDocument cs v') : v = v' := by
  obtain ⟨item, rfl, rfl, hitem⟩ := h
  obtain ⟨item', hchars, rfl, hitem'⟩ := h'
  -- read with room for both, the text gives one value
  have hread := value?_chars
    (isReadAs_of_written hitem (Nat.le_max_left _ item'.value.depth))
  have hread' := value?_chars
    (isReadAs_of_written hitem' (Nat.le_max_right item.value.depth _))
  rw [hchars, hread] at hread'
  exact (Prod.mk.inj (Option.some.inj hread')).1

end CallData.Json
