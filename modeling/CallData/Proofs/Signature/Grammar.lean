/-
CallData/Proofs/Signature/Grammar.lean

The grammar of signature texts.

A signature is written as a name, an argument list between parentheses, and nothing else.  The name
has no opening parenthesis in it and is not blank.  The argument list is blank, or it is cut at its
commas into type names.  Blanks do not count around the text, the name and each type name.

`IsSignature` and `IsRefused` say this of a trimmed text without a reader: the one which signature
it is, the other what is wrong with a text that is none.  Of several things wrong, the first one
counts: the parentheses, then the name, then the type names from left to right.

Main result: reading gives a signature exactly for the texts of the grammar, and fails on every
other text with what is wrong with it (`parse_grammar`).
-/
import CallData.Proofs.Signature.Reading

namespace CallData

open Abi

/-! ### Type names -/

namespace Abi.ParamType

/-- The type names, each with the type that it stands for. -/
def spellings : List (String × ParamType) :=
  [("uint32", .uint .w32), ("uint64", .uint .w64), ("uint", .uint .w256), ("uint256", .uint .w256),
    ("bytes", .bytes), ("string", .string), ("bytes[]", .array .bytes),
    ("string[]", .array .string)]

/-- The text is a name of the type, with or without blanks around it. -/
def IsNamedBy (ty : ParamType) (cs : List Char) : Prop :=
  (String.ofList (Text.trim cs), ty) ∈ spellings

variable {cs : List Char} {text : String} {ty : ParamType} {e : CallError}

theorem ofName?_eq_some_iff_mem : ofName? text = some ty ↔ (text, ty) ∈ spellings := by
  rw [ofName?_eq_some_iff]
  rcases ty with (_ | _ | _) | _ | _ | (_ | _) <;> simp [spellings, name, or_comm]

theorem ofChars_eq_ok_iff_isNamedBy : ofChars cs = .ok ty ↔ ty.IsNamedBy cs :=
  ofChars_eq_ok_iff.trans ofName?_eq_some_iff_mem

/-- What names no type is refused by what it is without blanks around it. -/
theorem ofChars_eq_error_iff : ofChars cs = .error e ↔
    (¬ ∃ ty : ParamType, ty.IsNamedBy cs) ∧
      e = .invalidTypeName (String.ofList (Text.trim cs)) := by
  rcases hread : ofChars cs with e' | ty
  · have hnone : ¬ ∃ ty : ParamType, ty.IsNamedBy cs := by
      rintro ⟨ty, hty⟩
      rw [ofChars_eq_ok_iff_isNamedBy.mpr hty] at hread
      contradiction
    have he' : e' = .invalidTypeName (String.ofList (Text.trim cs)) := by
      rw [ofChars] at hread
      split at hread
      · contradiction
      · exact (Except.error.inj hread).symm
    rw [he']
    simp [hnone, eq_comm]
  · constructor
    · intro h
      contradiction
    · rintro ⟨hnone, -⟩
      exact absurd ⟨ty, ofChars_eq_ok_iff_isNamedBy.mp hread⟩ hnone

end Abi.ParamType

namespace Signature

/-! ### Argument lists -/

/-- The pieces of a text between its commas. -/
inductive IsCut : List Char → List (List Char) → Prop where
  | last {piece} : ',' ∉ piece → IsCut piece [piece]
  | more {piece rest pieces} : ',' ∉ piece → IsCut rest pieces →
      IsCut (piece ++ ',' :: rest) (piece :: pieces)

/-- The text is an argument list with these types: a blank one, or type names between commas. -/
inductive IsArgumentList (args : List Char) : List ParamType → Prop where
  | blank : Text.isBlankText args = true → IsArgumentList args []
  | names {pieces types} : IsCut args pieces →
      List.Forall₂ (fun piece ty => ParamType.IsNamedBy ty piece) pieces types →
      IsArgumentList args types

/-- The trimmed text is this signature. -/
inductive IsSignature : List Char → Signature → Prop where
  | mk {name args types} : '(' ∉ name → Text.isBlankText name = false → IsArgumentList args types →
      IsSignature (name ++ '(' :: args ++ [')']) ⟨String.ofList (Text.trim name), types⟩

/-- The trimmed text is refused for this reason. -/
inductive IsRefused (text : List Char) : CallError → Prop where
  | unopened : '(' ∉ text → IsRefused text (.invalidTypeName (String.ofList text))
  | unclosed {name rest} : '(' ∉ name → text = name ++ '(' :: rest → ¬ [')'] <:+ rest →
      IsRefused text (.invalidTypeName (String.ofList text))
  | unnamed {name args} : '(' ∉ name → text = name ++ '(' :: args ++ [')'] →
      Text.isBlankText name = true → IsRefused text .missingName
  | unknownType {name args before piece after} : '(' ∉ name → text = name ++ '(' :: args ++ [')'] →
      Text.isBlankText name = false → Text.isBlankText args = false →
      IsCut args (before ++ piece :: after) →
      (∀ known ∈ before, ∃ ty, ParamType.IsNamedBy ty known) →
      (¬ ∃ ty, ParamType.IsNamedBy ty piece) →
      IsRefused text (.invalidTypeName (String.ofList (Text.trim piece)))

variable {cs name args rest : List Char} {pieces : List (List Char)} {types : List ParamType}
variable {text : String} {sig : Signature} {e : CallError}

/-! ### Cutting at the commas -/

theorem IsCut.cons {c : Char} (h : IsCut rest pieces) (hc : c ≠ ',') :
    IsCut (c :: rest) (pieces.modifyHead (c :: ·)) := by
  have hne {piece : List Char} (hpiece : ',' ∉ piece) : ',' ∉ c :: piece := by
    simp [hpiece, hc.symm]
  cases h with
  | last hpiece => exact .last (hne hpiece)
  | more hpiece hrest => exact .more (hne hpiece) hrest

theorem isCut_splitOn (args : List Char) : IsCut args (args.splitOn ',') := by
  induction args with
  | nil => exact .last (by simp)
  | cons c rest ih =>
    rw [List.splitOn_cons_eq_if_modifyHead]
    split
    · rename_i hc
      obtain rfl : c = ',' := by simpa using hc
      exact IsCut.more List.not_mem_nil ih
    · rename_i hc
      exact ih.cons (by simpa using hc)

/-- A text is cut in one way. -/
theorem isCut_iff : IsCut args pieces ↔ args.splitOn ',' = pieces := by
  constructor
  · intro h
    induction h with
    | @last piece hpiece =>
      rw [List.splitOn_eq_splitOnP, List.splitOnP_eq_singleton]
      intro c hc
      exact beq_false_of_ne (ne_of_mem_of_not_mem hc hpiece)
    | more hpiece hrest ih => rw [List.splitOn_append_cons_self_of_not_mem hpiece, ih]
  · rintro rfl
    exact isCut_splitOn args

/-- A comma behind a text adds an empty piece. -/
theorem IsCut.concat (h : IsCut args pieces) : IsCut (args ++ [',']) (pieces ++ [[]]) := by
  induction h with
  | last hpiece => exact .more hpiece (.last (by simp))
  | @more piece rest pieces hpiece _ ih =>
    rw [List.append_assoc, List.cons_append]
    exact .more hpiece ih

/-! ### Reading an argument list -/

theorem not_isNamedBy_of_isBlankText {ty : ParamType} (h : Text.isBlankText cs = true) :
    ¬ ty.IsNamedBy cs := by
  rw [ParamType.IsNamedBy, Text.trim_eq_nil_iff.mpr h]
  simp [ParamType.spellings]

/-- A blank text is its only piece, and this piece names no type. -/
theorem not_forall₂_of_isBlankText (h : Text.isBlankText args = true) (hcut : IsCut args pieces) :
    ¬ List.Forall₂ (fun piece ty => ParamType.IsNamedBy ty piece) pieces types := by
  intro htypes
  cases hcut with
  | last =>
    obtain ⟨ty, _, hty, -⟩ := List.forall₂_cons_left_iff.mp htypes
    exact not_isNamedBy_of_isBlankText h hty
  | more => exact absurd (by simp) (comma_not_mem_of_isBlankText h)

/-- The names between the commas of a list that is not blank. -/
theorem typeNames_eq_iff (h : Text.isBlankText args = false) :
    typeNames args = pieces ↔ IsCut args pieces := by
  rw [typeNames, if_neg (by simp [h]), isCut_iff]

theorem mapM_typeNames_eq_ok_iff :
    (typeNames args).mapM ParamType.ofChars = .ok types ↔ IsArgumentList args types := by
  simp only [mapM_eq_ok_iff, ParamType.ofChars_eq_ok_iff_isNamedBy]
  constructor
  · intro h
    rcases hblank : Text.isBlankText args
    · exact .names ((typeNames_eq_iff hblank).mp rfl) h
    · rw [typeNames, if_pos hblank, List.forall₂_nil_left_iff] at h
      rw [h]
      exact .blank hblank
  · intro h
    cases h with
    | blank hblank =>
      rw [typeNames, if_pos hblank]
      exact .nil
    | @names pieces _ hcut htypes =>
      rcases hblank : Text.isBlankText args
      · rwa [(typeNames_eq_iff hblank).mpr hcut]
      · exact absurd htypes (not_forall₂_of_isBlankText hblank hcut)

theorem mapM_typeNames_eq_error_iff : (typeNames args).mapM ParamType.ofChars = .error e ↔
    Text.isBlankText args = false ∧ ∃ before piece after, IsCut args (before ++ piece :: after) ∧
      (∀ known ∈ before, ∃ ty, ParamType.IsNamedBy ty known) ∧
      (¬ ∃ ty, ParamType.IsNamedBy ty piece) ∧
      e = .invalidTypeName (String.ofList (Text.trim piece)) := by
  rcases hblank : Text.isBlankText args
  · simp only [mapM_eq_error_iff, typeNames_eq_iff hblank, ParamType.ofChars_eq_ok_iff_isNamedBy,
      ParamType.ofChars_eq_error_iff, true_and]
  · rw [typeNames, if_pos hblank]
    simp [List.mapM_nil, pure, Except.pure]

/-! ### Reading a signature -/

theorem parse_eq_ok_iff_isSignature :
    parse text = .ok sig ↔ IsSignature (Text.trim text.toList) sig := by
  rw [parse_eq_ok_iff]
  constructor
  · rintro ⟨name, args, hname, htext, hparts⟩
    obtain ⟨hblank, hsig, htypes⟩ := ofParts_eq_ok_iff.mp hparts
    obtain ⟨sigName, types⟩ := sig
    obtain rfl : sigName = String.ofList (Text.trim name) := hsig
    rw [htext]
    exact .mk hname hblank (mapM_typeNames_eq_ok_iff.mp htypes)
  · generalize htext : Text.trim text.toList = cs
    rintro ⟨hname, hblank, hargs⟩
    exact ⟨_, _, hname, rfl, ofParts_eq_ok_iff.mpr
      ⟨hblank, rfl, mapM_typeNames_eq_ok_iff.mpr hargs⟩⟩

/-- The text is split in two parts, or it is refused as a whole. -/
theorem splitCall?_eq_none_iff : splitCall? cs = none ↔
    '(' ∉ cs ∨ ∃ name rest, '(' ∉ name ∧ cs = name ++ '(' :: rest ∧ ¬ [')'] <:+ rest := by
  constructor
  · intro h
    by_cases hmem : '(' ∈ cs
    · obtain ⟨name, rest, rfl, hname⟩ := List.eq_append_cons_of_mem hmem
      refine .inr ⟨name, rest, hname, rfl, ?_⟩
      rintro ⟨args, rfl⟩
      rw [splitCall?_append hname] at h
      simp at h
    · exact .inl hmem
  · rintro (h | ⟨name, rest, hname, rfl, hlast⟩)
    · exact splitCall?_of_not_mem h
    · rw [splitCall?_append hname, if_neg]
      intro hclosed
      exact hlast ⟨rest.dropLast, List.dropLast_append_getLast? ')' hclosed⟩

theorem ofParts_eq_error_iff : ofParts name args = .error e ↔
    (Text.isBlankText name = true ∧ e = .missingName) ∨
      (Text.isBlankText name = false ∧
        (typeNames args).mapM ParamType.ofChars = .error e) := by
  rw [ofParts]
  rcases hblank : Text.isBlankText name
  · simp [bind_eq_error_iff, pure, Except.pure]
  · simp [eq_comm]

/-- Without two parts the whole text is refused. -/
theorem isRefused_iff_of_unsplit (h : splitCall? cs = none) :
    IsRefused cs e ↔ e = .invalidTypeName (String.ofList cs) := by
  constructor
  · intro hrefused
    cases hrefused with
    | unopened | unclosed => rfl
    | unnamed hname htext | unknownType hname htext =>
      rw [splitCall?_eq_some_iff.mpr ⟨hname, htext⟩] at h
      contradiction
  · rintro rfl
    rcases splitCall?_eq_none_iff.mp h with hmem | ⟨name, rest, hname, htext, hlast⟩
    · exact .unopened hmem
    · exact .unclosed hname htext hlast

theorem isRefused_iff_of_split (h : splitCall? cs = some (name, args)) :
    IsRefused cs e ↔ ofParts name args = .error e := by
  have hparts {name' args' : List Char} (hname : '(' ∉ name')
      (htext : cs = name' ++ '(' :: args' ++ [')']) : name' = name ∧ args' = args := by
    rw [splitCall?_eq_some_iff.mpr ⟨hname, htext⟩] at h
    simpa using h
  rw [ofParts_eq_error_iff, mapM_typeNames_eq_error_iff]
  constructor
  · intro hrefused
    cases hrefused with
    | unopened hmem =>
      rw [splitCall?_eq_none_iff.mpr (.inl hmem)] at h
      contradiction
    | unclosed hname htext hlast =>
      rw [splitCall?_eq_none_iff.mpr (.inr ⟨_, _, hname, htext, hlast⟩)] at h
      contradiction
    | unnamed hname htext hblank =>
      obtain ⟨rfl, -⟩ := hparts hname htext
      exact .inl ⟨hblank, rfl⟩
    | unknownType hname htext hblank hargs hcut hbefore hpiece =>
      obtain ⟨rfl, rfl⟩ := hparts hname htext
      exact .inr ⟨hblank, hargs, _, _, _, hcut, hbefore, hpiece, rfl⟩
  · obtain ⟨hname, htext⟩ := splitCall?_eq_some_iff.mp h
    rintro (⟨hblank, rfl⟩ | ⟨hblank, hargs, before, piece, after, hcut, hbefore, hpiece, rfl⟩)
    · exact .unnamed hname htext hblank
    · exact .unknownType hname htext hblank hargs hcut hbefore hpiece

theorem parse_eq_error_iff_isRefused :
    parse text = .error e ↔ IsRefused (Text.trim text.toList) e := by
  rw [parse]
  rcases hsplit : splitCall? (Text.trim text.toList) with _ | ⟨name, args⟩
  · rw [isRefused_iff_of_unsplit hsplit]
    simp [eq_comm]
  · rw [isRefused_iff_of_split hsplit]

/-! ### A comma at the end -/

/-- A comma behind an argument list is followed by an empty type name. -/
theorem ofParts_concat_comma (h : ofParts name args = .ok sig) :
    ofParts name (args ++ [',']) = .error (.invalidTypeName "") := by
  obtain ⟨hname, -, htypes⟩ := ofParts_eq_ok_iff.mp h
  have hcomma : Text.isBlankText (args ++ [',']) = false := by
    rw [Bool.eq_false_iff]
    intro hblank
    exact absurd (by simp) (comma_not_mem_of_isBlankText hblank)
  have hnone {piece : List Char} (hpiece : Text.isBlankText piece = true) :
      ¬ ∃ ty : ParamType, ty.IsNamedBy piece := fun ⟨_, hty⟩ =>
    not_isNamedBy_of_isBlankText hpiece hty
  rw [ofParts_eq_error_iff, mapM_typeNames_eq_error_iff]
  refine .inr ⟨hname, hcomma, ?_⟩
  rcases hblank : Text.isBlankText args
  · have hcut : IsCut args (typeNames args) := (typeNames_eq_iff hblank).mp rfl
    refine ⟨typeNames args, [], [], hcut.concat, ?_, hnone rfl, rfl⟩
    intro known hknown
    obtain ⟨ty, hty⟩ := exists_ok_of_mapM htypes hknown
    exact ⟨ty, ParamType.ofChars_eq_ok_iff_isNamedBy.mp hty⟩
  · have hcut : IsCut args [args] := .last (comma_not_mem_of_isBlankText hblank)
    refine ⟨[], args, [[]], hcut.concat, by simp, hnone hblank, ?_⟩
    rw [Text.trim_eq_nil_iff.mpr hblank]

/-- A text that ends with its closing parenthesis is read from its two parts. -/
theorem parse_closed (hname : '(' ∉ name) (htext : text.toList = name ++ '(' :: args ++ [')']) :
    parse text = ofParts (name.dropWhile Text.isBlank) args := by
  refine parse_eq_ofParts (fun hmem => hname ((List.dropWhile_sublist _).subset hmem)) ?_
  rw [htext]
  exact Text.trim_append_cons (by decide) (by decide) name args

theorem parse_concat_comma {front : String} (h : parse (front ++ ")") = .ok sig) :
    parse (front ++ ",)") = .error (.invalidTypeName "") := by
  have hopen : '(' ∈ front.toList := by
    obtain ⟨name, args, -, htext, -⟩ := parse_eq_ok_iff.mp h
    have hmem : '(' ∈ (front ++ ")").toList := by
      apply Text.mem_of_mem_trim
      rw [htext]
      simp
    simpa using hmem
  obtain ⟨name, args, hfront, hname⟩ := List.eq_append_cons_of_mem hopen
  have hread : parse (front ++ ")") = ofParts (name.dropWhile Text.isBlank) args :=
    parse_closed hname (by simp [hfront])
  have hcomma : parse (front ++ ",)") = ofParts (name.dropWhile Text.isBlank) (args ++ [',']) :=
    parse_closed hname (by simp [hfront])
  rw [hread] at h
  rw [hcomma, ofParts_concat_comma h]

/-! ### Main result -/

/-- A text is read as a signature exactly if the trimmed text is that signature, and every other
text is refused with the first thing that is wrong with it.  A comma behind the last type name is
refused as an empty type name. -/
theorem parse_grammar (text : String) :
    (∀ sig, parse text = .ok sig ↔ IsSignature (Text.trim text.toList) sig) ∧
    (∀ e, parse text = .error e ↔ IsRefused (Text.trim text.toList) e) ∧
    (∀ front sig, text = front ++ ")" → parse text = .ok sig →
      parse (front ++ ",)") = .error (.invalidTypeName "")) := by
  refine ⟨fun sig => parse_eq_ok_iff_isSignature, fun e => parse_eq_error_iff_isRefused, ?_⟩
  rintro front sig rfl h
  exact parse_concat_comma h

theorem parse_grammar_sample :
    parse " store ( uint , string[])" = .ok ⟨"store", [.uint .w256, .array .string]⟩ ∧
    parse " store ( uint , string[],)" = .error (.invalidTypeName "") ∧
    parse "store(string [],number)" = .error (.invalidTypeName "string []") := by
  have hread : parse " store ( uint , string[])" =
      .ok ⟨"store", [.uint .w256, .array .string]⟩ := by decide
  refine ⟨hread, (parse_grammar " store ( uint , string[])").2.2 " store ( uint , string[]" _ rfl
    hread, ((parse_grammar "store(string [],number)").2.1 _).mpr ?_⟩
  -- two of the names are wrong, and the first one counts
  have htext : Text.trim "store(string [],number)".toList =
      "store".toList ++ '(' :: "string [],number".toList ++ [')'] := by decide
  have hcut : IsCut "string [],number".toList ([] ++ "string []".toList :: ["number".toList]) :=
    isCut_iff.mpr (by decide)
  have hrefused : ParamType.ofChars "string []".toList = .error (.invalidTypeName "string []") := by
    decide
  exact .unknownType (by decide) htext (by decide) (by decide) hcut (by simp)
    (ParamType.ofChars_eq_error_iff.mp hrefused).1

end Signature

end CallData
