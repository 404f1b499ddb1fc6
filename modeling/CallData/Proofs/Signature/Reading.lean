/-
CallData/Proofs/Signature/Reading.lean

When a signature is read, and what is read.

A text is split at its first opening parenthesis and at the closing one that ends it
(`splitCall?_eq_some_iff`); the two parts are then a name that is not blank and a list of type
names (`ofParts_eq_ok_iff`).  No type name has a parenthesis in it, so an argument list with one
is never read.
-/
import CallData.Proofs.Results
import CallData.Proofs.Text.Trim
import CallData.Signature

namespace CallData

open Abi

/-! ### Type names -/

namespace Abi.ParamType

variable {cs : List Char} {text : String} {ty : ParamType}

/-- A type is read from its name; one type has a second name. -/
theorem ofName?_eq_some_iff :
    ofName? text = some ty ↔ text = ty.name ∨ text = "uint" ∧ ty = .uint .w256 := by
  constructor
  · fun_cases ofName? text with
    | case4 =>
      intro h
      exact .inr ⟨rfl, (Option.some.inj h).symm⟩
    | case9 =>
      intro h
      contradiction
    | _ =>
      intro h
      exact .inl (congrArg name (Option.some.inj h))
  · rintro (rfl | ⟨rfl, rfl⟩)
    · exact ofName?_name ty
    · rfl

theorem ofChars_eq_ok_iff :
    ofChars cs = .ok ty ↔ ofName? (String.ofList (Text.trim cs)) = some ty := by
  rw [ofChars]
  rcases ofName? (String.ofList (Text.trim cs)) with _ | ty' <;> simp

theorem openParen_not_mem_name (ty : ParamType) : '(' ∉ ty.name.toList := by
  rcases ty with (_ | _ | _) | _ | _ | (_ | _) <;> decide

/-- What is read as a type has no opening parenthesis in it. -/
theorem openParen_not_mem_of_ofChars (h : ofChars cs = .ok ty) : '(' ∉ cs := by
  intro hmem
  have hname : '(' ∈ (String.ofList (Text.trim cs)).toList := by
    rw [String.toList_ofList]
    exact Text.mem_trim hmem (by decide)
  rcases ofName?_eq_some_iff.mp (ofChars_eq_ok_iff.mp h) with htext | ⟨htext, -⟩
  · rw [htext] at hname
    exact openParen_not_mem_name ty hname
  · rw [htext] at hname
    revert hname
    decide

end Abi.ParamType

namespace Signature

variable {cs name args : List Char} {text : String} {sig : Signature}

/-! ### The two parts -/

theorem ne_openParen_of_not_mem (h : '(' ∉ name) : ∀ c ∈ name, (c != '(') = true := by
  intro c hc
  rw [bne_iff_ne]
  rintro rfl
  exact h hc

theorem splitCall?_of_not_mem (h : '(' ∉ cs) : splitCall? cs = none := by
  have hdrop : cs.dropWhile (· != '(') = [] :=
    List.dropWhile_eq_nil_iff.mpr (ne_openParen_of_not_mem h)
  rw [splitCall?, hdrop]

/-- The first opening parenthesis ends the name, whatever comes after it. -/
theorem splitCall?_append (h : '(' ∉ name) (rest : List Char) :
    splitCall? (name ++ '(' :: rest) =
      if rest.getLast? = some ')' then some (name, rest.dropLast) else none := by
  have hne := ne_openParen_of_not_mem h
  have hdrop : (name ++ '(' :: rest).dropWhile (· != '(') = '(' :: rest := by
    rw [List.dropWhile_append_of_pos hne]
    simp
  have htake : (name ++ '(' :: rest).takeWhile (· != '(') = name := by
    rw [List.takeWhile_append_of_pos hne]
    simp
  rw [splitCall?, hdrop, htake]

/-- The text is split at its first opening parenthesis and at the closing one that ends it. -/
theorem splitCall?_eq_some_iff :
    splitCall? cs = some (name, args) ↔ '(' ∉ name ∧ cs = name ++ '(' :: args ++ [')'] := by
  constructor
  · intro h
    by_cases hmem : '(' ∈ cs
    · obtain ⟨front, rest, rfl, hfront⟩ := List.eq_append_cons_of_mem hmem
      rw [splitCall?_append hfront] at h
      split at h
      · rename_i hlast
        obtain ⟨rfl, rfl⟩ := Prod.mk.inj (Option.some.inj h)
        refine ⟨hfront, ?_⟩
        rw [List.append_assoc, List.cons_append, List.dropLast_append_getLast? ')' hlast]
      · contradiction
    · rw [splitCall?_of_not_mem hmem] at h
      contradiction
  · rintro ⟨hname, rfl⟩
    rw [List.append_assoc, List.cons_append, splitCall?_append hname]
    simp

/-- A name and an argument list are read when the name is not blank and the arguments are types. -/
theorem ofParts_eq_ok_iff :
    ofParts name args = .ok sig ↔ Text.isBlankText name = false ∧
      sig.name = String.ofList (Text.trim name) ∧
      (typeNames args).mapM ParamType.ofChars = .ok sig.types := by
  obtain ⟨sigName, types⟩ := sig
  rw [ofParts]
  split
  · simp [*]
  · rename_i hblank
    simp only [Bool.not_eq_true] at hblank
    rw [bind_eq_ok_iff]
    constructor
    · rintro ⟨types', htypes, h⟩
      obtain ⟨rfl, rfl⟩ := Signature.mk.inj (Except.ok.inj h)
      exact ⟨hblank, rfl, htypes⟩
    · rintro ⟨-, rfl, htypes⟩
      exact ⟨types, htypes, rfl⟩

/-- A character of a list written with commas is a comma, or stands in one of the members. -/
theorem mem_of_mem_intercalate {c : Char} {pieces : List (List Char)}
    (h : c ∈ [','].intercalate pieces) : c = ',' ∨ ∃ piece ∈ pieces, c ∈ piece := by
  induction pieces with
  | nil => simp at h
  | cons first rest ih =>
    cases rest with
    | nil =>
      rw [List.intercalate_singleton] at h
      exact .inr ⟨first, List.mem_singleton_self _, h⟩
    | cons second rest =>
      rw [List.intercalate_cons_cons, List.append_assoc, List.mem_append, List.mem_append,
        List.mem_singleton] at h
      rcases h with hfirst | hcomma | hrest
      · exact .inr ⟨first, List.mem_cons_self, hfirst⟩
      · exact .inl hcomma
      · rcases ih hrest with hcomma | ⟨piece, hpiece, hc⟩
        · exact .inl hcomma
        · exact .inr ⟨piece, List.mem_cons_of_mem _ hpiece, hc⟩

theorem comma_not_mem_of_isBlankText (h : Text.isBlankText args = true) : ',' ∉ args := by
  intro hmem
  have hblank := Text.isBlankText_iff.mp h ',' hmem
  contradiction

/-- A list written with commas is cut into its members again, unless it is a blank text alone. -/
theorem typeNames_intercalate {pieces : List (List Char)} (hcommas : ∀ piece ∈ pieces, ',' ∉ piece)
    (hblank : ∀ piece, pieces = [piece] → Text.isBlankText piece = false) :
    typeNames ([','].intercalate pieces) = pieces := by
  rcases pieces with _ | ⟨first, rest⟩
  · rfl
  · have hnot : ¬ Text.isBlankText ([','].intercalate (first :: rest)) = true := by
      intro h
      rcases rest with _ | ⟨second, rest⟩
      · rw [List.intercalate_singleton, hblank first rfl] at h
        contradiction
      · exact comma_not_mem_of_isBlankText h (by simp [List.intercalate_cons_cons])
    rw [typeNames, if_neg hnot, List.splitOn_intercalate ',' hcommas (by simp)]

/-- An opening parenthesis in the argument list is in one of its pieces, which then names no
type. -/
theorem ofParts_of_openParen (h : '(' ∈ args) : ∃ e, ofParts name args = .error e := by
  rcases hparts : ofParts name args with e | sig
  · exact ⟨e, rfl⟩
  · exfalso
    obtain ⟨-, -, htypes⟩ := ofParts_eq_ok_iff.mp hparts
    have hblank : ¬ Text.isBlankText args = true := fun hall =>
      absurd (Text.isBlankText_iff.mp hall '(' h) (by decide)
    rw [typeNames, if_neg hblank] at htypes
    have hjoin : [','].intercalate (args.splitOn ',') = args := List.intercalate_splitOn ','
    rw [← hjoin] at h
    rcases mem_of_mem_intercalate h with hcomma | ⟨piece, hpiece, hmem⟩
    · contradiction
    · obtain ⟨ty, hty⟩ := exists_ok_of_mapM htypes hpiece
      exact ParamType.openParen_not_mem_of_ofChars hty hmem

theorem parse_eq_ofParts (hname : '(' ∉ name)
    (htext : Text.trim text.toList = name ++ '(' :: args ++ [')']) :
    parse text = ofParts name args := by
  rw [parse]
  simp only [splitCall?_eq_some_iff.mpr ⟨hname, htext⟩]

/-- A signature is read from the two parts of its trimmed text. -/
theorem parse_eq_ok_iff : parse text = .ok sig ↔ ∃ name args, '(' ∉ name ∧
    Text.trim text.toList = name ++ '(' :: args ++ [')'] ∧ ofParts name args = .ok sig := by
  constructor
  · intro h
    rcases hsplit : splitCall? (Text.trim text.toList) with _ | ⟨name, args⟩
    · simp [parse, hsplit] at h
    · obtain ⟨hname, htext⟩ := splitCall?_eq_some_iff.mp hsplit
      rw [parse_eq_ofParts hname htext] at h
      exact ⟨name, args, hname, htext, h⟩
  · rintro ⟨name, args, hname, htext, h⟩
    rw [parse_eq_ofParts hname htext, h]

/-! ### Plain names -/

/-- A name as reading leaves it. -/
structure IsPlainName (name : String) : Prop where
  openParen_not_mem : '(' ∉ name.toList
  not_blank : Text.isBlankText name.toList = false
  trimmed : Text.trim name.toList = name.toList

/-- Trimming leaves a plain name of every text that can be a name. -/
theorem isPlainName_trim (hparen : '(' ∉ name) (hblank : Text.isBlankText name = false) :
    IsPlainName (String.ofList (Text.trim name)) := by
  constructor <;> rw [String.toList_ofList]
  · exact fun hmem => hparen (Text.mem_of_mem_trim hmem)
  · rw [Text.isBlankText_trim, hblank]
  · exact Text.trim_trim name

theorem isPlainName_of_parse (h : parse text = .ok sig) : IsPlainName sig.name := by
  obtain ⟨name, args, hname, -, hparts⟩ := parse_eq_ok_iff.mp h
  obtain ⟨hblank, hsig, -⟩ := ofParts_eq_ok_iff.mp hparts
  rw [hsig]
  exact isPlainName_trim hname hblank

end Signature

end CallData
