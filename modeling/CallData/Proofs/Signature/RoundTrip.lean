/-
CallData/Proofs/Signature/RoundTrip.lean

Signatures and their texts.

Any name can be written, also one with parentheses, commas or blanks in it.  Since no type name
has a parenthesis, the arguments of a written text begin at its last opening parenthesis, so the
text determines the signature (`render_injective`).  A reader splits at the first one.  For a
name without an opening parenthesis that is the same place, and the signature is read back, its
name trimmed (`parse_render`); for any other name the reader takes part of the name for an
argument list, in which an opening parenthesis is left, and fails (`parse_render_eq_error`).
-/
import CallData.Proofs.Signature.Reading

namespace CallData.Signature

open Abi

variable {sig : Signature} {types : List ParamType}

/-! ### Argument lists -/

/-- The type names of a signature as they are written between the parentheses. -/
def arguments (types : List ParamType) : List Char :=
  [','].intercalate (types.map fun ty => ty.name.toList)

theorem chars_eq (sig : Signature) :
    sig.chars = sig.name.toList ++ '(' :: arguments sig.types ++ [')'] := rfl

theorem openParen_not_mem_arguments (types : List ParamType) : '(' ∉ arguments types := by
  intro h
  rcases mem_of_mem_intercalate h with hcomma | ⟨piece, hpiece, hmem⟩
  · contradiction
  · obtain ⟨ty, -, rfl⟩ := List.mem_map.mp hpiece
    exact ParamType.openParen_not_mem_name ty hmem

theorem ofChars_name (ty : ParamType) : ParamType.ofChars ty.name.toList = .ok ty := by
  rcases ty with (_ | _ | _) | _ | _ | (_ | _) <;> rfl

theorem isBlankText_name (ty : ParamType) : Text.isBlankText ty.name.toList = false := by
  rcases ty with (_ | _ | _) | _ | _ | (_ | _) <;> decide

theorem comma_not_mem_name (ty : ParamType) : ',' ∉ ty.name.toList := by
  rcases ty with (_ | _ | _) | _ | _ | (_ | _) <;> decide

/-- A written argument list is cut at its commas into the type names. -/
theorem typeNames_arguments (types : List ParamType) :
    typeNames (arguments types) = types.map fun ty => ty.name.toList := by
  refine typeNames_intercalate ?_ ?_
  · intro piece hpiece
    obtain ⟨ty, -, rfl⟩ := List.mem_map.mp hpiece
    exact comma_not_mem_name ty
  · intro piece hpieces
    obtain ⟨ty, -, rfl⟩ := List.map_eq_singleton_iff.mp hpieces
    exact isBlankText_name ty

theorem mapM_typeNames_arguments (types : List ParamType) :
    (typeNames (arguments types)).mapM ParamType.ofChars = .ok types := by
  rw [typeNames_arguments]
  exact mapM_map_of_inverse ofChars_name types

/-! ### The text determines the signature -/

/-- The last opening parenthesis is at one place. -/
theorem append_openParen_inj {name name' args args' : List Char} (hargs : '(' ∉ args)
    (hargs' : '(' ∉ args') (h : name ++ '(' :: args = name' ++ '(' :: args') :
    name = name' ∧ args = args' := by
  rcases List.append_eq_append_iff.mp h with ⟨middle, rfl, hrest⟩ | ⟨middle, rfl, hrest⟩
  · rcases middle with _ | ⟨c, middle⟩
    · exact ⟨(List.append_nil _).symm, (List.cons.inj hrest).2⟩
    -- the name would go on, and its own parenthesis would be in the other argument list
    · obtain ⟨-, rfl⟩ := List.cons.inj hrest
      exact absurd (List.mem_append_right _ List.mem_cons_self) hargs
  · rcases middle with _ | ⟨c, middle⟩
    · exact ⟨List.append_nil _, (List.cons.inj hrest).2.symm⟩
    · obtain ⟨-, rfl⟩ := List.cons.inj hrest
      exact absurd (List.mem_append_right _ List.mem_cons_self) hargs'

theorem arguments_injective {types types' : List ParamType}
    (h : arguments types = arguments types') :
    types = types' := by
  have hread := mapM_typeNames_arguments types
  rw [h, mapM_typeNames_arguments] at hread
  exact (Except.ok.inj hread).symm

/-- Different signatures have different texts. -/
theorem render_injective {sig sig' : Signature} (h : sig.render = sig'.render) : sig = sig' := by
  have hchars : sig.chars = sig'.chars := String.ofList_injective h
  rw [chars_eq, chars_eq] at hchars
  obtain ⟨hname, hargs⟩ := append_openParen_inj (openParen_not_mem_arguments sig.types)
    (openParen_not_mem_arguments sig'.types) (List.append_cancel_right hchars)
  calc sig = ⟨sig.name, sig.types⟩ := rfl
    _ = ⟨sig'.name, sig'.types⟩ := by
      rw [String.toList_inj.mp hname, arguments_injective hargs]
    _ = sig' := rfl

/-! ### Reading a text that was written -/

theorem trim_chars (sig : Signature) : Text.trim sig.render.toList =
    sig.name.toList.dropWhile Text.isBlank ++ '(' :: arguments sig.types ++ [')'] := by
  rw [render, String.toList_ofList, chars_eq]
  exact Text.trim_append_cons (by decide) (by decide) _ _

/-- A signature is read back from its text, with its name trimmed. -/
theorem parse_render (hname : '(' ∉ sig.name.toList)
    (hblank : Text.isBlankText sig.name.toList = false) :
    parse sig.render = .ok ⟨String.ofList (Text.trim sig.name.toList), sig.types⟩ := by
  refine parse_eq_ok_iff.mpr ⟨_, _, ?_, trim_chars sig, ofParts_eq_ok_iff.mpr ⟨?_, ?_, ?_⟩⟩
  · exact fun hmem => hname ((List.dropWhile_sublist _).subset hmem)
  · rw [Text.isBlankText_dropWhile, hblank]
  · rw [Text.trim_dropWhile]
  · exact mapM_typeNames_arguments sig.types

/-- With a plain name nothing changes. -/
theorem parse_render_of_isPlainName (h : IsPlainName sig.name) : parse sig.render = .ok sig := by
  rw [parse_render h.openParen_not_mem h.not_blank, h.trimmed, String.ofList_toList]

/-- A text with a name that is not plain even when trimmed is not read at all. -/
theorem parse_render_eq_error
    (h : '(' ∈ sig.name.toList ∨ Text.isBlankText sig.name.toList = true) :
    ∃ e, parse sig.render = .error e := by
  by_cases hname : '(' ∈ sig.name.toList
  · -- the name is split, and its rest becomes the front of the argument list
    obtain ⟨front, back, hsplit, hfront⟩ := List.eq_append_cons_of_mem hname
    have htext : Text.trim sig.render.toList =
        front.dropWhile Text.isBlank ++ '(' :: (back ++ '(' :: arguments sig.types) ++ [')'] := by
      rw [trim_chars, hsplit, Text.dropWhile_append_cons (by decide)]
      simp
    have hfront' : '(' ∉ front.dropWhile Text.isBlank :=
      fun hmem => hfront ((List.dropWhile_sublist _).subset hmem)
    rw [parse_eq_ofParts hfront' htext]
    exact ofParts_of_openParen (by simp)
  · have hblank := h.resolve_left hname
    have hname' : '(' ∉ sig.name.toList.dropWhile Text.isBlank :=
      fun hmem => hname ((List.dropWhile_sublist _).subset hmem)
    refine ⟨.missingName, ?_⟩
    rw [parse_eq_ofParts hname' (trim_chars sig), ofParts, if_pos]
    rw [Text.isBlankText_dropWhile, hblank]

/-- What is read from the text of a signature, and when. -/
theorem parse_render_eq_ok_iff {sig' : Signature} : parse sig.render = .ok sig' ↔
    ('(' ∉ sig.name.toList ∧ Text.trim sig.name.toList ≠ []) ∧
      sig'.name = String.ofList (Text.trim sig.name.toList) ∧ sig'.types = sig.types := by
  obtain ⟨name', types'⟩ := sig'
  rw [ne_eq, Text.trim_eq_nil_iff, Bool.not_eq_true]
  by_cases hreadable : '(' ∉ sig.name.toList ∧ Text.isBlankText sig.name.toList = false
  · rw [parse_render hreadable.1 hreadable.2]
    simp [hreadable, eq_comm]
  · have hcases : '(' ∈ sig.name.toList ∨ Text.isBlankText sig.name.toList = true := by
      by_contra hneither
      rw [not_or, Bool.not_eq_true] at hneither
      exact hreadable hneither
    obtain ⟨e, he⟩ := parse_render_eq_error hcases
    simp [he, hreadable]

/-- **Signatures identify functions.**  Different signatures have different texts; a text is read
back, as the signature with its name trimmed, exactly if the name has no opening parenthesis and
is not blank; and what was read is read back as it is. -/
theorem render_identifies :
    (∀ F G : Signature, F.render = G.render → F.name = G.name ∧ F.types = G.types) ∧
    (∀ F : Signature,
      ((∃ G, parse F.render = .ok G) ↔
        '(' ∉ F.name.toList ∧ Text.trim F.name.toList ≠ []) ∧
      ∀ G, parse F.render = .ok G →
        G.name = String.ofList (Text.trim F.name.toList) ∧ G.types = F.types) ∧
    (∀ (text : String) (F : Signature), parse text = .ok F → parse F.render = .ok F) := by
  refine ⟨?_, ?_, ?_⟩
  · intro F G h
    obtain rfl := render_injective h
    exact ⟨rfl, rfl⟩
  · intro F
    constructor
    · constructor
      · rintro ⟨G, hG⟩
        exact (parse_render_eq_ok_iff.mp hG).1
      · intro h
        exact ⟨⟨_, F.types⟩, parse_render_eq_ok_iff.mpr ⟨h, rfl, rfl⟩⟩
    · intro G hG
      exact (parse_render_eq_ok_iff.mp hG).2
  · intro text F h
    exact parse_render_of_isPlainName (isPlainName_of_parse h)

/-- A name with blanks around it is trimmed, a name that looks like a signature is not read, and
blanks and the short type name of a text that was read are gone for good. -/
theorem render_identifies_sample :
    (∀ G, parse (Signature.render ⟨" f,g ", [.uint .w256, .array .bytes]⟩) = .ok G →
      G.name = "f,g" ∧ G.types = [.uint .w256, .array .bytes]) ∧
    (¬ ∃ G, parse (Signature.render ⟨"f(bytes),g", []⟩) = .ok G) ∧
    parse " store ( bytes , uint ) " = .ok ⟨"store", [.bytes, .uint .w256]⟩ ∧
    parse (Signature.render ⟨"store", [.bytes, .uint .w256]⟩) =
      .ok ⟨"store", [.bytes, .uint .w256]⟩ := by
  obtain ⟨-, hread, hagain⟩ := render_identifies
  have hstore : parse " store ( bytes , uint ) " = .ok ⟨"store", [.bytes, .uint .w256]⟩ := by rfl
  refine ⟨?_, ?_, hstore, hagain _ _ hstore⟩
  · intro G hG
    obtain ⟨hname, htypes⟩ := (hread ⟨" f,g ", [.uint .w256, .array .bytes]⟩).2 G hG
    exact ⟨hname.trans (by decide +kernel), htypes⟩
  · intro h
    have hname := ((hread ⟨"f(bytes),g", []⟩).1.mp h).1
    revert hname
    decide +kernel

end CallData.Signature
