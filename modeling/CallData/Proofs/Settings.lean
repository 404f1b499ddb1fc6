/-
CallData/Proofs/Settings.lean

The settings: what they leave alone of the output, and how a file keeps them.

Whatever they are, bytes are shown by their digits: they can be read back from them
(`decode_hexText`), the digits of the first bytes stand in front (`beginning_hexText`), and the
format with one word per line puts line ends between the same digits (`withoutLineEnds_dataText`).

A file keeps settings if it is a document that gives each of them, or does not mention it and it is
the standard one (`Settings.Keeps`).  Those settings are loaded from it, the file written for
settings keeps them (`load_file`), and where no settings are kept the standard ones are loaded.
-/
import CallData.Proofs.Hex
import CallData.Proofs.Selector

namespace CallData

/-! ### Digits -/

namespace Hex

theorem digits_append (as bs : Bytes) : digits (as ++ bs) = digits as ++ digits bs :=
  List.flatMap_append

theorem flatten_map_digits (pieces : List Bytes) :
    (pieces.map digits).flatten = digits pieces.flatten := by
  induction pieces with
  | nil => rfl
  | cons piece pieces ih =>
    rw [List.map_cons, List.flatten_cons, List.flatten_cons, ih, digits_append]

theorem newline_notMem_digits (bs : Bytes) : '\n' ∉ digits bs := fun h =>
  absurd (mem_lowerDigits h) (by decide)

end Hex

/-! ### Lines -/

/-- The characters without the line ends among them. -/
def withoutLineEnds (cs : List Char) : List Char := cs.filter (· ≠ '\n')

theorem withoutLineEnds_of_notMem {cs : List Char} (h : '\n' ∉ cs) : withoutLineEnds cs = cs :=
  List.filter_eq_self.mpr fun c hc => decide_eq_true fun heq : c = '\n' => h (heq ▸ hc)

/-- Without their line ends, lines are the pieces one after the other. -/
theorem withoutLineEnds_intercalate {pieces : List (List Char)}
    (h : ∀ piece ∈ pieces, '\n' ∉ piece) :
    withoutLineEnds (['\n'].intercalate pieces) = pieces.flatten := by
  induction pieces with
  | nil => rfl
  | cons piece pieces ih =>
    obtain ⟨hfirst, hrest⟩ := List.forall_mem_cons.mp h
    have hpiece := withoutLineEnds_of_notMem hfirst
    cases pieces with
    | nil => simpa using hpiece
    | cons next pieces =>
      have hbreak : withoutLineEnds ['\n'] = [] := by decide
      have happend (as bs : List Char) :
          withoutLineEnds (as ++ bs) = withoutLineEnds as ++ withoutLineEnds bs :=
        List.filter_append ..
      rw [List.intercalate_cons_cons, happend, happend, hpiece, hbreak, ih hrest, List.append_nil,
        List.flatten_cons (l := piece)]

namespace Settings

variable (s : Settings) (bs : Bytes)

/-- The mark in front of the digits, if there is one. -/
def markChars : List Char := if s.hexMark then ['0', 'x'] else []

theorem toList_hexText : (s.hexText bs).toList = s.markChars ++ Hex.digits bs := by
  rw [hexText, markChars]
  split
  · rw [Hex.encodeMarked, Hex.encode, String.toList_append, String.toList_ofList,
      String.toList_ofList]
  · rw [Hex.encode, String.toList_ofList, List.nil_append]

/-- Bytes are read back from what is shown of them. -/
theorem decode_hexText : Hex.decode (Hex.unmarked (Text.utf8 (s.hexText bs))) = .ok bs := by
  rcases s.hexText_eq bs with h | h
  · rw [h, Hex.unmarked_encode, Hex.decode_encode]
  · have hmarked : s.hexText bs = Hex.encodeMarked bs := h
    rw [hmarked, Hex.unmarked_encodeMarked, Hex.decode_encode]

/-- What is shown of the first bytes is the beginning of what is shown of all. -/
theorem beginning_hexText (n : Nat) : (s.hexText (bs.take n)).toList <+: (s.hexText bs).toList := by
  refine ⟨Hex.digits (bs.drop n), ?_⟩
  rw [toList_hexText, toList_hexText, List.append_assoc, ← Hex.digits_append, List.take_append_drop]

theorem newline_notMem_hexText : '\n' ∉ (s.hexText bs).toList := by
  rw [toList_hexText, List.mem_append, not_or]
  constructor
  · rw [markChars]
    split <;> decide
  · exact Hex.newline_notMem_digits bs

/-- **Both formats show the same digits**, apart from the line ends. -/
theorem withoutLineEnds_dataText :
    withoutLineEnds (s.dataText bs).toList = (s.hexText bs).toList := by
  rw [dataText]
  cases s.format with
  | hex => exact withoutLineEnds_of_notMem (s.newline_notMem_hexText bs)
  | words =>
    have hwords : (s.wordLines bs).map String.toList =
        (s.hexText (bs.take 4)).toList :: (Bytes.chunks 32 (bs.drop 4)).map Hex.digits := by
      simp [wordLines, Hex.encode, Function.comp_def]
    have hlines : ∀ line ∈ (s.wordLines bs).map String.toList, '\n' ∉ line := by
      rw [hwords, List.forall_mem_cons]
      exact ⟨s.newline_notMem_hexText _, List.forall_mem_map.mpr fun piece _ =>
        Hex.newline_notMem_digits piece⟩
    have hjoin : ("\n".intercalate (s.wordLines bs)).toList =
        ['\n'].intercalate ((s.wordLines bs).map String.toList) := String.toList_intercalate
    -- the words are the digits behind the selector, so the pieces make up all digits
    rw [hjoin, withoutLineEnds_intercalate hlines, hwords, List.flatten_cons,
      Hex.flatten_map_digits, Bytes.flatten_chunks (by decide), toList_hexText, toList_hexText,
      List.append_assoc, ← Hex.digits_append, List.take_append_drop]

end Settings

/-! ### The file -/

namespace Settings

/-- The entries give the value under the key, or give none there and it is the default. -/
def Gives {α : Type} (entries : Toml.Entries) (key : String) (read? : Toml.Node → Option α)
    (default value : α) : Prop :=
  match entries.get? key with
  | some node => read? node = some value
  | none => value = default

/-- The file is a document that gives these settings. -/
def Keeps (file : Bytes) (s : Settings) : Prop :=
  ∃ text entries, Text.ofUtf8? file = some text ∧ Toml.parse? text = some entries ∧
    Gives entries "hex_prefix" boolOf? standard.hexMark s.hexMark ∧
    Gives entries "output_format" formatOf? standard.format s.format

theorem entry_eq_some_iff {α : Type} {entries : Toml.Entries} {key : String}
    {read? : Toml.Node → Option α} {default value : α} :
    entry entries key read? default = some value ↔ Gives entries key read? default value := by
  rw [entry, Gives]
  cases entries.get? key with
  | some node => rfl
  | none => rw [Option.some.injEq, eq_comm]

theorem keeps_iff {file : Bytes} {s : Settings} :
    Keeps file s ↔ (Text.ofUtf8? file).bind ofDocument? = some s := by
  obtain ⟨mark, format⟩ := s
  simp only [Keeps, ofDocument?, ofEntries?, Option.bind_eq_bind, Option.bind_eq_some_iff,
    entry_eq_some_iff]
  constructor
  · rintro ⟨text, entries, htext, hentries, hmark, hformat⟩
    exact ⟨text, htext, entries, hentries, mark, hmark, format, hformat, rfl⟩
  · rintro ⟨text, htext, entries, hentries, mark', hmark, format', hformat, hsame⟩
    obtain ⟨rfl, rfl⟩ := Settings.mk.inj (Option.some.inj hsame)
    exact ⟨text, entries, htext, hentries, hmark, hformat⟩

theorem load_of_keeps {file : Bytes} {s : Settings} (h : Keeps file s) : load (some file) = s := by
  rw [load, Option.bind_some, keeps_iff.mp h]
  rfl

/-- Where no settings are kept, the standard ones are in force. -/
theorem load_of_not_keeps {file? : Option Bytes}
    (h : ∀ file s, file? = some file → ¬ Keeps file s) :
    load file? = standard := by
  rcases file? with _ | file
  · rfl
  · have hnone : (Text.ofUtf8? file).bind ofDocument? = none :=
      Option.eq_none_iff_forall_ne_some.mpr fun s hs => h file s rfl (keeps_iff.mpr hs)
    rw [load, Option.bind_some, hnone]
    rfl

theorem ofDocument?_document (s : Settings) : ofDocument? s.document = some s := by
  obtain ⟨mark, format⟩ := s
  cases mark <;> cases format <;> decide +kernel

/-- The file that is written for settings keeps them. -/
theorem keeps_file (s : Settings) : Keeps s.file s := by
  rw [keeps_iff, file, Text.ofUtf8?_utf8]
  exact ofDocument?_document s

theorem load_file (s : Settings) : load (some s.file) = s := load_of_keeps (keeps_file s)

end Settings

end CallData
