/-
CallData/Proofs/Settings/WordLines.lean

Call data, line by line.

No digit is a line end, so the lines of the format with one word per line are the pieces that the
data were cut into (`linesOf_dataText`).  Call data are a selector and whole words, whatever the
call, so behind the line of the selector every line is full: 64 digits that spell the word at its
place (`ShowsWord`).

Main result: both formats show the same digits, from which the data are read back, and call data are
shown one word per line (`formats_carry_data`).
-/
import CallData.Proofs.Abi.Layout
import CallData.Proofs.Call.Outcome
import CallData.Proofs.Settings

namespace CallData.Settings

open Bytes (HoldsAt)

/-! ### Lines -/

/-- The lines of a text. -/
def linesOf (text : String) : List String := (text.toList.splitOn '\n').map String.ofList

/-- Lines that are joined are found again. -/
theorem linesOf_intercalate {lines : List String} (h : ∀ line ∈ lines, '\n' ∉ line.toList)
    (hne : lines ≠ []) : linesOf ("\n".intercalate lines) = lines := by
  have hjoin : ("\n".intercalate lines).toList = ['\n'].intercalate (lines.map String.toList) :=
    String.toList_intercalate
  have hsplit : (['\n'].intercalate (lines.map String.toList)).splitOn '\n' =
      lines.map String.toList :=
    List.splitOn_intercalate '\n' (List.forall_mem_map.mpr h) (by simpa using hne)
  have hid : String.ofList ∘ String.toList = id := funext fun _ => String.ofList_toList
  rw [linesOf, hjoin, hsplit, List.map_map, hid, List.map_id]

theorem newline_notMem_wordLines (s : Settings) (bs : Bytes) :
    ∀ line ∈ s.wordLines bs, '\n' ∉ line.toList := by
  rw [wordLines, List.forall_mem_cons]
  refine ⟨s.newline_notMem_hexText _, List.forall_mem_map.mpr fun piece _ => ?_⟩
  rw [Hex.encode, String.toList_ofList]
  exact Hex.newline_notMem_digits piece

/-- One line for each piece of the data. -/
theorem linesOf_dataText (mark : Bool) (bs : Bytes) :
    linesOf (dataText ⟨mark, .words⟩ bs) = wordLines ⟨mark, .words⟩ bs :=
  linesOf_intercalate (newline_notMem_wordLines _ bs) (List.cons_ne_nil _ _)

/-! ### Words -/

/-- The line consists of the 64 lower-case digits of a word. -/
structure ShowsWord (line : String) (word : Bytes) : Prop where
  length_word : word.length = 32
  length_line : line.length = 64
  lower : ∀ c ∈ line.toList, c ∈ Hex.lowerDigits
  spells : Hex.decode (Text.utf8 line) = .ok word

theorem showsWord_encode {word : Bytes} (h : word.length = 32) :
    ShowsWord (Hex.encode word) word where
  length_word := h
  length_line := by rw [Hex.encode, String.length_ofList, Hex.length_digits, h]
  lower := by
    rw [Hex.encode, String.toList_ofList]
    exact fun _ => Hex.mem_lowerDigits
  spells := Hex.decode_encode word

/-! ### Call data -/

/-- The lines show the selector behind the mark, if there is to be one, and then the words of the
data one by one. -/
structure ShowsCall (mark : Bool) (selector : Selector) (data : Bytes) (lines : List String) :
    Prop where
  whole : data.length = 4 + 32 * ((data.length - 4) / 32)
  count : lines.length = 1 + (data.length - 4) / 32
  beginning : data.take 4 = selector.bytes
  first : lines[0]? = some ((if mark then "0x" else "") ++ Hex.encode selector.bytes)
  words : ∀ i < (data.length - 4) / 32, ∃ line word, lines[i + 1]? = some line ∧
    HoldsAt data (4 + 32 * i) word ∧ ShowsWord line word

theorem hexText_eq_append (mark : Bool) (format : DataFormat) (bs : Bytes) :
    hexText ⟨mark, format⟩ bs = (if mark then "0x" else "") ++ Hex.encode bs := by
  cases mark with
  | true => rfl
  | false => exact (String.empty_append).symm

theorem holdsAt_take_drop {bs : Bytes} {start : Nat} (h : start ≤ bs.length) (count : Nat) :
    HoldsAt bs start ((bs.drop start).take count) := by
  refine ⟨bs.take start, (bs.drop start).drop count, ?_, List.length_take_of_le h⟩
  rw [List.append_assoc, List.take_append_drop, List.take_append_drop]

theorem showsCall_dataOf (mark : Bool) (selector : Selector) (params : List Abi.Param) :
    ShowsCall mark selector (Call.dataOf selector params)
      (wordLines ⟨mark, .words⟩ (Call.dataOf selector params)) := by
  obtain ⟨count, hcount⟩ := Abi.dvd_length_encode params
  have hlength : (Call.dataOf selector params).length = 4 + 32 * count := by
    rw [Call.length_dataOf, hcount]
  have hwords : ((Call.dataOf selector params).length - 4) / 32 = count := by omega
  have hlines : wordLines ⟨mark, .words⟩ (Call.dataOf selector params) =
      hexText ⟨mark, .words⟩ selector.bytes ::
        (Bytes.chunks 32 (Abi.encode params)).map Hex.encode := by
    rw [wordLines, Call.take_dataOf, Call.drop_dataOf]
  constructor
  case whole => rw [hwords, hlength]
  case count =>
    rw [hwords, hlines, List.length_cons, List.length_map, Bytes.length_chunks (by decide) hcount,
      Nat.add_comm]
  case beginning => exact Call.take_dataOf selector params
  case first =>
    rw [hlines, hexText_eq_append]
    rfl
  case words =>
    intro i hi
    rw [hwords] at hi
    -- the word is a whole one, since more than `i` of them follow the selector
    have hplace : 32 * i < (Abi.encode params).length := by omega
    have hword : (((Abi.encode params).drop (32 * i)).take 32).length = 32 := by
      rw [List.length_take, List.length_drop]
      omega
    have hheld := (holdsAt_take_drop (Nat.le_of_lt hplace) 32).append_left selector.bytes
    rw [selector.length_bytes] at hheld
    refine ⟨_, _, ?_, hheld, showsWord_encode hword⟩
    rw [hlines, List.getElem?_cons_succ, List.getElem?_map, Bytes.getElem?_chunks (by decide),
      if_pos hplace]
    rfl

/-! ### Main result -/

/-- **Both formats carry the same data.**  Without its line ends the format with one word per line
is the other one, and the data are read back from that, with the mark or without; so neither format
shows two byte strings alike.  Call data are shown as the selector on the first line and then one
word per line, in order and in lower-case digits, and there is nothing else. -/
theorem formats_carry_data (mark : Bool) :
    (∀ bs,
      withoutLineEnds (dataText ⟨mark, .words⟩ bs).toList = (dataText ⟨mark, .hex⟩ bs).toList ∧
      Hex.decode (Hex.unmarked (Text.utf8 (dataText ⟨mark, .hex⟩ bs))) = .ok bs) ∧
    (∀ format, Function.Injective (dataText ⟨mark, format⟩)) ∧
    ∀ (origin : Call.Origin) (steps : List Call.Step) (hash : Hasher) (data : Bytes),
      let call := origin.start.run steps
      call.encodeWith hash = .ok data →
        ∃ sig, call.signature = .ok sig ∧
          ShowsCall mark (sig.selectorWith hash) data (linesOf (dataText ⟨mark, .words⟩ data)) := by
  refine ⟨fun bs => ⟨withoutLineEnds_dataText _ bs, decode_hexText ⟨mark, .hex⟩ bs⟩, ?_, ?_⟩
  · -- the digits of either format are those of the other, and they are read back
    intro format bs bs' h
    have hdigits : hexText ⟨mark, format⟩ bs = hexText ⟨mark, format⟩ bs' := by
      rw [← String.toList_inj, ← withoutLineEnds_dataText, h, withoutLineEnds_dataText]
    have hread := decode_hexText ⟨mark, format⟩ bs
    rw [hdigits, decode_hexText] at hread
    exact (Except.ok.inj hread).symm
  · intro origin steps hash data call h
    obtain ⟨-, name, hname, rfl⟩ := Call.encodeWith_eq_ok_iff.mp h
    refine ⟨_, Call.signature_of_named hname, ?_⟩
    rw [linesOf_dataText]
    exact showsCall_dataOf mark _ _

/-- The sample call is shown on four lines, the third of which shows the second word. -/
theorem formats_carry_data_sample :
    let call := (Call.Origin.signed Call.sampleSignature).start.run Call.sampleSteps
    ∃ data, call.encodeWith Keccak.hash = .ok data ∧
      (linesOf (dataText ⟨true, .words⟩ data)).length = 4 ∧
      ∃ line word, (linesOf (dataText ⟨true, .words⟩ data))[2]? = some line ∧
        HoldsAt data 36 word ∧ ShowsWord line word := by
  intro call
  have hcomplete : ¬ call.Mismatched := Call.isComplete_iff.mp (by decide +kernel)
  have hname : call.name = some "store" := rfl
  have hencode : call.encodeWith Keccak.hash = _ := Call.encodeWith_of_named hcomplete hname
  obtain ⟨-, -, hcalls⟩ := formats_carry_data true
  obtain ⟨sig, -, hshows⟩ :=
    hcalls (.signed Call.sampleSignature) Call.sampleSteps Keccak.hash _ hencode
  have hlength : (Abi.encode call.params).length = 96 := by decide +kernel
  have hcount := hshows.count
  have hwords := hshows.words 1
  rw [Call.length_dataOf, hlength] at hcount hwords
  exact ⟨_, hencode, hcount, hwords (by decide)⟩

end CallData.Settings
