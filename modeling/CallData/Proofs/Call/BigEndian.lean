/-
CallData/Proofs/Call/BigEndian.lean

Integers given by their bytes.

Where a call expects an integer, a byte string stands for the number that it spells, the most
significant byte first.  Zero bytes in front of a byte string leave its number as it is
(`Bytes.toNat_zeros_append`), so the word of the number is the byte string behind as many zero bytes
as are missing (`Word.toBytes_eq_zeros_append`), and that word stands in the head of the encoding
whatever the call holds beside it (`Abi.holdsAt_encode_integer`).

Main result: at an integer position a byte string of at most its width does what its number does, at
every width that the number fits; a longer one is refused, before it is read
(`raw_bytes_agree`).
-/
import CallData.Proofs.Bytes
import CallData.Proofs.Call.Outcome

namespace CallData

open Abi
open Bytes (HoldsAt)

/-! ### Bytes and words -/

theorem Bytes.toNat_zeros_append (count : Nat) (raw : Bytes) :
    toNat (List.replicate count 0 ++ raw) = raw.toNat := by
  induction count with
  | zero => rfl
  | succ count ih => simp [List.replicate_succ, toNat_cons, ih]

/-- The word of a number that some bytes spell is these bytes behind zero bytes. -/
theorem Word.toBytes_eq_zeros_append {x : Word} {raw : Bytes} (hx : x.toNat = raw.toNat)
    (hlen : raw.length ≤ size) : x.toBytes = List.replicate (size - raw.length) 0 ++ raw := by
  have hsize : (List.replicate (size - raw.length) 0 ++ raw).length = size := by
    rw [List.length_append, List.length_replicate]
    omega
  have hback := Bytes.ofNat_toNat (List.replicate (size - raw.length) 0 ++ raw)
  rw [hsize, Bytes.toNat_zeros_append, ← hx] at hback
  exact hback

namespace Abi

/-! ### Reading the bytes of an integer -/

/-- The form that a value takes under a declared type, where the bytes of an integer are left to a
reader that may fail. -/
def ParamType.acceptReading (read : Bytes → Option Word) :
    ParamType → Value → Option (Except CallError Value)
  | .uint target, .bytes raw =>
    if raw.length ≤ target.byteCount then (read raw).map fun x => .ok (.uint target x)
    else some (.error (.unsupported (.tooLong raw.length (.uint target))))
  | ty, v => some (ty.accept v)

/-- A reader of at most a word is enough, whatever it does with more bytes. -/
theorem ParamType.acceptReading_eq {read : Bytes → Option Word}
    (hread : ∀ bs, bs.length ≤ Word.size → read bs = some (Word.ofBytes bs)) (ty : ParamType)
    (v : Value) : ty.acceptReading read v = some (ty.accept v) := by
  fun_cases ParamType.acceptReading read ty v with
  | case1 target raw hlen =>
    rw [hread raw (Nat.le_trans hlen target.byteCount_le), accept, if_pos hlen]
    rfl
  | case2 target raw hlen => rw [accept, if_neg hlen]
  | case3 => rfl

/-! ### Integers in the head -/

/-- A static entry is a head word, wherever the tails stand. -/
theorem Layout.holdsAt_heads {entries : List Entry} {i : Nat} {word : Word}
    (h : entries[i]? = some (.static word)) (offset : UInt64) :
    HoldsAt (heads offset entries) (32 * i) word.toBytes := by
  induction entries generalizing i offset with
  | nil => simp at h
  | cons entry rest ih =>
    cases i with
    | zero =>
      obtain rfl : entry = .static word := by simpa using h
      exact (Bytes.holdsAt_self _).append_right _
    | succ i =>
      have hrest : rest[i]? = some (.static word) := by simpa using h
      have hplace (first : Word) (offset : UInt64) :
          HoldsAt (first.toBytes ++ heads offset rest) (32 * (i + 1)) word.toBytes := by
        have hword := (ih hrest offset).append_left first.toBytes
        rwa [Word.length_toBytes, Nat.add_comm, ← Nat.mul_succ] at hword
      cases entry with
      | static first => exact hplace first offset
      | dynamic tail => exact hplace _ _

/-- An integer stands in the head at its position, whatever stands beside it. -/
theorem holdsAt_encode_integer {params : List Param} {i : Nat} {p : Param} {w : Width} {x : Word}
    (h : params[i]? = some p) (hvalue : p.value = .uint w x) :
    HoldsAt (encode params) (32 * i) x.toBytes := by
  have hentry : (params.map fun p => p.value.entry)[i]? = some (.static x) := by
    rw [List.getElem?_map, h, Option.map_some, hvalue, Value.entry]
  exact (Layout.holdsAt_heads hentry _).append_right _

end Abi

namespace Call

variable {call : Call} {target : Width} {raw : Bytes} {v v' : Value} {step : Step}

/-! ### Steps at an integer position -/

/-- A step that gives an admitted value adds it in the form that the declared type has for it. -/
theorem apply_of_admits {ty : ParamType} (hnext : call.declared[call.params.length]? = some ty)
    (hstep : step.value? = some v) (h : ty.Admits v v') :
    step.apply.run call = .ok () (call.push ⟨ty, v'⟩) := by
  rw [Step.apply_of_value? hstep]
  apply run_add_of_bind_ok
  rw [hnext]
  exact Param.resolve_eq_ok_iff.mpr ⟨rfl, ParamType.accept_of_admits h⟩

/-- A step that gives a value that is not admitted fails. -/
theorem apply_of_not_admits {ty : ParamType} (hnext : call.declared[call.params.length]? = some ty)
    (hstep : step.value? = some v) (h : ¬ ∃ v', ty.Admits v v') :
    step.apply.result call = .error (.unsupported (ty.refusal v)) := by
  rw [Step.apply_of_value? hstep]
  apply Operation.result_of_error
  apply run_add_of_bind_error
  rw [hnext]
  exact Param.resolve_eq_error_iff.mpr (ParamType.accept_eq_error_iff.mpr ⟨h, rfl⟩)

/-- What was added last stays at its position. -/
theorem getElem?_run_push (call : Call) (p : Param) (steps : List Step) :
    ((call.push p).run steps).params[call.params.length]? = some p := by
  obtain ⟨rest, hrest⟩ := params_prefix_run (call.push p) steps
  rw [← hrest]
  simp [push]

/-- An integer that was added last stands in the head of every encoding from there on. -/
theorem holdsAt_run_push (call : Call) (w : Width) (x : Word) (steps : List Step) :
    HoldsAt (Abi.encode ((call.push ⟨.uint w, .uint w x⟩).run steps).params)
      (32 * call.params.length) x.toBytes :=
  holdsAt_encode_integer (getElem?_run_push call _ steps) rfl

/-- Call data is the encoding of the parameters behind four bytes. -/
theorem holdsAt_of_encodeWith {hash : Hasher} {data piece : Bytes} {start : Nat}
    (hdata : call.encodeWith hash = .ok data) (h : HoldsAt (Abi.encode call.params) start piece) :
    HoldsAt data (4 + start) piece := by
  obtain ⟨-, name, -, rfl⟩ := encodeWith_eq_ok_iff.mp hdata
  have hplace := h.append_left ((⟨name, call.types⟩ : Signature).selectorWith hash).bytes
  rwa [Selector.length_bytes] at hplace

/-! ### Main result -/

/-- **Bytes and numbers are interchangeable.**  Where an integer comes next, a byte string of at
most its width spells a number of that width.  Giving the bytes and giving the number, at any width
that it fits, leads to the same call, and the head word at the position of the integer is the byte
string behind zero bytes, in every encoding from there on.  A longer byte string is refused and
leaves the call as it was.  So no byte string longer than a word is ever read as a number. -/
theorem raw_bytes_agree (call : Call) (target : Width) (raw : Bytes)
    (hnext : call.declared[call.params.length]? = some (.uint target)) :
    (raw.length ≤ target.byteCount → ∃ (x : Word) (next : Call),
      x.toNat = raw.toNat ∧ x.toNat < 2 ^ target.bits ∧
      (∀ step : Step, step.value? = some (.bytes raw) → step.apply.run call = .ok () next) ∧
      (∀ (step : Step) (w : Width), step.value? = some (.uint w x) → x.toNat < 2 ^ w.bits →
        step.apply.run call = .ok () next) ∧
      (∀ steps, HoldsAt (Abi.encode (next.run steps).params) (32 * call.params.length)
        (List.replicate (32 - raw.length) 0 ++ raw)) ∧
      (∀ steps hash data, (next.run steps).encodeWith hash = .ok data →
        HoldsAt data (4 + 32 * call.params.length)
          (List.replicate (32 - raw.length) 0 ++ raw))) ∧
    (target.byteCount < raw.length → ∀ step : Step, step.value? = some (.bytes raw) →
      step.apply.result call = .error (.unsupported (.tooLong raw.length (.uint target))) ∧
      call.advance step = call) ∧
    (∀ read : Bytes → Option Word,
      (∀ bs, bs.length ≤ 32 → read bs = some (Word.ofBytes bs)) →
      ∀ ty v, ParamType.acceptReading read ty v = some (ty.accept v)) := by
  refine ⟨?_, ?_, fun read hread => ParamType.acceptReading_eq hread⟩
  · intro hlen
    have hsize : raw.length ≤ Word.size := Nat.le_trans hlen target.byteCount_le
    have hx : (Word.ofBytes raw).toNat = raw.toNat := Word.toNat_ofBytes hsize
    have hlt : (Word.ofBytes raw).toNat < 2 ^ target.bits := hx ▸ Width.toNat_lt hlen
    have hword : (Word.ofBytes raw).toBytes = List.replicate (32 - raw.length) 0 ++ raw :=
      Word.toBytes_eq_zeros_append hx hsize
    refine ⟨Word.ofBytes raw, call.push ⟨.uint target, .uint target (Word.ofBytes raw)⟩, hx, hlt,
      ?_, ?_, ?_, ?_⟩
    · intro step hstep
      exact apply_of_admits hnext hstep (.spelled hlen hx)
    · intro step w hstep hw
      exact apply_of_admits hnext hstep (.number hw hlt)
    · intro steps
      rw [← hword]
      exact holdsAt_run_push call target _ steps
    · intro steps hash data hdata
      rw [← hword]
      exact holdsAt_of_encodeWith hdata (holdsAt_run_push call target _ steps)
  · intro hlong step hstep
    have hnone : ¬ ∃ v', (ParamType.uint target).Admits (.bytes raw) v' := by
      rintro ⟨v', hadmits⟩
      cases hadmits with
      | spelled hlen => exact absurd hlen (Nat.not_le.mpr hlong)
    have happly := apply_of_not_admits hnext hstep hnone
    exact ⟨happly, step.leavesAlone_apply.after_eq happly⟩

/-- The sample function takes a byte string and then a number of 32 bits.  The number may be given
by two bytes of which one is zero, but not by five of which four are zero. -/
theorem raw_bytes_agree_sample :
    let call := (ofSignature sampleSignature).push ⟨.bytes, .bytes [1]⟩
    (∃ next, (Step.addBytes [0, 7]).apply.run call = .ok () next ∧
      (Step.addUInt32 7).apply.run call = .ok () next ∧
      (Step.addWord 7).apply.run call = .ok () next ∧
      HoldsAt (Abi.encode next.params) 32 (List.replicate 30 0 ++ [0, 7])) ∧
    call.advance (.addBytes [0, 0, 0, 0, 7]) = call := by
  intro call
  have hnext : call.declared[call.params.length]? = some (.uint .w32) := rfl
  constructor
  · obtain ⟨x, next, hx, -, hraw, hnumber, hword, -⟩ :=
      (raw_bytes_agree call .w32 [0, 7] hnext).1 (by decide)
    obtain rfl : x = 7 := BitVec.eq_of_toNat_eq hx
    exact ⟨next, hraw _ rfl, hnumber _ .w32 rfl (by decide), hnumber _ .w256 rfl (by decide),
      hword []⟩
  · exact ((raw_bytes_agree call .w32 [0, 0, 0, 0, 7] hnext).2.1 (by decide) _ rfl).2

end Call

end CallData
