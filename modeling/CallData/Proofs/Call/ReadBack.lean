/-
CallData/Proofs/Call/ReadBack.lean

Call data determine the parameters of a call.

The reader of `CallData/Proofs/Abi/Reader.lean` needs the types of the parameters.  For a call
with declared types these are the declared ones as soon as the call can be encoded, so two
such calls with the same declared types and the same call data have the same parameters.
-/
import CallData.Proofs.Abi.Reader
import CallData.Proofs.Call.Outcome

namespace CallData.Call

open Abi

variable {a b : Call} {types types' : List ParamType} {hash : Hasher} {data : Bytes}

theorem drop_of_encodeWith_ok (h : a.encodeWith hash = .ok data) :
    data.drop 4 = Abi.encode a.params := by
  obtain ⟨-, name, -, rfl⟩ := encodeWith_eq_ok_iff.mp h
  exact drop_dataOf _ _

/-- Calls that show the same types and have the same call data have the same parameters. -/
theorem params_eq_of_encodeWith (ha : Invariant types a) (hb : Invariant types' b)
    (short : (Abi.encode a.params).length < 2 ^ 64) (htypes : a.types = b.types)
    (hea : a.encodeWith hash = .ok data) (heb : b.encodeWith hash = .ok data) :
    a.params = b.params := by
  have hdata : Abi.encode a.params = Abi.encode b.params := by
    rw [← drop_of_encodeWith_ok hea, ← drop_of_encodeWith_ok heb]
  have hta := ha.types_eq (encodeWith_eq_ok_iff.mp hea).1
  have htb := hb.types_eq (encodeWith_eq_ok_iff.mp heb).1
  rw [hta, htb] at htypes
  exact encode_injective ha.wellTyped hb.wellTyped short htypes hdata

/-- **Encodings are read back.**  The reader takes from an encoding the values of the
parameters, with every read inside the buffer; so an encoding determines the parameters that
have its types, and call data determine the parameters of every call with given declared
types. -/
theorem encode_read_back :
    (∀ params : List Param, (∀ p ∈ params, p.IsBound) → (Abi.encode params).length < 2 ^ 64 →
      Reader.values? (params.map (·.type)) (Abi.encode params) = some (params.map (·.value))) ∧
    (∀ ps qs : List Param, (∀ p ∈ ps, p.IsBound) → (∀ q ∈ qs, q.IsBound) →
      (Abi.encode ps).length < 2 ^ 64 → ps.map (·.type) = qs.map (·.type) →
      Abi.encode ps = Abi.encode qs → ps = qs) ∧
    (∀ (origin origin' : Origin) (steps steps' : List Step) (data : Bytes),
      let a := origin.start.run steps
      let b := origin'.start.run steps'
      (Abi.encode a.params).length < 2 ^ 64 → a.declared = b.declared → a.declared ≠ [] →
      a.encode = .ok data → b.encode = .ok data → a.params = b.params) := by
  refine ⟨?_, ?_, ?_⟩
  · intro params hbound short
    exact values?_encode (fun p hp => Param.isBound_iff_wellTyped.mp (hbound p hp)) short
  · intro ps qs hps hqs short htypes h
    exact encode_injective (fun p hp => Param.isBound_iff_wellTyped.mp (hps p hp))
      (fun q hq => Param.isBound_iff_wellTyped.mp (hqs q hq)) short htypes h
  · intro origin origin' steps steps' data a b short hdeclared hne hea heb
    have htypes : a.types = b.types := by
      rw [types_of_declared hne, types_of_declared (hdeclared ▸ hne), hdeclared]
    exact params_eq_of_encodeWith ((Invariant.start origin).run steps)
      ((Invariant.start origin').run steps') short htypes hea heb

/-- The values of the sample call, given by an empty list and by the bytes of the number, with
a step that fails between them. -/
def looseSteps : List Step := [.addTexts [], .addText "seven", .addBytes [7]]

/-- The sample parameters are read back, and the sample call holds the same parameters either
way. -/
theorem encode_read_back_sample :
    Reader.values? (sampleParams.map (·.type)) (Abi.encode sampleParams) =
      some (sampleParams.map (·.value)) ∧
    ((Origin.signed sampleSignature).start.run sampleSteps).params =
      ((Origin.signed sampleSignature).start.run looseSteps).params := by
  obtain ⟨hread, -, hcalls⟩ := encode_read_back
  refine ⟨hread sampleParams sampleParams_bound sampleParams_short, ?_⟩
  have hcomplete : ¬ ((Origin.signed sampleSignature).start.run sampleSteps).Mismatched :=
    isComplete_iff.mp (by decide +kernel)
  have hloose : ¬ ((Origin.signed sampleSignature).start.run looseSteps).Mismatched :=
    isComplete_iff.mp (by decide +kernel)
  have hname : ((Origin.signed sampleSignature).start.run sampleSteps).name = some "store" := rfl
  have hname' : ((Origin.signed sampleSignature).start.run looseSteps).name = some "store" := rfl
  exact hcalls (.signed sampleSignature) (.signed sampleSignature) sampleSteps looseSteps _
    (by decide +kernel) rfl (by decide +kernel)
    (encodeWith_of_named hcomplete hname) (encodeWith_of_named hloose hname')

end CallData.Call
