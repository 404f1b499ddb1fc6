/-
CallData/Proofs/Call/Outcome.lean

What encoding a call gives, at every point of a run.

Encoding a call fails when the declared types and the parameters differ in number, and when
the function has no name; the two never meet, since a call with declared types has a name.
Otherwise the call data begin with the selector of the text `name(type1,type2)` that shows
the types of the very parameters encoded behind it.  For a call with declared types these are
the declared ones, by the invariant of `CallData/Proofs/Call/Run.lean`.

A call that has more parameters than declared types is stuck: no step takes one away.
-/
import CallData.Proofs.Call.Run
import CallData.Proofs.Signature.Building

namespace CallData

open Abi

namespace Call

/-- The signature text of a function that takes exactly these parameters. -/
def signatureText (name : String) (params : List Param) : String :=
  CallData.signatureText name (params.map fun p => p.type.name)

variable {call : Call} {types : List ParamType} {hash : Hasher} {name : String}

/-! ### Call data -/

/-- In front stand the four bytes of the selector. -/
theorem take_dataOf (selector : Selector) (params : List Param) :
    (dataOf selector params).take 4 = selector.bytes := by
  rw [dataOf, ← selector.length_bytes, List.take_left]

/-- Behind them stand the encoded parameters. -/
theorem drop_dataOf (selector : Selector) (params : List Param) :
    (dataOf selector params).drop 4 = Abi.encode params := by
  rw [dataOf, ← selector.length_bytes, List.drop_left]

theorem length_dataOf (selector : Selector) (params : List Param) :
    (dataOf selector params).length = 4 + (Abi.encode params).length := by
  rw [dataOf, List.length_append, selector.length_bytes]

/-! ### The types that are shown -/

theorem types_of_declared (h : call.declared ≠ []) : call.types = call.declared := by
  rw [Call.types, if_neg (by simpa using h)]

theorem types_of_undeclared (h : call.declared = []) : call.types = call.params.map (·.type) := by
  rw [Call.types, h]
  rfl

/-! ### The three outcomes -/

/-- Types are declared, but not as many as there are parameters. -/
def Mismatched (call : Call) : Prop :=
  call.declared ≠ [] ∧ call.declared.length ≠ call.params.length

theorem not_mismatched_of_undeclared (h : call.declared = []) : ¬ call.Mismatched := by
  rintro ⟨hne, -⟩
  exact hne h

theorem isComplete_iff : call.isComplete = true ↔ ¬ call.Mismatched := by
  simp only [isComplete, Mismatched, Bool.or_eq_true, List.isEmpty_iff, beq_iff_eq]
  grind

theorem encodeWith_of_mismatched (h : call.Mismatched) :
    call.encodeWith hash = .error (.countMismatch call.declared.length call.params.length) := by
  have hcomplete : ¬ call.isComplete = true := fun hc => isComplete_iff.mp hc h
  rw [encodeWith, if_neg hcomplete]

theorem encodeWith_of_unnamed (h : ¬ call.Mismatched) (hname : call.name = none) :
    call.encodeWith hash = .error .missingName := by
  rw [encodeWith, if_pos (isComplete_iff.mpr h), signature, hname]
  rfl

theorem signature_of_named (hname : call.name = some name) :
    call.signature = .ok ⟨name, call.types⟩ := by
  rw [signature, hname]

theorem encodeWith_of_named (h : ¬ call.Mismatched) (hname : call.name = some name) :
    call.encodeWith hash =
      .ok (dataOf ((⟨name, call.types⟩ : Signature).selectorWith hash) call.params) := by
  rw [encodeWith, if_pos (isComplete_iff.mpr h), signature_of_named hname]
  rfl

/-- There are two ways to fail, and the number of parameters is looked at first. -/
theorem encodeWith_eq_error_iff {e : CallError} :
    call.encodeWith hash = .error e ↔
      (call.Mismatched ∧ e = .countMismatch call.declared.length call.params.length) ∨
      (¬ call.Mismatched ∧ call.name = none ∧ e = .missingName) := by
  by_cases hm : call.Mismatched
  · rw [encodeWith_of_mismatched hm]
    simp [hm, eq_comm]
  · rcases hname : call.name with _ | name
    · rw [encodeWith_of_unnamed hm hname]
      simp [hm, eq_comm]
    · rw [encodeWith_of_named hm hname]
      simp [hm]

theorem encodeWith_eq_ok_iff {data : Bytes} :
    call.encodeWith hash = .ok data ↔
      ¬ call.Mismatched ∧ ∃ name, call.name = some name ∧
        data = dataOf ((⟨name, call.types⟩ : Signature).selectorWith hash) call.params := by
  by_cases hm : call.Mismatched
  · rw [encodeWith_of_mismatched hm]
    simp [hm]
  · rcases hname : call.name with _ | name
    · rw [encodeWith_of_unnamed hm hname]
      simp
    · rw [encodeWith_of_named hm hname]
      simp [hm, eq_comm]

/-! ### Along a run -/

/-- No name is ever given to the function, neither at the beginning nor by a step. -/
def NeverNamed (origin : Origin) (steps : List Step) : Prop :=
  origin = .bare ∧ ∀ name, Step.setName name ∉ steps

theorem run_start_name_eq_none_iff {origin : Origin} {steps : List Step} :
    (origin.start.run steps).name = none ↔ NeverNamed origin steps := by
  rw [run_name_eq_none_iff, NeverNamed]
  cases origin <;> simp [Origin.start, empty, ofSignature]

/-- A call without a name has no declared types to be short of. -/
theorem Invariant.not_mismatched (h : Invariant types call) (hname : call.name = none) :
    ¬ call.Mismatched := by
  rintro ⟨hdeclared, -⟩
  have hnamed := h.named hdeclared
  rw [hname] at hnamed
  contradiction

/-- The signature shows the types of the parameters that are encoded. -/
theorem Invariant.types_eq (h : Invariant types call) (hm : ¬ call.Mismatched) :
    call.types = call.params.map (·.type) := by
  by_cases hnil : call.declared = []
  · exact types_of_undeclared hnil
  -- with as many declared types as parameters, each parameter was bound to the one it has
  · have hlen : call.declared.length = call.params.length :=
      Decidable.byContradiction fun hne => hm ⟨hnil, hne⟩
    rw [types_of_declared hnil]
    apply List.ext_getElem (by simpa using hlen)
    intro i hi hi'
    have hp : i < call.params.length := by simpa using hi'
    rw [List.getElem_map]
    exact (h.type_eq i _ _ (List.getElem?_eq_getElem hp) (List.getElem?_eq_getElem hi)).symm

/-- A call with more parameters than declared types stays mismatched. -/
theorem mismatched_run (hdeclared : call.declared ≠ [])
    (hlt : call.declared.length < call.params.length) (steps : List Step) :
    (call.run steps).Mismatched := by
  have hle := (params_prefix_run call steps).length_le
  rw [Mismatched, run_declared]
  exact ⟨hdeclared, by omega⟩

/-! ### The outcome -/

/-- **What encoding gives.** -/
theorem encodeWith_outcome (origin : Origin) (steps : List Step) (hash : Hasher) :
    let call := origin.start.run steps
    (call.encodeWith hash = .error (.countMismatch call.declared.length call.params.length) ↔
      call.Mismatched) ∧
    (call.encodeWith hash = .error .missingName ↔ NeverNamed origin steps) ∧
    ¬ (call.Mismatched ∧ NeverNamed origin steps) ∧
    (∀ e, call.encodeWith hash = .error e →
      e = .countMismatch call.declared.length call.params.length ∨ e = .missingName) ∧
    (¬ call.Mismatched → ¬ NeverNamed origin steps →
      ∃ name, call.name = some name ∧
        call.encodeWith hash =
          .ok ((hash (Text.utf8 (signatureText name call.params))).bytes.take 4 ++
            Abi.encode call.params) ∧
        call.signature.map Signature.render = .ok (signatureText name call.params)) ∧
    (call.declared ≠ [] → call.declared.length < call.params.length →
      ∀ more hash' data, (call.run more).encodeWith hash' ≠ .ok data) := by
  intro call
  have hinv : Invariant origin.types call := (Invariant.start origin).run steps
  have hname : call.name = none ↔ NeverNamed origin steps := run_start_name_eq_none_iff
  refine ⟨?_, ?_, ?_, ?_, ?_, ?_⟩
  · rw [encodeWith_eq_error_iff]
    simp
  -- the count is looked at first, but it never hides a missing name
  · rw [encodeWith_eq_error_iff, ← hname]
    simp only [reduceCtorEq, and_false, false_or, and_true, and_iff_right_iff_imp]
    exact hinv.not_mismatched
  · rintro ⟨hm, hnever⟩
    exact hinv.not_mismatched (hname.mpr hnever) hm
  · intro e he
    rcases encodeWith_eq_error_iff.mp he with ⟨-, rfl⟩ | ⟨-, -, rfl⟩
    · exact .inl rfl
    · exact .inr rfl
  -- the text is hashed with the types that the signature shows, which are those encoded
  · intro hm hnamed
    obtain ⟨name, hsome⟩ := Option.ne_none_iff_exists'.mp (mt hname.mp hnamed)
    have htext : (⟨name, call.types⟩ : Signature).render = signatureText name call.params := by
      rw [Signature.render_eq, hinv.types_eq hm, List.map_map]
      rfl
    refine ⟨name, hsome, ?_, ?_⟩
    · rw [encodeWith_of_named hm hsome, dataOf, Signature.selectorWith, htext]
      rfl
    · rw [signature_of_named hsome]
      exact congrArg _ htext
  · intro hdeclared hlt more hash' data hok
    exact (encodeWith_eq_ok_iff.mp hok).1 (mismatched_run hdeclared hlt more)

/-- A function of a byte string and a number. -/
def sampleSignature : Signature := ⟨"store", [.bytes, .uint .w32]⟩

/-- A run that gives both values. -/
def sampleSteps : List Step := [.addBytes [], .addUInt32 7]

/-- The sample call is encoded; with a third value it never is again. -/
theorem encodeWith_outcome_sample :
    let call := (Origin.signed sampleSignature).start.run sampleSteps
    let long := (Origin.signed sampleSignature).start.run (sampleSteps ++ [.addUInt32 8])
    call.encodeWith Keccak.hash =
      .ok ((Keccak.hash (Text.utf8 "store(bytes,uint32)")).bytes.take 4 ++
        Abi.encode call.params) ∧
    ∀ more data, (long.run more).encodeWith Keccak.hash ≠ .ok data := by
  intro call long
  obtain ⟨-, -, -, -, hdata, -⟩ :=
    encodeWith_outcome (.signed sampleSignature) sampleSteps Keccak.hash
  obtain ⟨-, -, -, -, -, hstuck⟩ :=
    encodeWith_outcome (.signed sampleSignature) (sampleSteps ++ [.addUInt32 8]) Keccak.hash
  constructor
  · have hm : ¬ call.Mismatched := isComplete_iff.mp (by decide +kernel)
    have hnamed : ¬ NeverNamed (.signed sampleSignature) sampleSteps := by
      rintro ⟨hbare, -⟩
      contradiction
    obtain ⟨name, hname, hok, -⟩ := hdata hm hnamed
    have hstore : call.name = some "store" := rfl
    obtain rfl : "store" = name := Option.some.inj (hstore.symm.trans hname)
    have htext : signatureText "store" call.params = "store(bytes,uint32)" := by decide +kernel
    rwa [htext] at hok
  · intro more data
    exact hstuck (by decide +kernel) (by decide +kernel) more Keccak.hash data

end Call

end CallData
