/-
CallData/Proofs/Call/Agreement.lean

Calls with declared types and calls without them agree.

A builder without declared types reads the type of a parameter off its value; one with declared
types checks the value against the type at its position.  The parameters that either of them
holds are well typed, and a well-typed parameter is what its value gives both ways
(`Param.bind_value`).  So values can be carried over from one kind of builder to the other:
`addAll_values` adds the values of well-typed parameters to any builder that declares either
their types or no types at those positions.

Main results: the values that were given to a builder without declared types are taken by the
builder of the signature that it shows, and the values that a complete builder with declared
types holds are taken by one without.  Either way the two then hold the same parameters, show the
same signature and give the same call data (`signed_bare_agree`).
-/
import CallData.Proofs.Call.Outcome
import CallData.Proofs.Results

namespace CallData.Call

open Abi

variable {call next last : Call} {v : Value} {vs : List Value} {ps : List Param} {sig : Signature}
variable {name : String}

/-! ### Values one after the other -/

/-- The call after these values, each of which has to be accepted. -/
def addAll (call : Call) : List Value → Except CallError Call
  | [] => .ok call
  | v :: vs => do
    let next ← (add v).result call
    next.addAll vs

/-- The value that a step adds to a call, if it adds one. -/
def taken? (call : Call) (step : Step) : Option Value :=
  match step.apply.result call with
  | .ok _ => step.value?
  | .error _ => none

/-- The values that a run adds to a call, in order; those of failing steps are left out. -/
def taken (call : Call) : List Step → List Value
  | [] => []
  | step :: steps => (call.taken? step).toList ++ (call.advance step).taken steps

theorem taken?_setName : call.taken? (.setName name) = none := rfl

theorem taken?_of_bind_ok {step : Step} {p : Param} (hv : step.value? = some v)
    (h : Param.bind call.declared[call.params.length]? v = .ok p) : call.taken? step = some v := by
  rw [taken?, Step.apply_of_value? hv, Operation.result_of_ok (run_add_of_bind_ok h)]
  exact hv

theorem taken?_of_bind_error {step : Step} {reason : CallError} (hv : step.value? = some v)
    (h : Param.bind call.declared[call.params.length]? v = .error reason) :
    call.taken? step = none := by
  rw [taken?, Step.apply_of_value? hv, Operation.result_of_error (run_add_of_bind_error h)]

/-- A value is added by binding it at the next position. -/
theorem add_eq_ok_iff : (add v).result call = .ok next ↔
    ∃ p, Param.bind call.declared[call.params.length]? v = .ok p ∧ next = call.push p := by
  rcases hbind : Param.bind call.declared[call.params.length]? v with reason | p
  · rw [Operation.result_of_error (run_add_of_bind_error hbind)]
    simp
  · rw [Operation.result_of_ok (run_add_of_bind_ok hbind)]
    simp [eq_comm]

theorem addAll_cons_eq_ok_iff : call.addAll (v :: vs) = .ok last ↔
    ∃ next, (add v).result call = .ok next ∧ next.addAll vs = .ok last := bind_eq_ok_iff

/-- Adding values that are all accepted is a run, and the run takes every one of them. -/
theorem run_of_addAll (h : call.addAll vs = .ok last) :
    call.run (vs.map Step.add) = last ∧ call.taken (vs.map Step.add) = vs := by
  induction vs generalizing call with
  | nil =>
    obtain rfl : call = last := Except.ok.inj h
    exact ⟨rfl, rfl⟩
  | cons v vs ih =>
    obtain ⟨next, hadd, hrest⟩ := addAll_cons_eq_ok_iff.mp h
    obtain ⟨p, hbind, rfl⟩ := add_eq_ok_iff.mp hadd
    have hnext : call.advance (.add v) = call.push p :=
      Operation.after_of_ok (run_add_of_bind_ok hbind)
    have htaken : call.taken? (.add v) = some v := taken?_of_bind_ok rfl hbind
    obtain ⟨hrun, hvalues⟩ := ih hrest
    constructor
    · rw [List.map_cons, run_cons, hnext, hrun]
    · rw [List.map_cons, taken, htaken, hnext, hvalues]
      rfl

/-! ### Values read off the parameters -/

/-- Without declared types a step stores the value that it takes. -/
theorem map_value_advance (h : call.declared = []) (step : Step) :
    (call.advance step).params.map (·.value) =
      call.params.map (·.value) ++ (call.taken? step).toList := by
  rcases advance_cases call step with ⟨name, rfl, hnext⟩ | ⟨v, p, hv, hbind, hnext⟩ |
    ⟨v, reason, hv, hbind, hnext⟩
  · rw [hnext, taken?_setName]
    simp [setName]
  · -- the parameter is inferred from the value, which stays what it is
    rw [hnext, taken?_of_bind_ok hv hbind]
    rw [h] at hbind
    obtain ⟨rfl, -⟩ := Param.infer_eq_ok_iff.mp hbind
    simp [push]
  · rw [hnext, taken?_of_bind_error hv hbind]
    simp

theorem map_value_run (h : call.declared = []) (steps : List Step) :
    (call.run steps).params.map (·.value) = call.params.map (·.value) ++ call.taken steps := by
  induction steps generalizing call with
  | nil => simp [taken]
  | cons step steps ih =>
    have hdeclared : (call.advance step).declared = [] := by rw [advance_declared, h]
    rw [run_cons, ih hdeclared, map_value_advance h, taken, List.append_assoc]

/-! ### Values given again -/

/-- The types declared at the next positions, as far as there are any, are those of the
parameters. -/
def Admits (call : Call) (ps : List Param) : Prop :=
  ∀ (i : Nat) p ty, ps[i]? = some p → call.declared[call.params.length + i]? = some ty → p.type = ty

theorem admits_of_undeclared (h : call.declared = []) : call.Admits ps := by
  intro i p ty hp hty
  rw [h] at hty
  contradiction

theorem admits_ofSignature : (ofSignature ⟨name, ps.map (·.type)⟩).Admits ps := by
  intro i p ty hp hty
  have hmap : (ps.map (·.type))[0 + i]? = some ty := hty
  rw [Nat.zero_add, List.getElem?_map, hp] at hmap
  exact Option.some.inj hmap

/-- The values of well-typed parameters are taken where their types are declared, and where no
types are. -/
theorem addAll_values (hw : ∀ p ∈ ps, p.WellTyped) (h : call.Admits ps) :
    call.addAll (ps.map (·.value)) = .ok { call with params := call.params ++ ps } := by
  induction ps generalizing call with
  | nil => simp [addAll]
  | cons p ps ih =>
    have hbind : Param.bind call.declared[call.params.length]? p.value = .ok p :=
      Param.bind_value (hw p (by simp)) fun ty hty => h 0 p ty rfl hty
    -- behind the first parameter the declared types are those one position further on
    have hrest : (call.push p).Admits ps := by
      intro i q ty hq hty
      refine h (i + 1) q ty hq ?_
      rw [push, List.length_append, List.length_singleton] at hty
      rwa [Nat.add_right_comm, Nat.add_assoc] at hty
    refine addAll_cons_eq_ok_iff.mpr ⟨call.push p, add_eq_ok_iff.mpr ⟨p, hbind, rfl⟩, ?_⟩
    rw [ih (fun q hq => hw q (by simp [hq])) hrest]
    simp [push]

/-! ### Calls that declare the types they show -/

/-- The call with the types declared that its signature shows. -/
def declareTypes (call : Call) : Call := { call with declared := call.types }

theorem declareTypes_of_declared (h : call.declared ≠ []) : call.declareTypes = call := by
  rw [declareTypes, types_of_declared h]

theorem declareTypes_of_undeclared (h : call.declared = []) :
    call.declareTypes = ⟨call.name, call.params.map (·.type), call.params⟩ := by
  rw [declareTypes, types_of_undeclared h]

@[simp] theorem types_declareTypes (call : Call) : call.declareTypes.types = call.types := by
  by_cases h : call.declared = []
  · rw [declareTypes_of_undeclared h, types_of_undeclared h]
    exact ite_self _
  · rw [declareTypes_of_declared h]

@[simp] theorem signature_declareTypes (call : Call) :
    call.declareTypes.signature = call.signature := by
  rw [signature, signature, types_declareTypes]
  rfl

/-- A call that declares no types is complete as it is, and stays so when it declares those of its
parameters. -/
@[simp] theorem encodeWith_declareTypes (call : Call) (hash : Hasher) :
    call.declareTypes.encodeWith hash = call.encodeWith hash := by
  by_cases h : call.declared = []
  · have hcomplete : call.isComplete = true := isComplete_iff.mpr (not_mismatched_of_undeclared h)
    have hcomplete' : call.declareTypes.isComplete = true := by
      rw [declareTypes_of_undeclared h]
      simp [isComplete]
    rw [encodeWith, encodeWith, if_pos hcomplete, if_pos hcomplete', signature_declareTypes]
    rfl
  · rw [declareTypes_of_declared h]

theorem name_of_addAll (h : call.addAll vs = .ok last) : last.name = call.name := by
  induction vs generalizing call with
  | nil =>
    obtain rfl : call = last := Except.ok.inj h
    rfl
  | cons v vs ih =>
    obtain ⟨next, hadd, hrest⟩ := addAll_cons_eq_ok_iff.mp h
    obtain ⟨p, -, rfl⟩ := add_eq_ok_iff.mp hadd
    show last.name = (call.push p).name
    exact ih hrest

theorem declared_of_addAll (h : call.addAll vs = .ok last) : last.declared = call.declared := by
  rw [← (run_of_addAll h).1, run_declared]

/-- The values of well-typed parameters complete the call of a function that takes them. -/
theorem addAll_ofSignature (hw : ∀ p ∈ ps, p.WellTyped) :
    (ofSignature ⟨name, ps.map (·.type)⟩).addAll (ps.map (·.value)) =
      .ok ⟨some name, ps.map (·.type), ps⟩ :=
  addAll_values hw admits_ofSignature

/-- **A call is built again from the signature that it shows**, by the same values. -/
theorem addAll_signature (h : (ofSignature sig).addAll vs = .ok call) :
    (ofSignature ⟨sig.name, call.types⟩).addAll vs = .ok call.declareTypes := by
  have hname : call.name = some sig.name := name_of_addAll h
  obtain ⟨hrun, htaken⟩ := run_of_addAll h
  have hinv : Invariant sig.types call := by
    rw [← hrun]
    exact (Invariant.start (.signed sig)).run _
  by_cases hnil : call.declared = []
  · -- the values were taken as they stand, so they are those of the parameters
    have hvs : call.params.map (·.value) = vs := by
      have hnone : (ofSignature sig).declared = [] := hinv.declared_eq.symm.trans hnil
      have hvalues := map_value_run hnone (vs.map Step.add)
      rwa [hrun, htaken] at hvalues
    rw [types_of_undeclared hnil, ← hvs, addAll_ofSignature hinv.wellTyped,
      declareTypes_of_undeclared hnil, hname]
  · -- the signature shows the declared types, so it is the one the call was built from
    rw [types_of_declared hnil, hinv.declared_eq, declareTypes_of_declared hnil]
    exact h

/-! ### The agreement -/

/-- A call shows a signature under its name, with its types. -/
theorem signature_eq_ok_iff :
    call.signature = .ok sig ↔ call.name = some sig.name ∧ call.types = sig.types := by
  obtain ⟨name, types⟩ := sig
  rcases hname : call.name with _ | name'
  · simp [signature, hname]
  · rw [signature_of_named hname]
    simp

/-- The values that a builder without declared types has taken are taken by the builder of the
signature that it shows. -/
theorem addAll_taken {steps : List Step} (h : (Origin.bare.start.run steps).signature = .ok sig) :
    (ofSignature sig).addAll (Origin.bare.start.taken steps) =
      .ok (Origin.bare.start.run steps).declareTypes := by
  have hinv : Invariant [] (Origin.bare.start.run steps) := (Invariant.start .bare).run steps
  have hvalues :
      (Origin.bare.start.run steps).params.map (·.value) = Origin.bare.start.taken steps :=
    map_value_run rfl steps
  obtain ⟨name, types⟩ := sig
  obtain ⟨hname, htypes⟩ := signature_eq_ok_iff.mp h
  rw [types_of_undeclared hinv.declared_eq] at htypes
  subst htypes
  rw [← hvalues, declareTypes_of_undeclared hinv.declared_eq, hname]
  exact addAll_ofSignature hinv.wellTyped

/-- The values that a complete call holds are taken by a builder without declared types, which
then shows the same types. -/
theorem addAll_held {types : List ParamType} (hinv : Invariant types call)
    (hcomplete : ¬ call.Mismatched) :
    (empty.setName name).addAll (call.params.map (·.value)) = .ok ⟨some name, [], call.params⟩ ∧
      (⟨some name, [], call.params⟩ : Call).types = call.types := by
  constructor
  · exact addAll_values hinv.wellTyped (admits_of_undeclared rfl)
  · -- what a complete call declares are the types that its parameters have by themselves
    exact (hinv.types_eq hcomplete).symm

/-- **Builders with and without declared types agree.**  The values that a builder without
declared types has taken are all taken by the builder of the signature that it shows; the values
that a builder with declared types holds, once it can be encoded, are all taken by a builder
without.  The two then have the same parameters, signature and call data. -/
theorem signed_bare_agree :
    (∀ (steps : List Step) (sig : Signature),
      let bare := Origin.bare.start.run steps
      bare.signature = .ok sig →
      ∃ signed, (Origin.signed sig).start.addAll (Origin.bare.start.taken steps) = .ok signed ∧
        signed.params = bare.params ∧ signed.signature = bare.signature ∧
        ∀ hash, ∃ data, bare.encodeWith hash = .ok data ∧ signed.encodeWith hash = .ok data) ∧
    (∀ (sig : Signature) (steps : List Step) (hash : Hasher) (data : Bytes),
      let signed := (Origin.signed sig).start.run steps
      signed.encodeWith hash = .ok data →
      ∃ name bare, signed.name = some name ∧
        (empty.setName name).addAll (signed.params.map (·.value)) = .ok bare ∧
        bare.params = signed.params ∧ bare.signature = signed.signature ∧
        ∀ hash', bare.encodeWith hash' = signed.encodeWith hash') := by
  constructor
  · intro steps sig bare hsig
    have hundeclared : bare.declared = [] := ((Invariant.start .bare).run steps).declared_eq
    refine ⟨bare.declareTypes, addAll_taken hsig, rfl, signature_declareTypes bare, ?_⟩
    intro hash
    have hdata : bare.encodeWith hash = .ok _ :=
      encodeWith_of_named (not_mismatched_of_undeclared hundeclared)
        (signature_eq_ok_iff.mp hsig).1
    rw [encodeWith_declareTypes]
    exact ⟨_, hdata, hdata⟩
  · intro sig steps hash data signed hdata
    have hinv : Invariant sig.types signed := (Invariant.start (.signed sig)).run steps
    obtain ⟨hcomplete, name, hname, -⟩ := encodeWith_eq_ok_iff.mp hdata
    obtain ⟨hadd, htypes⟩ := addAll_held hinv hcomplete
    refine ⟨name, ⟨some name, [], signed.params⟩, hname, hadd, rfl, ?_, ?_⟩
    · rw [signature_of_named rfl, signature_of_named hname, htypes]
    · intro hash'
      rw [encodeWith_of_named (not_mismatched_of_undeclared rfl) rfl,
        encodeWith_of_named hcomplete hname, htypes]

/-- A run without declared types, where the function gets its name late and a number too wide for
its width is refused. -/
def lateSteps : List Step :=
  [.addTexts [], .add (.uint .w32 (BitVec.ofNat 256 (2 ^ 32))), .setName "store", .addUInt32 7]

/-- The values of the late run are taken under declared types; what the sample call holds is taken
without. -/
theorem signed_bare_agree_sample :
    (∃ signed, (Origin.signed ⟨"store", [.array .string, .uint .w32]⟩).start.addAll
        [.texts [], .ofUInt32 7] = .ok signed ∧
      signed.params = (Origin.bare.start.run lateSteps).params) ∧
    (∃ bare, (empty.setName "store").addAll [.bytes [], .uint .w32 7] = .ok bare ∧
      bare.params = ((Origin.signed sampleSignature).start.run sampleSteps).params) := by
  obtain ⟨hsigned, hbare⟩ := signed_bare_agree
  constructor
  · have hstore : (Origin.bare.start.run lateSteps).name = some "store" := rfl
    have htypes : (Origin.bare.start.run lateSteps).types = [.array .string, .uint .w32] := by
      decide +kernel
    have hshown := signature_of_named hstore
    rw [htypes] at hshown
    obtain ⟨signed, hadd, hparams, -⟩ := hsigned lateSteps _ hshown
    have htaken : Origin.bare.start.taken lateSteps = [.texts [], .ofUInt32 7] := by decide +kernel
    rw [htaken] at hadd
    exact ⟨signed, hadd, hparams⟩
  · have hcomplete : ¬ ((Origin.signed sampleSignature).start.run sampleSteps).Mismatched :=
      isComplete_iff.mp (by decide +kernel)
    have hstore : ((Origin.signed sampleSignature).start.run sampleSteps).name = some "store" := rfl
    obtain ⟨name, bare, hname, hadd, hparams, -⟩ :=
      hbare sampleSignature sampleSteps Keccak.hash _ (encodeWith_of_named hcomplete hstore)
    obtain rfl : "store" = name := Option.some.inj (hstore.symm.trans hname)
    have hvalues : ((Origin.signed sampleSignature).start.run sampleSteps).params.map (·.value) =
        [.bytes [], .uint .w32 7] := by decide +kernel
    rw [hvalues] at hadd
    exact ⟨bare, hadd, hparams⟩

end CallData.Call
