/-
CallData/Proofs/Call/Run.lean

Calls along whole runs of a builder.

`Call.advance_cases` says once what a step can do: it names the function, or binds its value
and adds the parameter, or fails and leaves the call alone.  Everything that is kept along a
run is first shown to be kept by these three.

Main result: `Call.Invariant` holds at every point of every run (`run_invariant`).  The first
parameters have the declared types, those past the declared types have the types that they
infer, all of them are well typed, and a call with declared types has a name.
-/
import CallData.Call.Step
import CallData.Proofs.Abi.Binding

namespace CallData.Call

open Abi

variable {call : Call} {v : Value} {p : Param}

/-! ### Steps -/

/-- The parameters of an extended call are the old ones and the new one behind them. -/
theorem getElem?_push {i : Nat} {q : Param} (h : (call.push p).params[i]? = some q) :
    call.params[i]? = some q ∨ i = call.params.length ∧ q = p := by
  rcases Nat.lt_or_ge i call.params.length with hi | hi
  · rw [push, List.getElem?_append_left hi] at h
    exact .inl h
  · rw [push, List.getElem?_append_right hi, List.getElem?_singleton] at h
    split at h
    · exact .inr ⟨by omega, (Option.some.inj h).symm⟩
    · contradiction

theorem run_add_of_bind_ok (h : Param.bind call.declared[call.params.length]? v = .ok p) :
    (add v).run call = .ok () (call.push p) := by
  simp [add, h]

/-- A value that cannot be bound is refused before anything has changed. -/
theorem run_add_of_bind_error {reason : CallError}
    (h : Param.bind call.declared[call.params.length]? v = .error reason) :
    (add v).run call = .error reason call := by
  simp [add, h]

theorem leavesAlone_add (v : Value) : (add v).LeavesAlone := by
  intro call reason rest h
  rcases hbind : Param.bind call.declared[call.params.length]? v with reason' | p
  · rw [run_add_of_bind_error hbind] at h
    exact (EStateM.Result.error.inj h).2.symm
  · rw [run_add_of_bind_ok hbind] at h
    contradiction

theorem Step.apply_of_value? {step : Step} (h : step.value? = some v) :
    step.apply = Call.add v := by
  cases step with
  | setName name => simp [value?] at h
  | add value | addUInt32 number | addUInt64 number | addWord number | addBytes data
  | addText content | addTexts items | addBlobs items =>
    obtain rfl := Option.some.inj h
    rfl

/-- A step that fails leaves the call as it was. -/
theorem Step.leavesAlone_apply (step : Step) : step.apply.LeavesAlone := by
  rcases hvalue : step.value? with _ | v
  · cases step with
    | setName name =>
      intro call reason rest h
      contradiction
    | _ => simp [value?] at hvalue
  · rw [apply_of_value? hvalue]
    exact leavesAlone_add v

/-- What a step does to a call. -/
theorem advance_cases (call : Call) (step : Step) :
    (∃ name, step = .setName name ∧ call.advance step = call.setName name) ∨
    (∃ v p, step.value? = some v ∧ Param.bind call.declared[call.params.length]? v = .ok p ∧
      call.advance step = call.push p) ∨
    (∃ v reason, step.value? = some v ∧
      Param.bind call.declared[call.params.length]? v = .error reason ∧
      call.advance step = call) := by
  rcases hvalue : step.value? with _ | v
  · -- only naming the function adds no value
    cases step with
    | setName name => exact .inl ⟨name, rfl, rfl⟩
    | _ => simp [Step.value?] at hvalue
  · rw [advance, Step.apply_of_value? hvalue]
    rcases hbind : Param.bind call.declared[call.params.length]? v with reason | p
    · exact .inr (.inr ⟨v, reason, rfl, hbind,
        Operation.after_of_error (run_add_of_bind_error hbind)⟩)
    · exact .inr (.inl ⟨v, p, rfl, hbind, Operation.after_of_ok (run_add_of_bind_ok hbind)⟩)

@[simp] theorem run_nil (call : Call) : call.run [] = call := rfl

@[simp] theorem run_cons (call : Call) (step : Step) (steps : List Step) :
    call.run (step :: steps) = (call.advance step).run steps := rfl

/-! ### What every run keeps -/

@[simp] theorem advance_declared (call : Call) (step : Step) :
    (call.advance step).declared = call.declared := by
  rcases advance_cases call step with ⟨name, -, h⟩ | ⟨v, p, -, -, h⟩ | ⟨v, _, -, -, h⟩
  · rw [h, setName]
  · rw [h, push]
  · rw [h]

@[simp] theorem run_declared (call : Call) (steps : List Step) :
    (call.run steps).declared = call.declared := by
  induction steps generalizing call with
  | nil => rfl
  | cons step steps ih => rw [run_cons, ih, advance_declared]

/-- No step takes a parameter away or changes one. -/
theorem params_prefix_advance (call : Call) (step : Step) :
    call.params <+: (call.advance step).params := by
  rcases advance_cases call step with ⟨name, -, h⟩ | ⟨v, p, -, -, h⟩ | ⟨v, _, -, -, h⟩
  · exact ⟨[], by simp [h, setName]⟩
  · exact ⟨[p], by rw [h, push]⟩
  · exact ⟨[], by simp [h]⟩

theorem params_prefix_run (call : Call) (steps : List Step) :
    call.params <+: (call.run steps).params := by
  induction steps generalizing call with
  | nil => exact List.prefix_refl _
  | cons step steps ih => exact (params_prefix_advance call step).trans (ih _)

theorem advance_name_eq_none_iff {step : Step} :
    (call.advance step).name = none ↔ call.name = none ∧ ∀ name, step ≠ .setName name := by
  rcases advance_cases call step with ⟨name, hstep, h⟩ | ⟨v, p, hv, -, h⟩ | ⟨v, _, hv, -, h⟩
  · rw [h, hstep]
    simp [setName]
  -- the other two steps add a value, and naming the function is not one of those
  all_goals
    have hne : ∀ name, step ≠ .setName name := by
      rintro name rfl
      simp [Step.value?] at hv
    rw [h]
    simp [push, hne]

/-- A call has no name as long as it was begun without one and none was set. -/
theorem run_name_eq_none_iff {steps : List Step} :
    (call.run steps).name = none ↔ call.name = none ∧ ∀ name, Step.setName name ∉ steps := by
  induction steps generalizing call with
  | nil => simp
  | cons step steps ih =>
    rw [run_cons, ih, advance_name_eq_none_iff]
    simp only [List.mem_cons, not_or, eq_comm, ne_eq, forall_and, and_assoc]

/-! ### Beginnings -/

/-- How a call is begun. -/
inductive Origin where
  | bare
  | signed (sig : Signature)

namespace Origin

def start : Origin → Call
  | bare => empty
  | signed sig => ofSignature sig

def types : Origin → List ParamType
  | bare => []
  | signed sig => sig.types

end Origin

/-! ### The invariant -/

variable {types : List ParamType}

/-- What holds of a call that was begun with `types`, at every point of a run. -/
structure Invariant (types : List ParamType) (call : Call) : Prop where
  declared_eq : call.declared = types
  wellTyped : ∀ p ∈ call.params, p.WellTyped
  type_eq : ∀ (i : Nat) p ty, call.params[i]? = some p → call.declared[i]? = some ty → p.type = ty
  type_inferred : ∀ (i : Nat) p, call.params[i]? = some p → call.declared.length ≤ i →
    p.value.inferType = .ok p.type
  named : call.declared ≠ [] → call.name.isSome = true

namespace Invariant

theorem start (origin : Origin) : Invariant origin.types origin.start := by
  cases origin <;> constructor <;> simp [Origin.start, Origin.types, empty, ofSignature]

theorem setName (h : Invariant types call) (name : String) : Invariant types (call.setName name) :=
  { h with named := fun _ => rfl }

/-- Binding a value at the next position keeps the invariant. -/
theorem push (h : Invariant types call)
    (hbind : Param.bind call.declared[call.params.length]? v = .ok p) :
    Invariant types (call.push p) where
  declared_eq := h.declared_eq
  wellTyped := by
    intro q hq
    rcases List.mem_append.mp hq with hq | hq
    · exact h.wellTyped q hq
    · obtain rfl := List.mem_singleton.mp hq
      exact Param.wellTyped_of_bind hbind
  type_eq := by
    intro i q ty hq hty
    rcases getElem?_push hq with hold | ⟨rfl, rfl⟩
    · exact h.type_eq i q ty hold hty
    · -- the new parameter was resolved against the type declared at its position
      have hdeclared : call.declared[call.params.length]? = some ty := hty
      rw [hdeclared] at hbind
      exact (Param.resolve_eq_ok_iff.mp hbind).1
  type_inferred := by
    intro i q hq hi
    rcases getElem?_push hq with hold | ⟨-, rfl⟩
    · exact h.type_inferred i q hold hi
    · -- a well-typed value infers its type, so it does not matter how it was bound
      exact Value.inferType_eq_ok_iff.mpr (Param.wellTyped_of_bind hbind)
  named := h.named

theorem advance (h : Invariant types call) (step : Step) : Invariant types (call.advance step) := by
  rcases advance_cases call step with ⟨name, -, hnext⟩ | ⟨v, p, -, hbind, hnext⟩ |
    ⟨v, _, -, -, hnext⟩
  · rw [hnext]
    exact h.setName name
  · rw [hnext]
    exact h.push hbind
  · rw [hnext]
    exact h

theorem run (h : Invariant types call) (steps : List Step) : Invariant types (call.run steps) := by
  induction steps generalizing call with
  | nil => exact h
  | cons step steps ih => exact ih (h.advance step)

end Invariant

/-- **The invariant holds at every point of every run.** -/
theorem run_invariant (origin : Origin) (steps : List Step) :
    Invariant origin.types (origin.start.run steps) :=
  (Invariant.start origin).run steps

end CallData.Call
