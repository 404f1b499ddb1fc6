/-
CallData/Proofs/Call/Erasure.lean

What a run of a call builder depends on.

A step that fails leaves the call as it was (`Step.leavesAlone_apply`), so the failed steps of a run
can be erased (`CallData/Proofs/Attempts.lean`).  Steps that name the function touch the name and
nothing else, and steps that add a value never look at it.  So it does not matter where such
steps stand among the others, and the name is the last one that was given.  What the other steps
come to depends on their values alone: each is bound to the type declared at its position, which
counts the values that were accepted before it.

Main result: `run_determined`.
-/
import CallData.Proofs.Attempts
import CallData.Proofs.Call.Agreement
import CallData.Proofs.Signature.Building

namespace CallData.Call

open Abi Attempts

variable {call : Call} {steps steps' : List Step} {step : Step} {v : Value} {name : String}

/-! ### Runs as attempts -/

@[simp] theorem attempts_advance : Attempts.advance Step.apply call step = call.advance step := rfl

@[simp] theorem attempts_run : Attempts.run Step.apply call steps = call.run steps := rfl

/-- The failed steps of a run have no part in how it ends. -/
theorem run_kept (call : Call) (steps : List Step) :
    call.run (kept Step.apply call steps) = call.run steps := by
  rw [← attempts_run, ← attempts_run]
  exact (erasable Step.leavesAlone_apply call steps).run_kept

/-! ### Values and names -/

/-- The values that are given in a run, accepted or not. -/
def given (steps : List Step) : List Value := steps.filterMap Step.value?

/-- The name that a step gives. -/
def Step.name? : Step → Option String
  | setName name => some name
  | _ => none

/-- The name that is given last in a run. -/
def lastName? (steps : List Step) : Option String := (steps.filterMap Step.name?).getLast?

/-- The values that are given in a run, each with the reason if it is refused. -/
def replies (call : Call) (steps : List Step) : List (Value × Option CallError) :=
  (journal Step.apply call steps).filterMap fun entry =>
    entry.operation.value?.map fun v => (v, entry.error?)

theorem Step.name?_of_value? (h : step.value? = some v) : step.name? = none := by
  cases step with
  | setName name => cases h
  | _ => rfl

/-- A step either names the function or adds a value. -/
theorem Step.setName_or_value? (step : Step) :
    (∃ name, step = .setName name) ∨ ∃ v, step.value? = some v := by
  cases step with
  | setName name => exact .inl ⟨name, rfl⟩
  | _ => exact .inr ⟨_, rfl⟩

theorem replies_cons_setName : call.replies (.setName name :: steps) =
    (call.setName name).replies steps := rfl

theorem replies_cons_of_value? (h : step.value? = some v) :
    call.replies (step :: steps) =
      (v, (Entry.mk call step ((add v).run call)).error?) :: (call.advance step).replies steps := by
  rw [replies, journal, Step.apply_of_value? h, attempts_advance, List.filterMap_cons, h]
  rfl

/-! ### Naming the function -/

theorem advance_of_value? (h : step.value? = some v) :
    call.advance step = (add v).after call := by
  rw [advance, Step.apply_of_value? h]

/-- A value is added or refused whatever the name of the function. -/
theorem run_add_setName : (add v).run (call.setName name) =
    match (add v).run call with
    | .ok _ next => .ok () (next.setName name)
    | .error reason rest => .error reason (rest.setName name) := by
  rcases hbind : Param.bind call.declared[call.params.length]? v with reason | p
  · rw [run_add_of_bind_error hbind]
    exact run_add_of_bind_error hbind
  · rw [run_add_of_bind_ok hbind]
    exact run_add_of_bind_ok hbind

theorem advance_setName_of_value? (h : step.value? = some v) :
    (call.setName name).advance step = (call.advance step).setName name := by
  rw [advance_of_value? h, advance_of_value? h, Operation.after, Operation.after, run_add_setName]
  cases (add v).run call <;> rfl

theorem error?_setName :
    (Entry.mk (call.setName name) step ((add v).run (call.setName name))).error? =
      (Entry.mk call step ((add v).run call)).error? := by
  rw [run_add_setName]
  cases (add v).run call <;> rfl

/-- The name that a call begins with has no part in what the values come to. -/
theorem replies_setName : (call.setName name).replies steps = call.replies steps := by
  induction steps generalizing call with
  | nil => rfl
  | cons step steps ih =>
    rcases step.setName_or_value? with ⟨later, rfl⟩ | ⟨v, hv⟩
    · rfl
    · rw [replies_cons_of_value? hv, replies_cons_of_value? hv, error?_setName,
        advance_setName_of_value? hv, ih]

theorem params_run_setName : ((call.setName name).run steps).params = (call.run steps).params := by
  induction steps generalizing call with
  | nil => rfl
  | cons step steps ih =>
    rcases step.setName_or_value? with ⟨later, rfl⟩ | ⟨v, hv⟩
    · rfl
    · rw [run_cons, run_cons, advance_setName_of_value? hv, ih]

/-! ### The given values by themselves -/

theorem given_cons_setName : given (.setName name :: steps) = given steps := rfl

theorem given_cons_of_value? (h : step.value? = some v) :
    given (step :: steps) = v :: given steps :=
  List.filterMap_cons_some h

/-- The values come to the same without the steps that name the function. -/
theorem replies_given : call.replies steps = call.replies ((given steps).map .add) := by
  induction steps generalizing call with
  | nil => rfl
  | cons step steps ih =>
    rcases step.setName_or_value? with ⟨name, rfl⟩ | ⟨v, hv⟩
    · rw [replies_cons_setName, replies_setName, given_cons_setName, ih]
    · rw [given_cons_of_value? hv, List.map_cons, replies_cons_of_value? hv,
        replies_cons_of_value? rfl, advance_of_value? hv, ih]
      rfl

theorem params_run_given :
    (call.run steps).params = (call.run ((given steps).map .add)).params := by
  induction steps generalizing call with
  | nil => rfl
  | cons step steps ih =>
    rcases step.setName_or_value? with ⟨name, rfl⟩ | ⟨v, hv⟩
    · rw [given_cons_setName, ← ih]
      exact params_run_setName
    · rw [given_cons_of_value? hv, List.map_cons, run_cons, run_cons, advance_of_value? hv, ih]
      rfl

/-- A call has the name that was given last, or else the one that it began with. -/
theorem name_run : (call.run steps).name = (lastName? steps).or call.name := by
  induction steps generalizing call with
  | nil => rfl
  | cons step steps ih =>
    rcases step.setName_or_value? with ⟨name, rfl⟩ | ⟨v, hv⟩
    · have hlast : lastName? (.setName name :: steps) = some ((lastName? steps).getD name) :=
        List.getLast?_cons
      have hfirst : (call.advance (.setName name)).name = some name := rfl
      rw [run_cons, ih, hlast, hfirst]
      cases lastName? steps <;> rfl
    · have hlast : lastName? (step :: steps) = lastName? steps := by
        rw [lastName?, List.filterMap_cons_none (Step.name?_of_value? hv), lastName?]
      have hname : (call.advance step).name = call.name := by
        rcases advance_cases call step with ⟨name, rfl, -⟩ | ⟨_, _, -, -, h⟩ | ⟨_, _, -, -, h⟩
        · cases hv
        · rw [h, push]
        · rw [h]
      rw [run_cons, ih, hlast, hname]

/-- Calls that have been given the same values, and last the same name if any, are the same. -/
theorem run_eq_of_given (hgiven : given steps' = given steps)
    (hname : lastName? steps' = lastName? steps) : call.run steps' = call.run steps := by
  have hnames : (call.run steps').name = (call.run steps).name := by
    rw [name_run, name_run, hname]
  have hdeclared : (call.run steps').declared = (call.run steps).declared := by
    rw [run_declared, run_declared]
  have hparams : (call.run steps').params = (call.run steps).params := by
    rw [params_run_given, hgiven, ← params_run_given]
  rcases heq : call.run steps with ⟨name, declared, params⟩
  rcases heq' : call.run steps' with ⟨name', declared', params'⟩
  rw [heq, heq'] at hnames hdeclared hparams
  rw [Call.mk.injEq]
  exact ⟨hnames, hdeclared, hparams⟩

/-! ### Positions -/

/-- The values that a run accepts are bound one after the other, each at its own position. -/
theorem exists_params_run (call : Call) (steps : List Step) :
    ∃ ps, (call.run steps).params = call.params ++ ps ∧
      (call.taken steps).mapIdx (fun k v => Param.bind call.declared[call.params.length + k]? v) =
        ps.map .ok := by
  induction steps generalizing call with
  | nil => exact ⟨[], by simp [taken]⟩
  | cons step steps ih =>
    obtain ⟨ps, hparams, hbound⟩ := ih (call.advance step)
    rw [run_cons, taken]
    rcases advance_cases call step with ⟨name, rfl, hnext⟩ | ⟨v, p, hv, hbind, hnext⟩ |
      ⟨v, reason, hv, hbind, hnext⟩
    · exact ⟨ps, hparams, hbound⟩
    · rw [hnext] at hparams hbound ⊢
      -- the positions of the later values start one further on
      have hlen : ∀ k, (call.push p).params.length + k = call.params.length + (k + 1) := by
        intro k
        rw [push, List.length_append, List.length_singleton, Nat.add_assoc, Nat.add_comm 1 k]
      simp only [hlen] at hbound
      refine ⟨p :: ps, by rw [hparams, push, List.append_assoc, List.singleton_append], ?_⟩
      rw [taken?_of_bind_ok hv hbind, Option.toList_some, List.singleton_append, List.mapIdx_cons,
        Nat.add_zero, hbind, List.map_cons, ← hbound]
      rfl
    · rw [hnext] at hparams hbound ⊢
      rw [taken?_of_bind_error hv hbind]
      exact ⟨ps, hparams, hbound⟩

/-- The values that a call accepts from its beginning are bound at the positions that count them. -/
theorem bind_taken (origin : Origin) (steps : List Step) :
    (origin.start.taken steps).mapIdx (fun k v => Param.bind origin.types[k]? v) =
      (origin.start.run steps).params.map .ok := by
  obtain ⟨ps, hparams, hbound⟩ := exists_params_run origin.start steps
  have hempty : origin.start.params = [] := by cases origin <;> rfl
  have hdeclared : origin.start.declared = origin.types := (Invariant.start origin).declared_eq
  rw [hempty, List.nil_append] at hparams
  simp only [hempty, hdeclared, List.length_nil, Nat.zero_add] at hbound
  rw [hparams, hbound]

/-! ### The law -/

/-- **What a run depends on.**  A step that fails leaves the call as it was, so the failed steps of
a run can be erased.  Runs that give the same values in the same order refuse the same ones for the
same reasons and end with the same parameters, wherever they name the function; if they name it last
alike, they end in the same call.  The parameters are the accepted values, each bound at the
position that counts those before it.  A signature under construction, too, is left as it was by a
step that fails, and failed steps can be erased. -/
theorem run_determined :
    (∀ step : Step, step.apply.LeavesAlone) ∧
    (∀ (origin : Origin) (steps : List Step),
      Erasable Step.apply origin.start steps ∧
      origin.start.run (kept Step.apply origin.start steps) = origin.start.run steps ∧
      (∀ steps', given steps' = given steps →
        origin.start.replies steps' = origin.start.replies steps ∧
        (origin.start.run steps').params = (origin.start.run steps).params ∧
        (lastName? steps' = lastName? steps →
          origin.start.run steps' = origin.start.run steps)) ∧
      (origin.start.taken steps).mapIdx (fun k v => Param.bind origin.types[k]? v) =
        (origin.start.run steps).params.map .ok) ∧
    (∀ step : Signature.Step, step.apply.LeavesAlone) ∧
    ∀ (sig : Signature) (steps : List Signature.Step), Erasable Signature.Step.apply sig steps := by
  refine ⟨Step.leavesAlone_apply, fun origin steps => ?_, Signature.Step.leavesAlone_apply,
    erasable_iff.mpr Signature.Step.leavesAlone_apply⟩
  refine ⟨erasable_iff.mpr Step.leavesAlone_apply _ _, run_kept _ _, ?_, bind_taken origin steps⟩
  intro steps' hgiven
  refine ⟨?_, ?_, run_eq_of_given hgiven⟩
  · rw [replies_given, hgiven, ← replies_given]
  · rw [params_run_given, hgiven, ← params_run_given]

/-- A run that names the function between its values, one of which is refused. -/
def namedBetween : List Step :=
  [.setName "load", .addText "x", .addBytes [], .setName "keep", .addUInt32 7]

/-- The same values before the last name. -/
def namedAfter : List Step := [.addText "x", .addBytes [], .addUInt32 7, .setName "keep"]

theorem run_determined_sample :
    (Origin.signed sampleSignature).start.run namedAfter =
      (Origin.signed sampleSignature).start.run namedBetween := by
  obtain ⟨-, -, hsame, -⟩ := run_determined.2.1 (.signed sampleSignature) namedBetween
  obtain ⟨-, -, hrun⟩ := hsame namedAfter rfl
  exact hrun rfl

end CallData.Call
