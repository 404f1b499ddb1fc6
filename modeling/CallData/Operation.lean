/-
CallData/Operation.lean

Operations that change a builder in place.

An operation may fail on its way, and what it has done to the builder by then stays done.  So both
ways to end come with the builder as the operation leaves it (`after`).  That a failure leaves a
builder as it was is a property of some operations (`LeavesAlone`).
-/
namespace CallData

/-- An operation on a builder of type `σ`, which may fail. -/
abbrev Operation (ε σ : Type) := EStateM ε σ

namespace Operation

variable {ε σ : Type}

/-- The builder behind an operation, however that ends. -/
def after (op : Operation ε σ Unit) (s : σ) : σ :=
  match op.run s with
  | .ok _ next => next
  | .error _ rest => rest

/-- The changed builder, for those who give it up where the operation fails. -/
def result (op : Operation ε σ Unit) (s : σ) : Except ε σ :=
  match op.run s with
  | .ok _ next => .ok next
  | .error reason _ => .error reason

/-- Where the operation fails, the builder is as it was. -/
def LeavesAlone (op : Operation ε σ Unit) : Prop :=
  ∀ s reason rest, op.run s = .error reason rest → rest = s

variable {op op' : Operation ε σ Unit} {s next rest : σ} {reason : ε}

theorem after_of_ok (h : op.run s = .ok () next) : op.after s = next := by
  rw [after, h]

theorem after_of_error (h : op.run s = .error reason rest) : op.after s = rest := by
  rw [after, h]

theorem result_of_ok (h : op.run s = .ok () next) : op.result s = .ok next := by
  rw [result, h]

theorem result_of_error (h : op.run s = .error reason rest) : op.result s = .error reason := by
  rw [result, h]

/-- What is only checked leaves the builder as it is. -/
@[simp] theorem run_ofExcept {α : Type} (x : Except ε α) (s : σ) :
    EStateM.run (MonadExcept.ofExcept x : Operation ε σ α) s =
      match x with
      | .ok a => .ok a s
      | .error reason => .error reason s := by
  cases x <;> rfl

/-- An operation behind one that succeeds goes on with the builder that it finds. -/
theorem run_seq_of_ok (h : op.run s = .ok () next) :
    EStateM.run (do op; op') s = op'.run next := by
  simp only [EStateM.run, bind, EStateM.bind] at h ⊢
  rw [h]

/-- An operation behind one that fails is not begun. -/
theorem run_seq_of_error (h : op.run s = .error reason rest) :
    EStateM.run (do op; op') s = .error reason rest := by
  simp only [EStateM.run, bind, EStateM.bind] at h ⊢
  rw [h]

theorem result_seq (op op' : Operation ε σ Unit) (s : σ) :
    result (do op; op') s = op.result s >>= op'.result := by
  rcases hrun : op.run s with ⟨⟨⟩, next⟩ | ⟨reason, rest⟩
  · rw [result_of_ok hrun, result, run_seq_of_ok hrun]
    rfl
  · rw [result_of_error hrun, result_of_error (run_seq_of_error hrun)]
    rfl

theorem LeavesAlone.after_eq (h : op.LeavesAlone) (hresult : op.result s = .error reason) :
    op.after s = s := by
  rcases hrun : op.run s with ⟨⟨⟩, next⟩ | ⟨reason', rest⟩
  · rw [result_of_ok hrun] at hresult
    contradiction
  · rw [after_of_error hrun]
    exact h s reason' rest hrun

end Operation

end CallData
