/-
CallData/Proofs/Attempts.lean

Runs of operations that may fail, where a run goes on with whatever a failure has left.

The journal of a run has an entry for each operation: the state that it found, and what came of it
with the state that it left.  Main result: the failed operations can be erased from every run
exactly if each of them leaves the state as it was (`erasable_iff`).  The journal of the others is
then the old one without the failures, so each of them still succeeds, from the same state to the
same state, and the run ends as it did.
-/
import CallData.Operation

namespace CallData.Attempts

variable {σ α ε : Type} (apply : α → Operation ε σ Unit) {s : σ} {a : α}

/-- The state behind an operation, whether that fails or not. -/
def advance (s : σ) (a : α) : σ := (apply a).after s

def run (s : σ) (operations : List α) : σ := operations.foldl (advance apply) s

/-! ### Journals -/

/-- An operation, the state that it found and what came of it. -/
structure Entry (σ α ε : Type) where
  before : σ
  operation : α
  outcome : EStateM.Result ε σ Unit

namespace Entry

def error? (entry : Entry σ α ε) : Option ε :=
  match entry.outcome with
  | .ok _ _ => none
  | .error reason _ => some reason

def succeeded (entry : Entry σ α ε) : Bool := entry.error?.isNone

end Entry

def journal (s : σ) : List α → List (Entry σ α ε)
  | [] => []
  | a :: operations => ⟨s, a, (apply a).run s⟩ :: journal (advance apply s a) operations

/-- The operations of a run that succeed, in order. -/
def kept (s : σ) (operations : List α) : List α :=
  ((journal apply s operations).filter Entry.succeeded).map Entry.operation

/-! ### Erasing failures -/

variable {apply} {next rest : σ} {reason : ε}

theorem kept_cons_of_ok (h : (apply a).run s = .ok () next) (operations : List α) :
    kept apply s (a :: operations) = a :: kept apply next operations := by
  rw [kept, journal, advance, Operation.after_of_ok h, h]
  rfl

theorem kept_cons_of_error (h : (apply a).run s = .error reason rest) (operations : List α) :
    kept apply s (a :: operations) = kept apply rest operations := by
  rw [kept, journal, advance, Operation.after_of_error h, h]
  rfl

/-- The failed operations can be erased from the run. -/
structure Erasable (apply : α → Operation ε σ Unit) (s : σ) (operations : List α) : Prop where
  journal_kept : journal apply s (kept apply s operations) =
    (journal apply s operations).filter Entry.succeeded
  run_kept : run apply s (kept apply s operations) = run apply s operations

/-- Where failures leave the state as it was, they can be erased. -/
theorem erasable (halone : ∀ a, (apply a).LeavesAlone) (s : σ) (operations : List α) :
    Erasable apply s operations := by
  induction operations generalizing s with
  | nil => exact ⟨rfl, rfl⟩
  | cons a operations ih =>
    rcases hrun : (apply a).run s with ⟨⟨⟩, next⟩ | ⟨reason, rest⟩
    · obtain ⟨hjournal, hlast⟩ := ih next
      have hnext : advance apply s a = next := Operation.after_of_ok hrun
      have hkept := kept_cons_of_ok hrun operations
      constructor
      · rw [hkept, journal, journal, hnext, hjournal, hrun]
        rfl
      · rw [hkept, run, run, List.foldl_cons, List.foldl_cons, hnext]
        exact hlast
    · -- the failure is gone, and what follows it finds the state that it left alone
      obtain rfl : rest = s := halone a s reason rest hrun
      obtain ⟨hjournal, hlast⟩ := ih rest
      have hnext : advance apply rest a = rest := Operation.after_of_error hrun
      have hkept := kept_cons_of_error hrun operations
      constructor
      · rw [hkept, hjournal, journal, hnext, hrun]
        rfl
      · rw [hkept, hlast, run, run, List.foldl_cons, hnext]

/-- **Failures can be erased exactly if they leave no trace.** -/
theorem erasable_iff :
    (∀ s operations, Erasable apply s operations) ↔ ∀ a, (apply a).LeavesAlone := by
  refine ⟨fun h a s reason rest hrun => ?_, erasable⟩
  -- a run of the failure alone ends with what it has left, and without it nothing happens
  have hlast := (h s [a]).run_kept
  rw [kept_cons_of_error hrun, run, run, List.foldl_cons, advance,
    Operation.after_of_error hrun] at hlast
  exact hlast.symm

end CallData.Attempts
