/-
CallData/Report/Step.lean

The operations on a report under construction as data, and what they put together.
-/
import CallData.Report

namespace CallData.Report

/-- An operation on a report under construction. -/
inductive Step where
  | text (key content : String)
  | flag (key : String) (value : Bool)
  | count (key : String) (value : UInt64)
  | say (message : String)
  deriving DecidableEq

/-- The report after a step. -/
def Step.apply (r : Report) : Step → Report
  | text key content => r.text key content
  | flag key value => r.flag key value
  | count key value => r.count key value
  | say message => r.say message

/-- The report that the steps put together. -/
def build (steps : List Step) : Report := steps.foldl Step.apply .empty

end CallData.Report
