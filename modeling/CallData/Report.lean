/-
CallData/Report.lean

What a command reports: named fields for programs and a message for people.

The fields are kept sorted by key, each key once with the value it was given last, so a
report says the same in whatever order it was put together.  Keys are compared by their
characters, which is also the order of their UTF-8 bytes.
-/
import CallData.Json.Printer

namespace CallData

open Json (Scalar)

/-- What a command reports. -/
structure Report where
  /-- The fields, sorted by key. -/
  fields : List (String × Scalar)
  message : Option String
  deriving DecidableEq

namespace Report

/-- The report that says nothing. -/
def empty : Report := ⟨[], none⟩

/-- Sorted fields with this value under this key. -/
def insertField (key : String) (value : Scalar) : List (String × Scalar) → List (String × Scalar)
  | [] => [(key, value)]
  | (k, v) :: rest =>
    if key < k then (key, value) :: (k, v) :: rest
    else if key = k then (key, value) :: rest
    else (k, v) :: insertField key value rest

/-- The report with a field set. -/
def field (r : Report) (key : String) (value : Scalar) : Report :=
  { r with fields := insertField key value r.fields }

def text (r : Report) (key content : String) : Report := r.field key (.text content)

def flag (r : Report) (key : String) (value : Bool) : Report := r.field key (.flag value)

def count (r : Report) (key : String) (value : UInt64) : Report := r.field key (.count value)

def say (r : Report) (message : String) : Report := { r with message := some message }

/-- What is shown: for programs the fields as a JSON object, for people the message. -/
def render (json : Bool) (r : Report) : Option String :=
  if json then some (String.ofList (Json.prettyObject r.fields)) else r.message

end Report

end CallData
