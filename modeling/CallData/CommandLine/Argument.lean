/-
CallData/CommandLine/Argument.lean

What an argument looks like, before it is known what it means.
-/
namespace CallData.CommandLine

/-- The form of an argument. -/
inductive Argument where
  /-- The two dashes by themselves, after which nothing is a switch. -/
  | stop
  /-- A long spelling, and the value after an equals sign if there is one. -/
  | long (name : String) (attached : Option String)
  /-- A short spelling, and the text that follows the letter. -/
  | short (letter : Char) (attached : String)
  /-- Anything else, the single dash included. -/
  | plain (text : String)
  deriving DecidableEq

/-- The form of an argument. -/
def Argument.ofChars : List Char → Argument
  | ['-', '-'] => .stop
  | '-' :: '-' :: body =>
    let name := String.ofList (body.takeWhile (· != '='))
    match body.dropWhile (· != '=') with
    | [] => .long name none
    | _ :: value => .long name (some (String.ofList value))
  | '-' :: letter :: attached => .short letter (String.ofList attached)
  | cs => .plain (String.ofList cs)

def Argument.ofString (text : String) : Argument := .ofChars text.toList

/-- The value that follows a letter: nothing if the letter ends the argument, and otherwise
the rest without one equals sign at its start. -/
def attachedToLetter (rest : String) : Option String :=
  match rest.toList with
  | [] => none
  | '=' :: value => some (String.ofList value)
  | _ => some rest

end CallData.CommandLine
