import TimingWheel.Text.Number

/-!
# Failures

What can go wrong outside of a job, as a category with a message, and the text of each. A message
about stored data may end by naming a line and a column; `Position` reads such an ending, and the
text writes it back in plain decimal.
-/

namespace TimingWheel

/-- A place in a text, counted from line 1. -/
structure Position where
  line : Nat
  column : Nat
  deriving Repr, DecidableEq

namespace Position

/-- What stands before and after the last occurrence of a nonempty mark. -/
def splitLast (mark : List Char) : List Char → Option (List Char × List Char)
  | [] => none
  | c :: cs =>
    match splitLast mark cs with
    | some (before, after) => some (c :: before, after)
    | none => if mark.isPrefixOf (c :: cs) then some ([], (c :: cs).drop mark.length) else none

/-- Takes the ending ` at line L column C` off a message. -/
def ofEnding? (message : List Char) : Option (List Char × Position) := do
  let (before, place) ← splitLast " at line ".toList message
  let line := place.takeWhile Char.isDigit
  let rest := place.dropWhile Char.isDigit
  let mark := " column ".toList
  if !mark.isPrefixOf rest then none
  else
    let line ← Text.plainCount? line
    let column ← Text.plainCount? (rest.drop mark.length)
    some (before, ⟨line, column⟩)

end Position

inductive Failure where
  /-- A configuration that cannot be used. -/
  | config (message : String)
  /-- The system refused something that running needs. -/
  | runtime (message : String)
  /-- Stored data could not be written or read. -/
  | serialization (message : String)
  deriving Repr, DecidableEq

namespace Failure

/-- The fixed name of the category. -/
def code : Failure → String
  | config _ => "CONFIG_ERROR"
  | runtime _ => "RUNTIME_ERROR"
  | serialization _ => "SERIALIZATION_ERROR"

/-- A message about stored data, its place in plain decimal; line 0 stands for no place at all. -/
def placed (message : String) : String :=
  match Position.ofEnding? message.toList with
  | none => message
  | some (before, ⟨0, _⟩) => String.ofList before
  | some (before, at_) =>
    String.ofList before ++ " at line " ++ toString at_.line ++ " column " ++ toString at_.column

/-- The text of a failure: its category, then its message. -/
def message : Failure → String
  | config m => "Configuration error: " ++ m
  | runtime m => "Runtime error: " ++ m
  | serialization m => "Serialization error: " ++ placed m

end Failure

end TimingWheel
