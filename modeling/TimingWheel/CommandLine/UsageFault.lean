import TimingWheel.CommandLine.Switch
import TimingWheel.Text.Shown

/-!
# Faults of a command line

Why a command line cannot be understood, and how that is said. Words of the command line are
repeated as a terminal shows them, so that they cannot steer it.
-/

namespace TimingWheel.CommandLine

/-- Why a command line cannot be understood. -/
inductive UsageFault where
  | nothingAsked
  /-- Switches are set and no command is named. -/
  | noCommand
  /-- A word stands where a command should. -/
  | unknownCommand (word : String)
  /-- A word has no meaning where it stands. -/
  | unexpected (word : String)
  | unexpectedValue (value : String) (switch : Switch)
  | valueMissing (switch : Switch)
  | repeated (switch : Switch)
  | badNumber (value : String) (switch : Switch) (fault : NumberFault)
  deriving Repr, DecidableEq

def inQuotes (word : String) : String := "'" ++ Text.shown word ++ "'"

def UsageFault.message : UsageFault → String
  | nothingAsked | noCommand => "'tickwheel' requires a subcommand but one was not provided"
  | unknownCommand word => "unrecognized subcommand " ++ inQuotes word
  | unexpected word => "unexpected argument " ++ inQuotes word ++ " found"
  | unexpectedValue value switch =>
    "unexpected value " ++ inQuotes value ++ " for '" ++ switch.written
      ++ "' found; no more were expected"
  | valueMissing switch =>
    "a value is required for '" ++ switch.written ++ "' but none was supplied"
  | repeated switch => "the argument '" ++ switch.written ++ "' cannot be used multiple times"
  | badNumber value switch fault =>
    "invalid value " ++ inQuotes value ++ " for '" ++ switch.written ++ "': " ++ fault.message

end TimingWheel.CommandLine
