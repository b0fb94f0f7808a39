import TimingWheel.CommandLine.Help
import TimingWheel.CommandLine.Request

/-!
# The program

What the command line tool does: it reads its words, loads the settings, and prints them or the
report of a soak. `Program.run` is the tool without its input and output.
-/

namespace TimingWheel.Program

/-- Why the program does not do what it is asked for. -/
inductive Refusal where
  | usage (fault : CommandLine.UsageFault)
  | loading (fault : LoadFault)
  | shape (fault : ConfigFault)
  /-- The jobs of a soak are to have no interval. -/
  | noJobInterval
  deriving Repr, DecidableEq

namespace Refusal

/-- The exit code: 2 for the command line, 1 for all else. -/
def code : Refusal → Nat
  | usage _ => 2
  | _ => 1

/-- What is printed instead of a result. -/
def text : Refusal → String
  | usage .nothingAsked => CommandLine.Page.program.explanation
  | usage fault => "error: " ++ fault.message ++ "\n\nFor more information, try '--help'.\n"
  | loading fault => "Error: " ++ fault.message ++ "\n"
  | shape fault => "Error: " ++ fault.failure.message ++ "\n"
  | noJobInterval => "Error: --interval-ms must be positive\n"

end Refusal

/-- What the program says of its version. -/
def version : String := "tickwheel 0.1.0\n"

def soak (c : TimerConfig) (load : Soak) : Except Refusal SoakReport := do
  c.validate.mapError .shape
  if load.intervalMs = 0 then .error .noJobInterval else .ok (load.run c)

def answer (s : Surroundings) : CommandLine.Request → Except Refusal String
  | .help page => .ok page.explanation
  | .version => .ok version
  | .settings path overrides => do
    let settings ← (Settings.loadLayers s path (some overrides)).mapError .loading
    return settings.text ++ "\n"
  | .soak path overrides load => do
    let settings ← (Settings.loadLayers s path (some overrides)).mapError .loading
    return (← soak settings.timer load).text ++ "\n"

/-- What is printed for the words of a command line. -/
def run (s : Surroundings) (words : List String) : Except Refusal String := do
  answer s (← (CommandLine.Request.read words).mapError .usage)

end TimingWheel.Program
