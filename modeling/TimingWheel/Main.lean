import TimingWheel.Program

/-!
# The command line tool

Input and output of the program: arguments, the environment variables that settings come from, and
the settings file are read here, and what `Program.run` answers is printed.
-/

namespace TimingWheel.Main

/-- The variables that matter, in the letter case that is usual. -/
def variableNames : List String :=
  ["TICKWHEEL_CONFIG", "HOME", "TICKWHEEL_TIMER_INTERVAL_MS", "TICKWHEEL_TIMER_LEVELS",
    "TICKWHEEL_TIMER_MAX_JOB_THREADS", "TICKWHEEL_TIMER_SLOTS"]

/-- A variable as the system lists it: its name, an equals sign, and its value. -/
def readVariable (line : String) : Option (String × String) :=
  match line.splitOn "=" with
  | name :: value :: rest => some (name, "=".intercalate (value :: rest))
  | _ => none

/-- All variables that the system lists, since the layer of the environment reads names in any
letter case. Where there is no list, the variables that matter are asked for one by one. -/
def readEnvironment : IO Environment := do
  match ← (IO.FS.readFile "/proc/self/environ").toBaseIO with
  | .ok list => return (list.splitOn "\x00").filterMap readVariable
  | .error _ =>
    variableNames.filterMapM fun name => do
      return (← IO.getEnv name).map fun value => (name, value)

/-- Paths where the file with a path is looked for: here, then in each directory above. -/
def candidates (path : String) : List String :=
  if path.startsWith "/" then [path]
  else (List.range 32).map fun up => String.join (List.replicate up "../") ++ path

def readFirst : List String → IO Files
  | [] => return []
  | path :: rest => do
    match ← (IO.FS.readFile path).toBaseIO with
    | .ok text => return [(path, text)]
    | .error _ => readFirst rest

/-- The path that a command line asks for. -/
def askedPath (words : List String) : Option String :=
  match CommandLine.Request.read words with
  | .ok (.settings path _) => path
  | .ok (.soak path _ _) => path
  | _ => none

end TimingWheel.Main

open TimingWheel in
def main (words : List String) : IO UInt32 := do
  let env ← Main.readEnvironment
  let files ← Main.readFirst
    (Main.candidates (Surroundings.settingsPath { env } (Main.askedPath words)))
  match Program.run { files, env } words with
  | .ok text =>
    IO.print text
    return 0
  | .error refusal =>
    IO.eprint refusal.text
    return refusal.code.toUInt32
