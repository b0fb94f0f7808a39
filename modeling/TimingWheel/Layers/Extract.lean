import TimingWheel.Config
import TimingWheel.Layers.Setting
import TimingWheel.Text.Quoted

/-!
# Settings out of layers

Reads the settings of a timer off merged layers. Whatever is not asked for is ignored, and what is
asked for and not there has its default.

The fields of a table are read in the order of their keys, so of several bad ones the first in that
order is told. A sequence stands for its fields in the order in which a shape declares them; what it
holds beyond them is ignored.
-/

namespace TimingWheel

/-- What was found where something else was expected. -/
inductive Found where
  | scalar (value : Scalar)
  | sequence
  | map
  deriving Repr, DecidableEq

namespace Found

def text : Found → String
  | scalar (.text s) => "string " ++ Text.quote s
  | scalar (.bool b) => "bool " ++ (if b then "true" else "false")
  | scalar (.signed i) => "signed int `" ++ toString i ++ "`"
  | scalar (.count n) => "unsigned int `" ++ toString n ++ "`"
  | scalar (.float x) => "float `" ++ x.text ++ "`"
  | sequence => "sequence"
  | map => "map"

def ofSetting : Setting → Found
  | .scalar _ value => .scalar value
  | .sequence .. => sequence
  | .table .. => map

end Found

/-- What is wrong with a setting. -/
inductive SettingProblem where
  | kind (found : Found) (expected : String)
  | range (found : Found) (expected : String)
  deriving Repr, DecidableEq

namespace SettingProblem

def text : SettingProblem → String
  | kind found expected => "invalid type: found " ++ found.text ++ ", expected " ++ expected
  | range found expected => "invalid value " ++ found.text ++ ", expected " ++ expected

end SettingProblem

/-- The start of the names of environment variables that hold settings of a timer. -/
def variableStem : String := "TICKWHEEL_TIMER_"

namespace Origin

/-- How a layer names the setting at a path: by the variable, or below the default profile. -/
def keyText (path : List String) : Origin → String
  | environment => ".".intercalate (path.map String.toUpper)
  | _ => ".".intercalate ("default" :: path)

def text : Origin → String
  | defaults => "default values"
  | file place => place ++ " TOML file"
  | environment => "`" ++ variableStem ++ "` environment variable(s)"
  | flags => "command line"

end Origin

structure SettingFault where
  problem : SettingProblem
  path : List String
  origin : Origin
  deriving Repr, DecidableEq

namespace SettingFault

def text (f : SettingFault) : String :=
  f.problem.text ++ " for key " ++ Text.quote (f.origin.keyText f.path) ++ " in " ++ f.origin.text

end SettingFault

namespace Setting

/-- The count that a setting is. -/
def count (expected : String) (path : List String) (s : Setting) : Except SettingFault Nat :=
  match s with
  | .scalar _ (.count n) => .ok n
  | .scalar o (.signed i) =>
    if 0 ≤ i then .ok i.toNat
    else .error ⟨.range (.ofSetting s) expected, path, o⟩
  | s => .error ⟨.kind (.ofSetting s) expected, path, s.origin⟩

/-- The count that an optional setting is, or its default. -/
def countOr (default : Nat) (expected : String) (path : List String) :
    Option Setting → Except SettingFault Nat
  | none => .ok default
  | some s => s.count expected path

/-- A count of slots, levels or threads, as a message names it. -/
def sizeKind : String := "usize"

/-- A count of milliseconds, as a message names it. -/
def millisKind : String := "u64"

/-- The shape that a setting gives. -/
def timerConfig (path : List String) (s : Setting) : Except SettingFault TimerConfig :=
  let d : TimerConfig := {}
  match s with
  | .table _ ms => do
    let field (key kind : String) (default : Nat) :=
      countOr default kind (path ++ [key]) (ms.lookup key)
    let intervalMs ← field "interval_ms" millisKind d.intervalMs
    let levels ← field "levels" sizeKind d.levels
    let maxJobThreads ← field "max_job_threads" sizeKind d.maxJobThreads
    let slots ← field "slots" sizeKind d.slots
    return { slots, levels, intervalMs, maxJobThreads }
  | .sequence _ items => do
    let field (index : Nat) (kind : String) (default : Nat) :=
      countOr default kind (path ++ [toString index]) items[index]?
    let slots ← field 0 sizeKind d.slots
    let levels ← field 1 sizeKind d.levels
    let intervalMs ← field 2 millisKind d.intervalMs
    let maxJobThreads ← field 3 sizeKind d.maxJobThreads
    return { slots, levels, intervalMs, maxJobThreads }
  | s => .error ⟨.kind (.ofSetting s) "struct TimerConfig", path, s.origin⟩

/-- The settings that merged layers give. -/
def settings (s : Setting) : Except SettingFault Settings :=
  match s.members.lookup "timer" with
  | none => .ok {}
  | some timer => do return { timer := ← timer.timerConfig ["timer"] }

end Setting

end TimingWheel
