import TimingWheel.Layers.Environment
import TimingWheel.Layers.Place
import TimingWheel.Toml.Reader

/-!
# Loading settings

Settings come in layers, the later ones over the earlier ones: the defaults, a file, the
environment, and flags of a command line. `Settings.loadLayers` puts them together and reads the
result; it does not judge the shape it finds.
-/

namespace TimingWheel

/-- Why settings could not be loaded. -/
inductive LoadFault where
  /-- The file is no document of its format. -/
  | unreadableFile
  | setting (fault : SettingFault)
  deriving Repr, DecidableEq

namespace LoadFault

def message : LoadFault → String
  | unreadableFile => "toml syntax"
  | setting fault => fault.text

def failure (fault : LoadFault) : Failure := .config fault.message

end LoadFault

structure Surroundings where
  files : Files := []
  env : Environment := []
  deriving Repr

/-- The path of the settings file: the given one, else the one that the environment names, else the
one of the user. -/
def Surroundings.settingsPath (s : Surroundings) (path : Option String) : String :=
  match path, s.env.get? "TICKWHEEL_CONFIG" with
  | some p, _ => p
  | none, some p => p
  | none, none => (s.env.get? "HOME").getD "." ++ "/.tickwheel/tickwheel.toml"

structure Overrides where
  slots : Option Nat := none
  levels : Option Nat := none
  intervalMs : Option Nat := none
  deriving Repr, DecidableEq

namespace Setting

/-- A table of the settings of a timer. -/
def ofTimer (origin : Origin) (fields : List (String × Nat)) : Setting :=
  .table origin [("timer",
    .table origin (fields.map fun (key, n) => (key, .scalar origin (.count n))))]

def defaults : Setting :=
  let d : TimerConfig := {}
  .ofTimer .defaults [("slots", d.slots), ("levels", d.levels), ("interval_ms", d.intervalMs),
    ("max_job_threads", d.maxJobThreads)]

/-- Settings of a command line as a layer. The table of the timer is there even when it is empty. -/
def ofOverrides (o : Overrides) : Setting :=
  let field (key : String) (value : Option Nat) := (value.map fun n => (key, n)).toList
  .ofTimer .flags
    (field "slots" o.slots ++ field "levels" o.levels ++ field "interval_ms" o.intervalMs)

/-- A file as a layer, an empty one where there is no such file. -/
def ofFile? (files : Files) (path : String) : Except LoadFault Setting :=
  match files.find? path with
  | none => .ok (.table .defaults [])
  | some (place, text) =>
    match (Toml.read? text).bind (·.toSetting? (.file place)) with
    | none => .error .unreadableFile
    | some layer => .ok layer

end Setting

namespace Settings

/-- The settings that the layers give, with those of a command line on top where there is one. -/
def loadLayers (s : Surroundings) (path : Option String) (flags : Option Overrides) :
    Except LoadFault Settings := do
  let file ← Setting.ofFile? s.files (s.settingsPath path)
  let merged := (Setting.defaults.merge file).merge s.env.layer
  let merged := match flags with
    | none => merged
    | some o => merged.merge (.ofOverrides o)
  merged.settings.mapError .setting

/-- The settings that defaults, file and environment give. -/
def load (s : Surroundings) (path : Option String) : Except LoadFault Settings :=
  loadLayers s path none

end Settings

def TimerConfig.load (s : Surroundings) (path : Option String) : Except LoadFault TimerConfig :=
  (Settings.load s path).map (·.timer)

end TimingWheel
