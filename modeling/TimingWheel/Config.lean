import TimingWheel.Duration
import TimingWheel.Failure

/-!
# Configuration of a timer

The shape of a hierarchy of wheels: how many slots each wheel has, how many levels there are and
how long a tick of the finest one takes. `TimerConfig.validate` goes up the levels, as building the
wheels does, and accepts the shapes whose coarsest rotation is a count of milliseconds.
-/

namespace TimingWheel

/-- The shape of a hierarchy of wheels, and how many jobs may execute at once. -/
structure TimerConfig where
  slots : Nat := 10
  levels : Nat := 6
  /-- Tick period of the finest wheel in milliseconds. -/
  intervalMs : Nat := 50
  maxJobThreads : Nat := 512
  deriving Repr, DecidableEq, Inhabited

structure Settings where
  timer : TimerConfig := {}
  deriving Repr, DecidableEq, Inhabited

/-- What is wrong with a shape. -/
inductive ConfigFault where
  | noSlots
  | noInterval
  | noLevels
  | noJobThreads
  /-- The coarsest rotation is longer than the largest count of milliseconds. -/
  | tooLong (intervalMs slots levels : Nat)
  deriving Repr, DecidableEq

namespace ConfigFault

def message : ConfigFault → String
  | noSlots => "slot count must be positive"
  | noInterval => "base interval must be at least 1ms"
  | noLevels => "level count must be positive"
  | noJobThreads => "max_job_threads must be positive"
  | tooLong intervalMs slots levels =>
    s!"interval is too large with level: {intervalMs}ms x {slots} slots x {levels} levels"

def failure (fault : ConfigFault) : Failure := .config fault.message

end ConfigFault

namespace TimerConfig

/-- A shape with the default bound on executing jobs. -/
def ofShape (slots : Nat) (interval : Duration) (levels : Nat) : TimerConfig :=
  { slots, levels, intervalMs := interval.millis }

def interval (c : TimerConfig) : Duration := .ofMillis c.intervalMs

/-- One rotation of the last of a number of levels, given the tick of the first: a rotation of each
level is a tick of the next one. There is none as soon as one of the products is no count. -/
def rotationMs? (slots : Nat) : Nat → Nat → Option Nat
  | 0, tickMs => some tickMs
  | levels + 1, tickMs =>
    match mulChecked tickMs slots with
    | none => none
    | some spanMs => rotationMs? slots levels spanMs

/-- Accepts the shapes that a hierarchy can be built from; of any other, names the first fault. -/
def validate (c : TimerConfig) : Except ConfigFault Unit :=
  if c.slots = 0 then .error .noSlots
  else if c.intervalMs = 0 then .error .noInterval
  else if c.levels = 0 then .error .noLevels
  else if c.maxJobThreads = 0 then .error .noJobThreads
  else
    match rotationMs? c.slots c.levels c.intervalMs with
    | none => .error (.tooLong c.intervalMs c.slots c.levels)
    | some _ => .ok ()

end TimerConfig

end TimingWheel
