import TimingWheel.World.Tick

/-!
# Scenarios

What the outside world does with a simulated world, one command after another. A scenario either
creates its timers itself, or it works on one shared timer, which comes into being with the first
command that needs it: `Startup` tells with which shape, and what there is to report about it.
-/

namespace TimingWheel

/-- How the shared timer comes into being. -/
structure Startup where
  /-- What the log tells before the timer starts. -/
  warnings : List LogLine
  config : TimerConfig
  deriving Repr

namespace Startup

/-- Takes the loaded shape, or the default one where loading failed or the shape has a fault. -/
def ofLoaded : Except Failure TimerConfig → Startup
  | .error failure => ⟨[.configNotLoaded failure.message], {}⟩
  | .ok config =>
    match config.validate with
    | .ok () => ⟨[], config⟩
    | .error fault => ⟨[.configRejected fault.failure.message], {}⟩

end Startup

/-- What the outside world does. -/
inductive Command where
  /-- Something that a body can do, too. -/
  | act (action : Action)
  /-- Create a timer, which takes the place of the one there is. -/
  | create (config : TimerConfig)
  | dropTimer
  | dumpTimer
  | timerStats
  /-- Reach for the shared timer, to no end. -/
  | touch
  | advance (us : Nat)
  /-- Execute a held execution, counted from the oldest. -/
  | finish (n : Nat)
  /-- Something that cannot be done. -/
  | unsupported

def Action.needsTimer : Action → Bool
  | .schedule .. | .timer _ => true
  | _ => false

def Command.needsTimer : Command → Bool
  | .act a => a.needsTimer
  | .dumpTimer | .timerStats | .touch => true
  | _ => false

namespace World

/-- Drops the timer, which closes it. -/
def dropTimer (w : World) : World :=
  match w.timer with
  | none => w
  | some t => { w.controlTimer t .close with timer := none }

/-- Starts a timer of an accepted shape in place of the one there is, which is dropped once the new
one runs. -/
def startTimer (w : World) (c : TimerConfig) : World :=
  let w' := (w.log (.timerStarted c.slots c.levels c.intervalMs)).dropTimer
  { w' with timer := some (.ofConfig w.timers w.clockUs c), timers := w.timers + 1 }

/-- Creates a timer, unless its shape has a fault. -/
def create (w : World) (c : TimerConfig) : Answer × World :=
  match c.validate with
  | .error fault => (.refused fault.failure, w)
  | .ok () => (.done, w.startTimer c)

/-- Brings the shared timer into being. -/
def wake (w : World) (s : Startup) : World := (s.warnings.foldl log w).startTimer s.config

def step (w : World) : Command → Answer × World
  | .act action => w.perform (invoke w.nesting) action
  | .create config => w.create config
  | .dropTimer => (.done, w.dropTimer)
  | .dumpTimer =>
    match w.timer with
    | none => (.noTimer, w)
    | some t => (.text t.dump, w)
  | .timerStats =>
    match w.timer with
    | none => (.noTimer, w)
    | some t => (.stats t.stats, w)
  | .advance us => (.done, w.advance us)
  | .finish n => w.finish n
  | .touch | .unsupported => (.unsupported, w)

/-- Carries out one command in a scenario with a shared timer, which nothing replaces or drops. -/
def stepShared (startup : Startup) (w : World) (c : Command) : Answer × World :=
  match c with
  | .create _ => (.unsupported, w)
  | .dropTimer => (.done, w)
  | c => if c.needsTimer && w.timer.isNone then (w.wake startup).step c else w.step c

end World

end TimingWheel
