import TimingWheel.Encoding
import TimingWheel.World.Scenario

/-!
# Soaking a timer

A soak puts a number of equal repeating jobs on a fresh timer, lets time pass, and compares how
often they were executed with how often an ideal timer would have executed them in the time that the
clock says has passed. It runs in a world of its own, where every execution is over as soon as it is
launched and nobody interrupts it.
-/

namespace TimingWheel

/-- A load to put on a timer. -/
structure Soak where
  jobs : Nat := 1000
  intervalMs : Nat := 100
  seconds : Nat := 5
  singleton : Bool := false
  deriving Repr, DecidableEq

structure SoakReport where
  load : Soak
  elapsedMs : Nat
  executions : Nat
  /-- Executions that an ideal timer would have completed. -/
  expected : Nat
  stats : TimerStats
  deriving Repr, DecidableEq

namespace Soak

def registration (s : Soak) : Registration :=
  if s.singleton then .exclusive s.intervalMs else .repeating s.intervalMs

/-- The world in which a soak begins: there is a timer, and no job yet. -/
def started (c : TimerConfig) : World := World.startTimer {} c

/-- A world with a number of jobs scheduled on its timer. -/
def schedule (s : Soak) : Nat → World → World
  | 0, w => w
  | n + 1, w => s.schedule n (w.schedule "soak" s.registration none {})

/-- The world of a soak before time passes. -/
def loaded (s : Soak) (c : TimerConfig) : World := s.schedule s.jobs (started c)

/-- The world of a soak when its time is up. -/
def finished (s : Soak) (c : TimerConfig) : World := (s.loaded c).advance (s.seconds * 1000000)

/-- The time that passed from one world to a later one, as the clock tells. -/
def elapsed (w w' : World) : Duration := .ofMicros (w'.clockUs - w.clockUs)

/-- Executions that an ideal timer would have completed by then: whole intervals only. -/
def expected (s : Soak) (elapsed : Duration) : Nat :=
  mulCapped s.jobs (elapsed.millis / s.intervalMs)

end Soak

def World.starts (w : World) : Nat := total (w.jobs.toList.map (·.starts))

def Soak.run (s : Soak) (c : TimerConfig) : SoakReport :=
  let w := s.finished c
  let elapsed := elapsed (started c) w
  { load := s
    elapsedMs := elapsed.millis
    executions := w.starts
    expected := s.expected elapsed
    stats := (w.timer.map (·.stats)).getD ⟨.closed, []⟩ }

namespace SoakReport

def toJson (r : SoakReport) : Json :=
  .ofMembers [("jobs", .ofNat r.load.jobs), ("interval_ms", .ofNat r.load.intervalMs),
    ("singleton", .bool r.load.singleton), ("elapsed_ms", .ofNat r.elapsedMs),
    ("executions", .ofNat r.executions), ("expected", .ofNat r.expected),
    ("stats", r.stats.toJson)]

def text (r : SoakReport) : String := r.toJson.pretty

end SoakReport

end TimingWheel
