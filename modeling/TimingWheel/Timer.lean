import TimingWheel.Config
import TimingWheel.Stats
import TimingWheel.Wheel

/-!
# Timers

A timer is a stack of wheels over one clock. Level 0 ticks every base interval and each coarser
level ticks `slots` times slower, so one rotation of a level is one tick of the next.

* `Timer.selectLevel` finds the finest wheel whose rotation covers a delay.
* `Timer.place` puts an entry there, the given delay ahead.
* Time is given to a timer from outside, in microseconds; `Timer.nowMs` is its own reading.
-/

namespace TimingWheel

/-- The number of a timer. -/
abbrev TimerId := Nat

/-- A stack of wheels, finest first. -/
structure Timer where
  id : TimerId
  status : TimerStatus
  /-- The clock when the timer was created, in microseconds. -/
  epochUs : Nat
  wheels : Array Wheel
  deriving Repr, Inhabited

namespace Timer

/-- Empty wheels from a level on, each as many times slower as the one before has slots. -/
def wheelsFrom (slots level resolutionMs : Nat) : Nat → List Wheel
  | 0 => []
  | n + 1 =>
    .empty level slots resolutionMs
      :: wheelsFrom slots (level + 1) (mulCapped resolutionMs slots) n

/-- A running timer with empty wheels, created at the given clock. -/
def ofConfig (id : TimerId) (clockUs : Nat) (c : TimerConfig) : Timer :=
  { id, status := .running, epochUs := clockUs
    wheels := (wheelsFrom c.slots 0 c.intervalMs c.levels).toArray }

/-- Whole milliseconds since the timer was created. -/
def nowMs (t : Timer) (clockUs : Nat) : Nat := min ((clockUs - t.epochUs) / 1000) ceiling

/-- The finest level whose rotation covers a delay, the coarsest where none does. -/
def selectLevel (wheels : Array Wheel) (remainingMs : Nat) : Nat :=
  (wheels.findIdx? fun w => remainingMs ≤ w.spanMs).getD (wheels.size - 1)

/-- Level and tick at which an entry with this delay is put. -/
def position (t : Timer) (remainingMs : Nat) : Nat × Nat :=
  let level := selectLevel t.wheels remainingMs
  (level, (t.wheels[level]?.map (·.target remainingMs)).getD 0)

def modifyWheel (t : Timer) (level : Nat) (f : Wheel → Wheel) : Timer :=
  { t with wheels := t.wheels.modify level f }

def install (t : Timer) (entry : EntryId) (level tick : Nat) : Timer :=
  t.modifyWheel level (·.install entry tick)

def periodUs (w : Wheel) : Nat := w.resolutionMs * 1000

/-- The clock at which the next tick of a wheel falls due: one period after the one before it,
whether that one was dealt with in time or not. -/
def nextTickUs (t : Timer) (w : Wheel) : Nat := t.epochUs + (w.served + 1) * periodUs w

/-- Ticks of a level that fall due up to a clock and were not dealt with yet. A closed timer has
none. -/
def ticksBy (t : Timer) (clockUs level : Nat) : Nat :=
  if t.status = .closed then 0
  else
    match t.wheels[level]? with
    | none => 0
    | some w => (clockUs - t.epochUs) / periodUs w - w.served

def levels (t : Timer) : List Nat := List.range t.wheels.size

/-- The clock at which the next tick of any level falls due. -/
def earliestTickUs? (t : Timer) : Option Nat :=
  if t.status = .closed then none else (t.wheels.map t.nextTickUs).toList.min?

def stats (t : Timer) : TimerStats :=
  { status := t.status
    levels := t.wheels.toList.map fun w =>
      { level := w.level, resolutionMs := w.resolutionMs, ticks := w.ticks, pending := w.pending } }

def dump (t : Timer) : String :=
  "Timer \x7b status: " ++ t.status.dumpName ++ ", levels: " ++ toString t.wheels.size ++ " \x7d"

end Timer

end TimingWheel
