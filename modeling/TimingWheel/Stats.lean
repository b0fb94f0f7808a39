import TimingWheel.Count
import TimingWheel.Status

/-!
# Statistics

What a timer reports about itself at one moment, finest level first.
-/

namespace TimingWheel

/-- One level of a timer at one moment. -/
structure LevelStats where
  level : Nat
  resolutionMs : Nat
  /-- Ticks handled since the timer was created. -/
  ticks : Nat
  pending : Nat
  deriving Repr, DecidableEq, Inhabited

/-- A timer at one moment. -/
structure TimerStats where
  status : TimerStatus
  levels : List LevelStats
  deriving Repr, DecidableEq, Inhabited

def TimerStats.pending (s : TimerStats) : Nat := total (s.levels.map (·.pending))

end TimingWheel
