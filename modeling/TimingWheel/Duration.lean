import TimingWheel.Count

/-!
# Durations

A span of time in seconds and nanoseconds, its whole milliseconds, and the short text that names
it in the largest unit it fills (`1.5s`, `20ms`, `0ns`).
-/

namespace TimingWheel

/-- A span of time; `nanos` stays below one second. -/
structure Duration where
  seconds : Nat
  nanos : Nat := 0
  deriving Repr, DecidableEq, Inhabited

namespace Duration

def zero : Duration := ⟨0, 0⟩

def ofMillis (ms : Nat) : Duration := ⟨ms / 1000, ms % 1000 * 1000000⟩

def ofMicros (us : Nat) : Duration := ⟨us / 1000000, us % 1000000 * 1000⟩

/-- The whole milliseconds of a span, rounded down and capped at the largest count. -/
def millis (d : Duration) : Nat := min (d.seconds * 1000 + d.nanos / 1000000) ceiling

/-- A fraction given as a number of `width` decimal digits, without the zeros at its end. -/
def fraction (digits width : Nat) : String :=
  let text := Nat.toDigits 10 digits
  let padded := List.replicate (width - text.length) '0' ++ text
  String.ofList (padded.reverse.dropWhile (· == '0')).reverse

/-- A number with a fraction of `width` digits, the point left out with an empty fraction. -/
def decimal (whole digits width : Nat) : String :=
  if digits = 0 then toString whole else toString whole ++ "." ++ fraction digits width

/-- The text of a span: seconds, milliseconds, microseconds or nanoseconds, whichever is the
largest unit that it fills, with the rest as a fraction. -/
def text (d : Duration) : String :=
  if 0 < d.seconds then decimal d.seconds d.nanos 9 ++ "s"
  else if 1000000 ≤ d.nanos then decimal (d.nanos / 1000000) (d.nanos % 1000000) 6 ++ "ms"
  else if 1000 ≤ d.nanos then decimal (d.nanos / 1000) (d.nanos % 1000) 3 ++ "µs"
  else toString d.nanos ++ "ns"

/-- Whole milliseconds survive the way through a span. -/
theorem millis_ofMillis {ms : Nat} (h : ms ≤ ceiling) : (ofMillis ms).millis = ms := by
  have hsum : ms / 1000 * 1000 + ms % 1000 * 1000000 / 1000000 = ms := by omega
  simp only [millis, ofMillis, hsum]
  exact Nat.min_eq_left h

theorem millis_ofMicros (us : Nat) : (ofMicros us).millis = min (us / 1000) ceiling := by
  have hsum : us / 1000000 * 1000 + us % 1000000 * 1000 / 1000000 = us / 1000 := by omega
  simp only [millis, ofMicros, hsum]

end Duration

end TimingWheel
