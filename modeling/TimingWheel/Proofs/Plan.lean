import TimingWheel.Runs

/-!
# The naive schedule

A scheduler without a hierarchy looks at a job at every tick of its base period and launches it
when it is due. What it does with a job is settled from the start: a `Plan` tells for every launch
when it falls due and at which base tick it happens. A job that is launched late starts its rate
afresh from the launch, so it is never made up for what it missed. How many launches of a job that
was there from the start come by a time is a matter of one division (`Plan.launchMs_le_iff`).
-/

namespace TimingWheel

/-- The first multiple of a period at or after a time. -/
def roundUp (period ms : Nat) : Nat := (ms + period - 1) / period * period

theorem dvd_roundUp (period ms : Nat) : period ∣ roundUp period ms := Nat.dvd_mul_left _ _

/-- Rounding up to a period goes up. -/
theorem le_roundUp {period : Nat} (h : 0 < period) (ms : Nat) : ms ≤ roundUp period ms := by
  have hrest := Nat.mod_lt (ms + period - 1) h
  have hsplit := Nat.div_add_mod' (ms + period - 1) period
  unfold roundUp
  omega

/-- It goes up by less than a period. -/
theorem roundUp_lt {period : Nat} (h : 0 < period) (ms : Nat) :
    roundUp period ms < ms + period := by
  have hsplit := Nat.div_add_mod' (ms + period - 1) period
  unfold roundUp
  omega

/-- No earlier multiple will do. -/
theorem roundUp_le {period ms m : Nat} (h : 0 < period) (hdvd : period ∣ m) (hle : ms ≤ m) :
    roundUp period ms ≤ m := by
  obtain ⟨k, rfl⟩ := hdvd
  have hlt : roundUp period ms < period * (k + 1) := by
    have hround := roundUp_lt h ms
    rw [Nat.mul_succ]
    omega
  obtain ⟨j, hj⟩ := dvd_roundUp period ms
  rw [hj] at hlt ⊢
  apply Nat.mul_le_mul_left
  exact Nat.le_of_lt_succ (Nat.lt_of_mul_lt_mul_left hlt)

/-- A multiple that comes less than a period after a time comes no later than the first one at or
after it. -/
theorem le_roundUp_of_dvd {period ms m : Nat} (h : 0 < period) (hdvd : period ∣ m)
    (hlt : m < ms + period) : m ≤ roundUp period ms := by
  obtain ⟨k, rfl⟩ := hdvd
  obtain ⟨j, hj⟩ := dvd_roundUp period ms
  have hle := le_roundUp h ms
  rw [hj] at hle ⊢
  apply Nat.mul_le_mul_left
  apply Nat.le_of_lt_succ
  apply Nat.lt_of_mul_lt_mul_left (a := period)
  rw [Nat.mul_succ]
  omega

/-- Between two multiples of the period it goes to the next one. -/
theorem roundUp_eq_of_lt {period k ms : Nat} (hpos : 0 < period) (hlow : k * period < ms)
    (hhigh : ms ≤ (k + 1) * period) : roundUp period ms = (k + 1) * period := by
  apply Nat.le_antisymm
  · exact roundUp_le hpos (Nat.dvd_mul_left _ _) hhigh
  · obtain ⟨j, hj⟩ := dvd_roundUp period ms
    have hle := le_roundUp hpos ms
    rw [hj, Nat.mul_comm period] at hle ⊢
    apply Nat.mul_le_mul_right
    apply Nat.lt_of_mul_lt_mul_right (a := period)
    exact Nat.lt_of_lt_of_le hlow hle

/-- It stays within a limit exactly if the number stays within the last multiple before the limit.
-/
theorem roundUp_le_iff {period ms limit : Nat} (hpos : 0 < period) :
    roundUp period ms ≤ limit ↔ ms ≤ period * (limit / period) := by
  constructor
  · intro hle
    obtain ⟨j, hj⟩ := dvd_roundUp period ms
    have hround := le_roundUp hpos ms
    rw [hj] at hle hround
    refine Nat.le_trans hround (Nat.mul_le_mul_left _ ?_)
    exact (Nat.le_div_iff_mul_le hpos).2 (by rw [Nat.mul_comm]; exact hle)
  · intro hle
    exact Nat.le_trans (roundUp_le hpos (Nat.dvd_mul_right _ _) hle) (Nat.mul_div_le _ _)

/-! ## Runs that are left -/

namespace Runs

/-- Whether one more run may follow a number of runs. -/
def Allows : Runs → Nat → Prop
  | .unlimited, _ => True
  | .left limit, n => n < limit

instance (r : Runs) (n : Nat) : Decidable (r.Allows n) :=
  match r with
  | .unlimited => inferInstanceAs (Decidable True)
  | .left limit => inferInstanceAs (Decidable (n < limit))

/-- The runs left after a number of runs. -/
def after : Runs → Nat → Runs
  | .unlimited, _ => .unlimited
  | .left limit, n => .left (limit - n)

variable {r : Runs} {n : Nat}

theorem after_zero (r : Runs) : r.after 0 = r := by cases r <;> rfl

theorem Allows.mono {m : Nat} (h : r.Allows n) (hle : m ≤ n) : r.Allows m := by
  cases r with
  | unlimited => trivial
  | left limit => exact Nat.lt_of_le_of_lt hle h

/-- After `n` runs none is left exactly if the grant does not allow one more. -/
theorem isSpent_after : (r.after n).isSpent = true ↔ ¬ r.Allows n := by
  cases r with
  | unlimited => simp [after, isSpent, Allows]
  | left limit =>
    show (Runs.left (limit - n)).isSpent = true ↔ ¬ n < limit
    cases hrest : limit - n with
    | zero => simp only [isSpent, true_iff]; omega
    | succ rest => simp only [isSpent, Bool.false_eq_true, false_iff]; omega

theorem allows_zero : r.Allows 0 ↔ r.isSpent = false := by
  have hspent := r.isSpent_after (n := 0)
  rw [after_zero] at hspent
  rw [← Bool.not_eq_true, hspent, Classical.not_not]

/-- A run that the grant allows can be taken, and leaves one less. -/
theorem consume_after (h : r.Allows n) : (r.after n).consume = some (r.after (n + 1)) := by
  cases r with
  | unlimited => rfl
  | left limit =>
    have hlt : n < limit := h
    have hrest : limit - n = limit - (n + 1) + 1 := by omega
    simp only [after, hrest, consume]

/-- One run is left exactly if it is the last one that the grant allows. -/
theorem after_eq_one (h : r.Allows n) : r.after n = .left 1 ↔ ¬ r.Allows (n + 1) := by
  cases r with
  | unlimited => simp [after, Allows]
  | left limit =>
    have hlt : n < limit := h
    simp only [after, Allows, left.injEq]
    omega

end Runs

/-! ## Plans -/

/-- What a naive scheduler needs to know of a job. -/
structure Plan where
  /-- Milliseconds between two looks at the job. -/
  periodMs : Nat
  /-- The time at which the job was added. -/
  addedMs : Nat
  intervalMs : Nat
  runs : Runs
  deriving Repr

namespace Plan

/-- When a launch falls due, counted from 0: one interval after the one before it fell due, or after
that launch where this is not past it any more. -/
def dueMs (p : Plan) : Nat → Nat
  | 0 => p.addedMs + p.intervalMs
  | n + 1 =>
    let launched := roundUp p.periodMs (p.dueMs n)
    let next := p.dueMs n + p.intervalMs
    if launched < next then next else launched + p.intervalMs

/-- When a launch happens: at the first tick of the base period at which it is due. -/
def launchMs (p : Plan) (n : Nat) : Nat := roundUp p.periodMs (p.dueMs n)

variable {p : Plan}

theorem dueMs_succ (p : Plan) (n : Nat) : p.dueMs (n + 1)
    = if p.launchMs n < p.dueMs n + p.intervalMs then p.dueMs n + p.intervalMs
      else p.launchMs n + p.intervalMs := rfl

/-- A launch comes no earlier than it is due. -/
theorem dueMs_le_launchMs (h : 0 < p.periodMs) (n : Nat) : p.dueMs n ≤ p.launchMs n :=
  le_roundUp h _

/-- No launch is due before the one before it has happened. -/
theorem launchMs_lt_dueMs (h : 0 < p.intervalMs) (n : Nat) : p.launchMs n < p.dueMs (n + 1) := by
  rw [dueMs_succ]
  split <;> omega

/-- Launches on a plan are at ever later times. -/
theorem launchMs_strictMono (hperiod : 0 < p.periodMs) (hinterval : 0 < p.intervalMs) {m n : Nat}
    (h : m < n) : p.launchMs m < p.launchMs n := by
  have hstep : ∀ k, p.launchMs k < p.launchMs (k + 1) := fun k =>
    Nat.lt_of_lt_of_le (p.launchMs_lt_dueMs hinterval k) (p.dueMs_le_launchMs hperiod (k + 1))
  induction h with
  | refl => exact hstep m
  | step _ ih => exact Nat.lt_trans ih (hstep _)

/-! ### Launches by a time -/

/-- Where intervals are no shorter than the base period, a job is due once for each of them. -/
theorem dueMs_of_le (hadded : p.addedMs = 0) (hperiod : 0 < p.periodMs)
    (hle : p.periodMs ≤ p.intervalMs) (n : Nat) : p.dueMs n = (n + 1) * p.intervalMs := by
  induction n with
  | zero => rw [dueMs, hadded]; omega
  | succ n ih =>
    have hlaunch : p.launchMs n < p.dueMs n + p.intervalMs :=
      Nat.lt_of_lt_of_le (roundUp_lt hperiod _) (Nat.add_le_add_left hle _)
    rw [dueMs_succ, if_pos hlaunch, ih, ← Nat.succ_mul]

/-- Where they are shorter, it is launched at every tick of the base period. -/
theorem launchMs_of_lt (hadded : p.addedMs = 0) (hinterval : 0 < p.intervalMs)
    (hlt : p.intervalMs < p.periodMs) (n : Nat) : p.launchMs n = (n + 1) * p.periodMs := by
  have hperiod : 0 < p.periodMs := Nat.lt_trans hinterval hlt
  induction n with
  | zero =>
    refine roundUp_eq_of_lt hperiod ?_ ?_ <;> rw [dueMs, hadded] <;> omega
  | succ n ih =>
    have hlow := p.launchMs_lt_dueMs hinterval n
    have hhigh : p.dueMs (n + 1) ≤ p.launchMs n + p.intervalMs := by
      have hle := p.dueMs_le_launchMs hperiod n
      rw [dueMs_succ]
      split <;> omega
    refine roundUp_eq_of_lt hperiod ?_ ?_
    · rw [← ih]
      exact hlow
    · rw [Nat.succ_mul, ← ih]
      omega

/-- **Launches by a time.** A job that was added at the start and runs without a limit is launched
once for each interval, or for each tick of the base period where intervals are shorter, as long as
these are over by the last tick. -/
theorem launchMs_le_iff (hadded : p.addedMs = 0) (hperiod : 0 < p.periodMs)
    (hinterval : 0 < p.intervalMs) (n limit : Nat) : p.launchMs n ≤ limit
      ↔ n < p.periodMs * (limit / p.periodMs) / max p.intervalMs p.periodMs := by
  have hspacing : 0 < max p.intervalMs p.periodMs := by omega
  rw [Nat.lt_iff_add_one_le, Nat.le_div_iff_mul_le hspacing]
  by_cases hle : p.periodMs ≤ p.intervalMs
  · rw [launchMs, roundUp_le_iff hperiod, dueMs_of_le hadded hperiod hle, Nat.max_eq_left hle]
  · have hlt := Nat.lt_of_not_le hle
    rw [launchMs_of_lt hadded hinterval hlt, Nat.max_eq_right (Nat.le_of_lt hlt)]
    constructor
    · intro hcome
      rw [Nat.mul_comm p.periodMs]
      exact Nat.mul_le_mul_right _ ((Nat.le_div_iff_mul_le hperiod).2 hcome)
    · exact fun hcome => Nat.le_trans hcome (Nat.mul_div_le _ _)

end Plan

end TimingWheel
