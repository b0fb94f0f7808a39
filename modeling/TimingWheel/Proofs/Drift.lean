import TimingWheel.Proofs.Clockwork

/-!
# Ticks that are lost

A stopped timer goes on counting the ticks that fall due, while its rings stand still. So every
level loses the ticks of its own that fall into a pause, and from then on its ring is behind the
clock by this number of ticks, which is a different one for every level.

* **`World.OnTime`** — every due tick was dealt with when it fell due, turned for or lost. It is
  kept by all that happens (`World.OnTime.clockworkStep`), whether the timer runs or not.
* **`World.Behind`** — the timer runs, and every ring is behind by the ticks that its level has
  lost. A timer that misses no tick is behind by none (`World.inStep_iff`).
* **`Moment.Behind.clockworkStep`** — no more ticks are lost while the timer runs.
-/

namespace TimingWheel

/-- A wheel of which every due tick was dealt with when it fell due. -/
structure Wheel.OnTime (wheel : Wheel) (k : Clockwork) (level runUs : Nat) : Prop where
  level_eq : wheel.level = level
  slotCount : wheel.slotCount = k.config.slots
  resolutionMs : wheel.resolutionMs = k.config.resolutionMs level
  reached : k.tickMs level wheel.served * 1000 ≤ runUs
  ahead : runUs ≤ k.tickMs level (wheel.served + 1) * 1000

/-- A timer, stopped or not, of which every due tick was dealt with when it fell due. -/
structure Timer.OnTime (t : Timer) (k : Clockwork) (runUs : Nat) : Prop where
  id_eq : t.id = k.id
  epochUs : t.epochUs = k.epochUs
  opened : t.status ≠ .closed
  size : t.wheels.size = k.config.levels
  wheel : ∀ {level : Nat} {wheel : Wheel}, t.wheels[level]? = some wheel →
    wheel.OnTime k level runUs

/-- Every due tick of the timer was dealt with when it fell due, turned for or lost. -/
structure World.OnTime (w : World) (k : Clockwork) : Prop where
  begun : k.epochUs ≤ w.clockUs
  timer : ∃ t, w.timer = some t ∧ t.OnTime k (w.runUs k)

/-- The timer runs, and the rings of its levels are behind by the ticks that these have lost. -/
structure World.Behind (w : World) (k : Clockwork) (lost : Nat → Nat) : Prop where
  onTime : w.OnTime k
  running : ∀ {t : Timer}, w.timer = some t → t.status = .running
  served : ∀ {t : Timer} {level : Nat} {wheel : Wheel}, w.timer = some t →
    t.wheels[level]? = some wheel → wheel.served = wheel.ticks + lost level

/-- The rings are behind, and the tick in progress falls due now. -/
structure Moment.Behind (m : Moment) (k : Clockwork) (lost : Nat → Nat) : Prop where
  world : m.world.Behind k lost
  sweep : ∀ {s : Sweep}, m.sweep = some s → s.nowMs = m.world.nowMs
    ∧ m.world.runUs k = k.tickMs s.level (s.tick + lost s.level) * 1000

section

variable {k : Clockwork} {w w' : World} {t : Timer} {level : Nat} {wheel : Wheel}

theorem World.OnTime.of_timer (h : w.OnTime k) (ht : w.timer = some t) :
    t.OnTime k (w.runUs k) := by
  obtain ⟨t', ht', honTime⟩ := h.timer
  rwa [Option.some.inj (ht.symm.trans ht')]

/-- The reading of the clock is the time that has passed since the timer was created, stopped or
not. -/
theorem World.OnTime.nowMs (h : w.OnTime k) : w.nowMs = min (w.runUs k / 1000) ceiling := by
  obtain ⟨t, ht, honTime⟩ := h.timer
  unfold World.nowMs World.runUs
  simp only [ht, Option.map_some, Option.getD_some, Timer.nowMs, honTime.epochUs]

/-- A timer that misses no tick is one that runs and has lost none. -/
theorem World.inStep_iff : w.InStep k ↔ w.Behind k (fun _ => 0) := by
  constructor
  · intro h
    have hwheel : ∀ {t : Timer} {level : Nat} {wheel : Wheel}, w.timer = some t →
        t.wheels[level]? = some wheel → wheel.served = wheel.ticks :=
      fun ht hwheel => ((h.of_timer ht).wheel hwheel).served
    obtain ⟨t, ht, hstep⟩ := h.timer
    refine ⟨⟨h.begun, t, ht, hstep.id_eq, hstep.epochUs, by rw [hstep.running]; decide, hstep.size,
      fun {level wheel} hget => ?_⟩, fun ht' => (h.of_timer ht').running, hwheel⟩
    have hw := hstep.wheel hget
    have hserved := hwheel ht hget
    exact ⟨hw.level_eq, hw.slotCount, hw.resolutionMs, hserved ▸ hw.reached, hserved ▸ hw.ahead⟩
  · intro h
    obtain ⟨t, ht, honTime⟩ := h.onTime.timer
    refine ⟨h.onTime.begun, t, ht, honTime.id_eq, honTime.epochUs, h.running ht, honTime.size,
      fun {level wheel} hget => ?_⟩
    have hw := honTime.wheel hget
    have hserved : wheel.served = wheel.ticks := h.served ht hget
    exact ⟨hw.level_eq, hw.slotCount, hw.resolutionMs, hserved, hserved ▸ hw.reached,
      hserved ▸ hw.ahead⟩

theorem World.InStep.behind (h : w.InStep k) : w.Behind k (fun _ => 0) := World.inStep_iff.1 h

/-- A timer that missed no tick dealt with all of them when they fell due. -/
theorem World.InStep.onTime (h : w.InStep k) : w.OnTime k := h.behind.onTime

/-- In the middle of a tick, too, to miss no tick is to have lost none. -/
theorem Moment.inStep_iff {m : Moment} : m.InStep k ↔ m.Behind k (fun _ => 0) :=
  ⟨fun h => ⟨h.world.behind, h.sweep⟩, fun h => ⟨World.inStep_iff.2 h.world, h.sweep⟩⟩

/-! ## The next tick -/

/-- The next tick of a level falls due one period after the last one that was dealt with, whether
that was turned for or lost. -/
theorem Timer.OnTime.nextTickUs {runUs : Nat} (h : t.OnTime k runUs)
    (hwheel : t.wheels[level]? = some wheel) :
    t.nextTickUs wheel = k.epochUs + k.tickMs level (wheel.served + 1) * 1000 := by
  rw [Timer.nextTickUs, Timer.periodUs, h.epochUs, (h.wheel hwheel).resolutionMs, Clockwork.tickMs,
    Nat.mul_assoc]

/-- A tick is due exactly if its time has come. -/
theorem World.OnTime.due_iff (h : w.OnTime k) (ht : w.timer = some t)
    (hwheel : t.wheels[level]? = some wheel) :
    1 ≤ w.overdue level ↔ k.tickMs level (wheel.served + 1) * 1000 ≤ w.runUs k := by
  have honTime := h.of_timer ht
  have hpos := k.resolutionMs_pos level
  have hoverdue :
      w.overdue level = w.runUs k / (k.config.resolutionMs level * 1000) - wheel.served := by
    unfold World.overdue Timer.ticksBy Timer.periodUs
    simp only [ht, Option.map_some, Option.getD_some, if_neg honTime.opened, hwheel,
      (honTime.wheel hwheel).resolutionMs, honTime.epochUs]
    rfl
  rw [hoverdue, Clockwork.tickMs, Nat.mul_assoc, ← Nat.le_div_iff_mul_le (by omega)]
  omega

/-- A tick that is due falls due now. -/
theorem World.OnTime.due_now (h : w.OnTime k) (ht : w.timer = some t)
    (hwheel : t.wheels[level]? = some wheel) (due : 1 ≤ w.overdue level) :
    w.runUs k = k.tickMs level (wheel.served + 1) * 1000 :=
  Nat.le_antisymm ((h.of_timer ht).wheel hwheel).ahead ((h.due_iff ht hwheel).1 due)

/-! ## What keeps the count -/

/-- What is on time is a matter of the clock and of the clockwork. -/
theorem World.OnTime.of_works (h : w.OnTime k) (hclock : w'.clockUs = w.clockUs)
    (hworks : w'.timer.map Timer.works = w.timer.map Timer.works)
    (hopened : ∀ t, w'.timer = some t → t.status ≠ .closed) : w'.OnTime k := by
  obtain ⟨t, ht, honTime⟩ := h.timer
  rw [ht] at hworks
  obtain ⟨t', ht', hsame⟩ := Option.map_eq_some_iff.1 hworks
  refine ⟨by rw [hclock]; exact h.begun, t', ht', ?_⟩
  rw [World.runUs, hclock]
  refine ⟨(congrArg (·.1) hsame).trans honTime.id_eq,
    (congrArg (·.2.1) hsame).trans honTime.epochUs, hopened t' ht',
    (Timer.size_of_works hsame).trans honTime.size, fun {level wheel'} hwheel' => ?_⟩
  obtain ⟨wheel, hwheel, hbare⟩ := Timer.wheel_of_works hsame hwheel'
  have hw := honTime.wheel hwheel
  have hserved : wheel'.served = wheel.served := congrArg (·.served) hbare
  exact ⟨(congrArg (·.level) hbare).trans hw.level_eq,
    (congrArg (·.slotCount) hbare).trans hw.slotCount,
    (congrArg (·.resolutionMs) hbare).trans hw.resolutionMs,
    by rw [hserved]; exact hw.reached, by rw [hserved]; exact hw.ahead⟩

/-- To stop or start the timer makes no tick late. -/
theorem World.OnTime.of_status (h : w.OnTime k) (ht : w.timer = some t) {status : TimerStatus}
    (hopened : status ≠ .closed) (journal : List Event) :
    World.OnTime { w with timer := some { t with status }, journal } k := by
  refine h.of_works rfl ?_ fun t' ht' => ?_
  · rw [ht]
    rfl
  · rw [← Option.some.inj ht']
    exact hopened

/-- What it means to start a stopped timer. -/
theorem World.controlTimer_start (ht : w.timer = some t) (stopped : t.status = .stopped) :
    ∃ journal, w.Quiet journal ∧ w.controlTimer t .start
      = { w with timer := some { t with status := .running }, journal } := by
  unfold World.controlTimer
  simp only [if_pos stopped, World.modifyTimer_eq, ht]
  exact ⟨_, w.quiet_log rfl, rfl⟩

/-- What it means to stop a running timer. -/
theorem World.controlTimer_stop (ht : w.timer = some t) (running : t.status = .running) :
    ∃ journal, w.Quiet journal ∧ w.controlTimer t .stop
      = { w with timer := some { t with status := .stopped }, journal } := by
  unfold World.controlTimer
  simp only [if_pos running, World.modifyTimer_eq, ht]
  exact ⟨_, w.quiet_log rfl, rfl⟩

/-- The clock may be moved up to the next due tick. -/
theorem World.OnTime.wait (h : w.OnTime k) {us : Nat} (hus : w.clockUs ≤ us)
    (hnext : ∀ t, w.timer = some t → ∀ wheel ∈ t.wheels, us ≤ t.nextTickUs wheel) :
    World.OnTime { w with clockUs := us } k := by
  obtain ⟨t, ht, honTime⟩ := h.timer
  refine ⟨Nat.le_trans h.begun hus, t, ht, honTime.id_eq, honTime.epochUs, honTime.opened,
    honTime.size, fun {level wheel} hwheel => ?_⟩
  have hw := honTime.wheel hwheel
  have hreached := hw.reached
  have hle := hnext t ht wheel (Array.mem_of_getElem? hwheel)
  rw [honTime.nextTickUs hwheel] at hle
  refine ⟨hw.level_eq, hw.slotCount, hw.resolutionMs, ?_, ?_⟩
  · show _ ≤ us - k.epochUs
    rw [World.runUs] at hreached
    omega
  · show us - k.epochUs ≤ _
    omega

/-- A level that deals with a due tick, by turning or by losing it, has dealt with it in time. -/
theorem World.OnTime.counts (h : w.OnTime k) (ht : w.timer = some t)
    (hwheel : t.wheels[level]? = some wheel) (due : 1 ≤ w.overdue level) {f : Wheel → Wheel}
    (hframe : ∀ wheel, ((f wheel).level, (f wheel).slotCount, (f wheel).resolutionMs)
      = (wheel.level, wheel.slotCount, wheel.resolutionMs))
    (hserved : ∀ wheel, (f wheel).served = wheel.served + 1) (hclock : w'.clockUs = w.clockUs)
    (ht' : w'.timer = some (t.modifyWheel level f)) : w'.OnTime k := by
  have hnow := h.due_now ht hwheel due
  have honTime := h.of_timer ht
  refine ⟨by rw [hclock]; exact h.begun, _, ht', honTime.id_eq, honTime.epochUs, honTime.opened,
    Array.size_modify.trans honTime.size, fun {level' wheel'} hget => ?_⟩
  rw [World.runUs, hclock]
  simp only [Timer.modifyWheel, Array.getElem?_modify] at hget
  -- the wheel that served one more of its ticks, and all the others
  split at hget
  · next hlevel =>
    subst hlevel
    rw [hwheel, Option.map_some, Option.some.injEq] at hget
    subst hget
    have hw := honTime.wheel hwheel
    have hsame := hframe wheel
    simp only [Prod.mk.injEq] at hsame
    obtain ⟨hlevel, hcount, hres⟩ := hsame
    refine ⟨hlevel.trans hw.level_eq, hcount.trans hw.slotCount, hres.trans hw.resolutionMs, ?_, ?_⟩
    · rw [hserved]
      exact Nat.le_of_eq hnow.symm
    · rw [hserved]
      refine Nat.le_trans (Nat.le_of_eq hnow) (Nat.mul_le_mul_right _ ?_)
      exact Nat.mul_le_mul_right _ (Nat.le_succ _)
  · exact honTime.wheel hget

/-- A due tick that is lost is dealt with. -/
theorem World.OnTime.serve (h : w.OnTime k) (ht : w.timer = some t)
    (hwheel : t.wheels[level]? = some wheel) (due : 1 ≤ w.overdue level) :
    (w.serve level).OnTime k := by
  refine h.counts ht hwheel due (f := fun wheel => { wheel with served := wheel.served + 1 })
    (fun _ => rfl) (fun _ => rfl) ?_ ?_ <;> rw [World.serve_eq]
  rw [ht]
  rfl

/-- A due tick that drains its slot is dealt with. -/
theorem World.OnTime.drained (h : w.OnTime k) (ht : w.timer = some t)
    (hwheel : t.wheels[level]? = some wheel) (due : 1 ≤ w.overdue level) :
    (w.drained level wheel).OnTime k := by
  obtain ⟨journal, -, heq⟩ := w.drained_eq level wheel
  refine h.counts ht hwheel due (f := Wheel.comeRound) (fun _ => rfl) (fun _ => rfl) ?_ ?_ <;>
    rw [heq]
  rw [ht]
  rfl

end

/-- **Steps of the clockwork keep it on time**, whether the timer runs or not. -/
theorem World.OnTime.clockworkStep {k : Clockwork} {law : Law} {m m' : Moment}
    (hm : m.world.OnTime k) (h : m.ClockworkStep law m')
    (hwaits : ∀ {w us}, law.waits w us → w.clockUs ≤ us ∧
      ∀ t, w.timer = some t → ∀ wheel ∈ t.wheels, us ≤ t.nextTickUs wheel) :
    m'.world.OnTime k := by
  cases h with
  | still world sweep =>
    refine hm.of_works world.clockUs world.works fun t' ht' => ?_
    obtain ⟨t, ht, -, hstatus⟩ := world.timer_before ht'
    rw [hstatus]
    exact (hm.of_timer ht).opened
  | @resumes w t sweep executing there stopped =>
    obtain ⟨journal, -, heq⟩ := w.controlTimer_start there stopped
    rw [heq]
    exact hm.of_status there (by decide) journal
  | loses allowed there stopped known due => exact hm.serve there known due
  | drains allowed there running known due waiting => exact hm.drained there known due
  | waits allowed =>
    obtain ⟨hclock, hnext⟩ := hwaits allowed
    exact hm.wait hclock hnext

/-- **No tick is lost while the timer runs.** -/
theorem Moment.Behind.clockworkStep {k : Clockwork} {lost : Nat → Nat} {law : Law} {m m' : Moment}
    (hm : m.Behind k lost) (h : m.ClockworkStep law m')
    (hwaits : ∀ {w us}, law.waits w us → w.clockUs ≤ us ∧
      ∀ t, w.timer = some t → ∀ wheel ∈ t.wheels, us ≤ t.nextTickUs wheel) : m'.Behind k lost := by
  have honTime := hm.world.onTime.clockworkStep h hwaits
  cases h with
  | still world sweep =>
    refine ⟨⟨honTime, fun ht' => ?_, fun {t' level wheel'} ht' hwheel' => ?_⟩, fun hs' => ?_⟩
    · obtain ⟨t, ht, -, hstatus⟩ := world.timer_before ht'
      exact hstatus.trans (hm.world.running ht)
    · obtain ⟨t, ht, hsame, -⟩ := world.timer_before ht'
      obtain ⟨wheel, hwheel, hbare⟩ := Timer.wheel_of_works hsame hwheel'
      have hserved : wheel'.served = wheel.served := congrArg (·.served) hbare
      have hticks : wheel'.ticks = wheel.ticks := congrArg (·.ticks) hbare
      rw [hserved, hticks]
      exact hm.world.served ht hwheel
    · obtain ⟨s, hs, hnow, hlevel, htick⟩ := sweep hs'
      rw [hnow, hlevel, htick, world.nowMs, world.runUs]
      -- the timer is not stopped, so no tick is lost on the way
      exact hm.sweep hs
  | resumes there stopped =>
    rw [hm.world.running there] at stopped
    exact absurd stopped (by decide)
  | loses allowed there stopped known due =>
    rw [hm.world.running there] at stopped
    exact absurd stopped (by decide)
  | @drains w level t wheel allowed there running known due waiting =>
    have hserved := hm.world.served there known
    obtain ⟨journal, -, heq⟩ := w.drained_eq level wheel
    have htimer : (w.drained level wheel).timer = some (t.modifyWheel level Wheel.comeRound) := by
      rw [heq, there]
      rfl
    refine ⟨⟨honTime, fun ht' => ?_, fun {t' level' wheel'} ht' hget => ?_⟩, fun hs' => ?_⟩
    -- the wheel that turned has come round once more and served one more
    · rw [← Option.some.inj (htimer.symm.trans ht')]
      exact running
    · rw [← Option.some.inj (htimer.symm.trans ht')] at hget
      simp only [Timer.modifyWheel, Array.getElem?_modify] at hget
      split at hget
      · next hlevel =>
        subst hlevel
        rw [known, Option.map_some, Option.some.injEq] at hget
        subst hget
        show wheel.served + 1 = wheel.ticks + 1 + lost level
        omega
      · exact hm.world.served there hget
    · rw [← Option.some.inj hs']
      have hnow := hm.world.onTime.due_now there known due
      rw [heq]
      refine ⟨?_, ?_⟩
      · simp only [World.nowMs, there]
        rfl
      · show w.runUs k = k.tickMs level (wheel.ticks + 1 + lost level) * 1000
        rw [hnow, hserved, Nat.add_right_comm]
  | waits allowed =>
    exact ⟨⟨honTime, hm.world.running, hm.world.served⟩, fun hs' => by simp at hs'⟩

/-- **Steps of the clockwork keep it in step.** -/
theorem Moment.InStep.clockworkStep {k : Clockwork} {law : Law} {m m' : Moment} (hm : m.InStep k)
    (h : m.ClockworkStep law m')
    (hwaits : ∀ {w us}, law.waits w us → w.clockUs ≤ us ∧
      ∀ t, w.timer = some t → ∀ wheel ∈ t.wheels, us ≤ t.nextTickUs wheel) : m'.InStep k :=
  Moment.inStep_iff.2 ((Moment.inStep_iff.1 hm).clockworkStep h hwaits)

/-- **An entry is put where it is looked at in time**, however many ticks each level has lost. -/
theorem World.Behind.aim {w : World} {k : Clockwork} {lost : Nat → Nat} (h : w.Behind k lost)
    {dueMs : Nat} (hwait : w.nowMs < dueMs) (hfits : dueMs ≤ ceiling) :
    k.tickMs (w.aim (dueMs - w.nowMs)).1
        ((w.aim (dueMs - w.nowMs)).2 + lost (w.aim (dueMs - w.nowMs)).1)
      ≤ roundUp k.config.intervalMs dueMs := by
  obtain ⟨t, ht, honTime⟩ := h.onTime.timer
  have hnow : w.nowMs = w.runUs k / 1000 := by
    have hcapped := h.onTime.nowMs
    omega
  rw [World.aim_eq ht]
  refine t.position_le honTime.size (fun {level wheel} hwheel => ?_) hwait
  have hw := honTime.wheel hwheel
  refine ⟨hw.level_eq, hw.slotCount, hw.resolutionMs, ?_⟩
  rw [← h.served ht hwheel, hnow, Nat.le_div_iff_mul_le (by decide)]
  exact hw.reached

end TimingWheel
