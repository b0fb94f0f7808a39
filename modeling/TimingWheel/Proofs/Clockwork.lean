import TimingWheel.Proofs.Contents
import TimingWheel.Proofs.Moves
import TimingWheel.Proofs.Plan

/-!
# The clockwork of a timer that misses no tick

A timer that is never stopped and whose clock is moved from one due tick to the next has a state
that its clock alone determines: every wheel stands at the last tick that is due, or one before it
while ticks of the same instant are dealt with.

* **`World.InStep`** — this invariant, about the world between ticks and in the middle of one.
* **`Move.timersStep`**, **`Move.clockworkStep`** — what a move can do to the timers
  (`Moment.TimersStep`) and to the clockwork of the one that is there (`Moment.ClockworkStep`).
* **`World.InStep.aim`** — what it is good for: an entry is put where it is looked at no later than
  at the base tick at which it falls due.
-/

namespace TimingWheel

/-! ## Periods -/

/-- What stays the same about a timer of an accepted shape. -/
structure Clockwork where
  config : TimerConfig
  valid : config.validate = .ok ()
  id : TimerId
  epochUs : Nat

namespace Clockwork

/-- The time of a tick of a level, in milliseconds since the timer was created. -/
def tickMs (k : Clockwork) (level tick : Nat) : Nat := tick * k.config.resolutionMs level

theorem resolutionMs_pos (k : Clockwork) (level : Nat) : 0 < k.config.resolutionMs level :=
  TimerConfig.resolutionMs_pos k.valid level

theorem resolutionMs_mono (k : Clockwork) {level level' : Nat} (h : level ≤ level') :
    k.config.resolutionMs level ≤ k.config.resolutionMs level' :=
  TimerConfig.resolutionMs_mono (TimerConfig.pos_of_validate k.valid).1 h

/-- Every tick is a tick of the finest level, too. -/
theorem dvd_tickMs (k : Clockwork) (level tick : Nat) :
    k.config.intervalMs ∣ k.tickMs level tick := by
  rw [tickMs, TimerConfig.resolutionMs_eq]
  exact Nat.dvd_mul_left_of_dvd (Nat.dvd_mul_right _ _) tick

end Clockwork

/-! ## In step -/

/-- A wheel of a timer that runs for a time and missed no tick. -/
structure Wheel.InStep (wheel : Wheel) (k : Clockwork) (level runUs : Nat) : Prop where
  level_eq : wheel.level = level
  slotCount : wheel.slotCount = k.config.slots
  resolutionMs : wheel.resolutionMs = k.config.resolutionMs level
  served : wheel.served = wheel.ticks
  reached : k.tickMs level wheel.ticks * 1000 ≤ runUs
  ahead : runUs ≤ k.tickMs level (wheel.ticks + 1) * 1000

/-- A timer that runs for a time and missed no tick. -/
structure Timer.InStep (t : Timer) (k : Clockwork) (runUs : Nat) : Prop where
  id_eq : t.id = k.id
  epochUs : t.epochUs = k.epochUs
  running : t.status = .running
  size : t.wheels.size = k.config.levels
  wheel : ∀ {level : Nat} {wheel : Wheel}, t.wheels[level]? = some wheel →
    wheel.InStep k level runUs

/-- How long the timer has run. -/
def World.runUs (w : World) (k : Clockwork) : Nat := w.clockUs - k.epochUs

/-- The timer of the world missed no tick. -/
structure World.InStep (w : World) (k : Clockwork) : Prop where
  begun : k.epochUs ≤ w.clockUs
  timer : ∃ t, w.timer = some t ∧ t.InStep k (w.runUs k)

/-- The timer missed no tick, and the tick in progress falls due now. -/
structure Moment.InStep (m : Moment) (k : Clockwork) : Prop where
  world : m.world.InStep k
  sweep : ∀ {s : Sweep}, m.sweep = some s →
    s.nowMs = m.world.nowMs ∧ m.world.runUs k = k.tickMs s.level s.tick * 1000

/-- Nothing is due: every wheel stands at its last due tick. -/
def World.Settled (w : World) (k : Clockwork) : Prop :=
  ∀ t, w.timer = some t → ∀ level wheel, t.wheels[level]? = some wheel →
    w.runUs k < k.tickMs level (wheel.ticks + 1) * 1000

/-- A timer that runs for a time. Every level is in step with a time of its own, which may be past:
the clock was moved, and the level has not caught up with it yet. -/
structure Timer.Lags (t : Timer) (k : Clockwork) (runUs : Nat) : Prop where
  id_eq : t.id = k.id
  epochUs : t.epochUs = k.epochUs
  running : t.status = .running
  size : t.wheels.size = k.config.levels
  wheel : ∀ {level : Nat} {wheel : Wheel}, t.wheels[level]? = some wheel →
    ∃ us ≤ runUs, wheel.InStep k level us

/-- The timer of the world runs, and its levels may have ticks to make up for. -/
structure World.Lags (w : World) (k : Clockwork) : Prop where
  begun : k.epochUs ≤ w.clockUs
  timer : ∃ t, w.timer = some t ∧ t.Lags k (w.runUs k)

section

variable {k : Clockwork} {w w' : World} {t : Timer} {level : Nat} {wheel : Wheel}

/-- A timer that missed no tick lags behind by nothing. -/
theorem Timer.InStep.lags {runUs : Nat} (h : t.InStep k runUs) : t.Lags k runUs :=
  ⟨h.id_eq, h.epochUs, h.running, h.size, fun hwheel => ⟨runUs, Nat.le_refl _, h.wheel hwheel⟩⟩

theorem World.InStep.lags (h : w.InStep k) : w.Lags k := by
  obtain ⟨t, ht, hstep⟩ := h.timer
  exact ⟨h.begun, t, ht, hstep.lags⟩

/-- The reading of the clock is the time that the timer has run, in whole milliseconds and up to
the ceiling. -/
theorem World.Lags.nowMs (h : w.Lags k) : w.nowMs = min (w.runUs k / 1000) ceiling := by
  obtain ⟨t, ht, hlags⟩ := h.timer
  unfold World.nowMs World.runUs
  simp only [ht, Option.map_some, Option.getD_some, Timer.nowMs, hlags.epochUs]

theorem World.Lags.of_timer (h : w.Lags k) (ht : w.timer = some t) : t.Lags k (w.runUs k) := by
  obtain ⟨t', ht', hlags⟩ := h.timer
  rwa [Option.some.inj (ht.symm.trans ht')]

theorem World.InStep.of_timer (h : w.InStep k) (ht : w.timer = some t) :
    t.InStep k (w.runUs k) := by
  obtain ⟨t', ht', hstep⟩ := h.timer
  rwa [Option.some.inj (ht.symm.trans ht')]

theorem World.InStep.nowMs (h : w.InStep k) : w.nowMs = min (w.runUs k / 1000) ceiling :=
  h.lags.nowMs

/-- What is in step is a matter of the clock and of the wheels without their contents. -/
theorem Wheel.InStep.of_bare {wheel' : Wheel} {runUs : Nat} (h : wheel.InStep k level runUs)
    (hbare : wheel'.bare = wheel.bare) : wheel'.InStep k level runUs := by
  have hlevel : wheel'.level = wheel.level := congrArg (·.level) hbare
  have hcount : wheel'.slotCount = wheel.slotCount := congrArg (·.slotCount) hbare
  have hres : wheel'.resolutionMs = wheel.resolutionMs := congrArg (·.resolutionMs) hbare
  have hticks : wheel'.ticks = wheel.ticks := congrArg (·.ticks) hbare
  have hserved : wheel'.served = wheel.served := congrArg (·.served) hbare
  refine ⟨hlevel.trans h.level_eq, hcount.trans h.slotCount, hres.trans h.resolutionMs, ?_, ?_, ?_⟩
  · rw [hserved, hticks, h.served]
  · rw [hticks]
    exact h.reached
  · rw [hticks]
    exact h.ahead

/-- Timers of one clockwork have the same wheels, but for the contents. -/
theorem Timer.wheel_of_works {t' : Timer} (h : t'.works = t.works) {wheel' : Wheel}
    (hwheel : t'.wheels[level]? = some wheel') :
    ∃ wheel, t.wheels[level]? = some wheel ∧ wheel'.bare = wheel.bare := by
  have hmap : (t'.wheels.map Wheel.bare)[level]? = (t.wheels.map Wheel.bare)[level]? :=
    congrArg (fun works => works.2.2[level]?) h
  rw [Array.getElem?_map, Array.getElem?_map, hwheel] at hmap
  obtain ⟨wheel, hwheel, hbare⟩ := Option.map_eq_some_iff.1 hmap.symm
  exact ⟨wheel, hwheel, hbare.symm⟩

theorem World.Still.runUs (h : w.Still w') (k : Clockwork) : w'.runUs k = w.runUs k := by
  rw [World.runUs, World.runUs, h.clockUs]

/-- Where the world stands still, the timer is there afterwards with the same wheels but for their
contents. -/
theorem World.Still.timer_after (h : w.Still w') (ht : w.timer = some t) :
    ∃ t', w'.timer = some t' ∧ t'.works = t.works ∧ t'.status = t.status := by
  have hworks := h.works
  rw [ht] at hworks
  obtain ⟨t', ht', hsame⟩ := Option.map_eq_some_iff.1 hworks
  obtain ⟨t₀, ht₀, -, hstatus⟩ := h.timer_before ht'
  obtain rfl : t = t₀ := Option.some.inj (ht.symm.trans ht₀)
  exact ⟨t', ht', hsame, hstatus⟩

theorem Timer.size_of_works {t' : Timer} (h : t'.works = t.works) :
    t'.wheels.size = t.wheels.size := by
  have hsize := congrArg (fun works => works.2.2.size) h
  simpa only [Timer.works, Array.size_map] using hsize

theorem World.startTimer_allBodies {p : Action → Prop} (h : w.AllBodies p) (c : TimerConfig) :
    (w.startTimer c).AllBodies p := by
  obtain ⟨journal, -, heq⟩ := w.startTimer_eq c
  rw [heq]
  exact h

/-- A new timer is in step, and nothing is due yet: it has run for no time. -/
theorem World.startTimer_inStep (w : World) {c : TimerConfig} (hc : c.validate = .ok ()) :
    (w.startTimer c).InStep ⟨c, hc, w.timers, w.clockUs⟩
      ∧ (w.startTimer c).Settled ⟨c, hc, w.timers, w.clockUs⟩ := by
  obtain ⟨journal, -, heq⟩ := w.startTimer_eq c
  rw [heq]
  let k : Clockwork := ⟨c, hc, w.timers, w.clockUs⟩
  -- every wheel of a new timer is empty and stands at its start
  have hwheel : ∀ {level : Nat} {wheel : Wheel},
      (Timer.ofConfig w.timers w.clockUs c).wheels[level]? = some wheel →
        wheel = .empty level c.slots (k.config.resolutionMs level) := by
    intro level wheel hget
    rw [Timer.ofConfig_wheel _ _ hc] at hget
    split at hget
    · exact (Option.some.inj hget).symm
    · simp at hget
  have hrun : ∀ timer timers journal,
      ({ w with timer, timers, journal } : World).runUs k = 0 := fun _ _ _ => Nat.sub_self _
  refine ⟨⟨Nat.le_refl _, _, rfl, rfl, rfl, rfl, Timer.size_ofConfig _ _ hc, fun hget => ?_⟩, ?_⟩
  · rw [hwheel hget]
    refine ⟨rfl, rfl, rfl, rfl, ?_, ?_⟩
    · show 0 * k.config.resolutionMs _ * 1000 ≤ _
      omega
    · rw [hrun]
      exact Nat.zero_le _
  · intro t ht level wheel hget
    rw [← Option.some.inj ht] at hget
    rw [hrun, hwheel hget]
    have hpos := k.resolutionMs_pos level
    show 0 < (0 + 1) * k.config.resolutionMs level * 1000
    omega

/-- A closed timer has no next tick. -/
theorem World.earliestTickUs_of_closed (h : ∀ t, w.timer = some t → t.status = .closed) :
    w.timer.bind (·.earliestTickUs?) = none := by
  cases ht : w.timer with
  | none => rfl
  | some t => simp [Timer.earliestTickUs?, h t ht]

end

/-! ## What moves do to the clockwork -/

/-- Whether an action leaves the clock alone and the timer running. -/
def Action.Steady : Action → Prop
  | .jump _ => False
  | .timer c => c = .start
  | _ => True

/-- What a move does to the clockwork where actions are steady and no timer is replaced. -/
inductive Moment.ClockworkStep (law : Law) : Moment → Moment → Prop where
  /-- Nothing, and a tick that is in progress goes on. -/
  | still {m m' : Moment} (world : m.world.Still m'.world) (sweep : ∀ {s'}, m'.sweep = some s' →
      ∃ s, m.sweep = some s ∧ s'.nowMs = s.nowMs ∧ s'.level = s.level ∧ s'.tick = s.tick) :
      ClockworkStep law m m'
  /-- A stopped timer is started. -/
  | resumes {w : World} {t : Timer} {sweep : Option Sweep} {executing : Option EntryId}
      (there : w.timer = some t) (stopped : t.status = .stopped) :
      ClockworkStep law ⟨w, sweep, executing⟩ ⟨w.controlTimer t .start, sweep, executing⟩
  /-- A level of a stopped timer loses a due tick. -/
  | loses {w : World} {level : Nat} {t : Timer} {wheel : Wheel} (allowed : law.ticks)
      (there : w.timer = some t) (stopped : t.status = .stopped)
      (known : t.wheels[level]? = some wheel) (due : 1 ≤ w.overdue level) :
      ClockworkStep law ⟨w, none, none⟩ ⟨w.serve level, none, none⟩
  /-- A level comes to a due tick. -/
  | drains {w : World} {level : Nat} {t : Timer} {wheel : Wheel} (allowed : law.ticks)
      (there : w.timer = some t) (running : t.status = .running)
      (known : t.wheels[level]? = some wheel) (due : 1 ≤ w.overdue level)
      (waiting : List EntryId) :
      ClockworkStep law ⟨w, none, none⟩
        ⟨w.drained level wheel, some ⟨level, wheel.ticks + 1, w.nowMs, waiting, none⟩, none⟩
  /-- The clock is moved. -/
  | waits {w : World} {us : Nat} (allowed : law.waits w us) :
      ClockworkStep law ⟨w, none, none⟩ ⟨{ w with clockUs := us }, none, none⟩

theorem Moment.ClockworkStep.of_sweep {law : Law} {w w' : World} {s s' : Sweep}
    {executing executing' : Option EntryId} (hworld : w.Still w') (hnow : s'.nowMs = s.nowMs)
    (hlevel : s'.level = s.level) (htick : s'.tick = s.tick) :
    Moment.ClockworkStep law ⟨w, some s, executing⟩ ⟨w', some s', executing'⟩ := by
  refine .still hworld fun hs => ?_
  rw [← Option.some.inj hs]
  exact ⟨s, rfl, hnow, hlevel, htick⟩

/-- Where the world stands still, so does the clockwork, whoever executes. -/
theorem World.Still.clockworkStep {law : Law} {w w' : World} (h : w.Still w') (sweep : Option Sweep)
    (executing executing' : Option EntryId) :
    Moment.ClockworkStep law ⟨w, sweep, executing⟩ ⟨w', sweep, executing'⟩ :=
  .still h fun hs => ⟨_, hs, rfl, rfl, rfl⟩

/-- What a steady action does to the clockwork. Only the start of a stopped timer does anything.
-/
theorem World.Performed.clockworkStep {law : Law} {w w' : World} {a : Action} (h : Performed w a w')
    (ha : a.Steady) (sweep : Option Sweep) (executing : Option EntryId) :
    Moment.ClockworkStep law ⟨w, sweep, executing⟩ ⟨w', sweep, executing⟩ := by
  -- most actions leave the clockwork alone
  have hstill : w.Still w' →
      Moment.ClockworkStep law ⟨w, sweep, executing⟩ ⟨w', sweep, executing⟩ :=
    fun h => h.clockworkStep sweep executing executing
  cases h with
  | nothing => exact hstill (.refl w)
  | control handle i e c runTask known plain =>
    exact hstill (control_aside plain runTask w i e).toStill
  | handles => exact hstill ⟨rfl, rfl, rfl⟩
  | schedule handle r delayMs outcomes rounds =>
    obtain ⟨r', task, handles, heq⟩ := w.schedule_eq handle r delayMs { outcomes, rounds }
    rw [heq]
    have hregister := register_aside (w.withJob handle { outcomes, rounds }) r' task
    exact .still ⟨hregister.clockUs, hregister.works, hregister.status⟩
      fun hs => ⟨_, hs, rfl, rfl, rfl⟩
  | timer t c there =>
    obtain rfl : c = .start := ha
    by_cases hstopped : t.status = .stopped
    · exact .resumes there hstopped
    · -- only a stopped timer is started
      have hsame : w.controlTimer t .start = w := by
        unfold controlTimer
        rw [if_neg hstopped]
      rw [hsame]
      exact (World.Still.refl w).clockworkStep sweep executing executing
  | jump us => exact ha.elim
  | hold on => exact hstill ⟨rfl, rfl, rfl⟩
  | coarseFirst on => exact hstill ⟨rfl, rfl, rfl⟩

/-- What a move does to the timers: the clockwork turns, an action that is not steady is performed,
or a timer comes or goes. -/
inductive Moment.TimersStep (law : Law) : Moment → Moment → Prop where
  | clockworkStep {m m' : Moment} (h : m.ClockworkStep law m') : TimersStep law m m'
  | acts {m : Moment} {a : Action} {w' : World} (allowed : law.acts a) (unsteady : ¬ a.Steady)
      (performed : m.world.Performed a w') : TimersStep law m { m with world := w' }
  | creates {w : World} {c : TimerConfig} (allowed : law.replaces) (valid : c.validate = .ok ()) :
      TimersStep law ⟨w, none, none⟩ ⟨w.startTimer c, none, none⟩
  | drops {w : World} (allowed : law.replaces) :
      TimersStep law ⟨w, none, none⟩ ⟨w.dropTimer, none, none⟩

/-- **What a move does to the timers.** -/
theorem Move.timersStep {law : Law} {m m' : Moment} (h : Move law m m') : m.TimersStep law m' := by
  have hsteps : ∀ {world' : World} {executing : Option EntryId}, m.world.Still world' →
      m.TimersStep law ⟨world', m.sweep, executing⟩ :=
    fun hworld => .clockworkStep (hworld.clockworkStep m.sweep m.executing _)
  cases h with
  | act m a runTask allowed plain =>
    have hperformed := World.performed_perform plain runTask m.world
    by_cases hsteady : a.Steady
    · exact .clockworkStep (hperformed.clockworkStep hsteady m.sweep m.executing)
    · exact .acts allowed.self hsteady hperformed
  | byHand m i known => exact hsteps ⟨rfl, rfl, rfl⟩
  | begin m i job label known => exact hsteps ⟨rfl, rfl, rfl⟩
  | conclude m i outcome known => exact hsteps (m.world.conclude_aside i outcome).toStill
  | enroll m i e r job known task there => exact hsteps (m.world.register_aside r _).toStill
  | complete m i inProgress => exact hsteps (m.world.complete_aside i).toStill
  | takeUp w n i allowed held => exact hsteps ⟨rfl, rfl, rfl⟩
  | lose w level t wheel allowed there stopped known due =>
    exact .clockworkStep (.loses allowed there stopped known due)
  | drain w level t wheel allowed there running known due =>
    exact .clockworkStep (.drains allowed there running known due wheel.nextBatch.toList)
  | look w s i rest e next free known rests =>
    have hdispatch := World.dispatch_aside known rests s.level s.tick
    exact .clockworkStep (.of_sweep hdispatch.toStill rfl rfl rfl)
  | overlook w s i rest next free unknown => exact .clockworkStep (.of_sweep (.refl w) rfl rfl rfl)
  | launch w s i rest e e' last next free known runs =>
    have hstill : w.Still (w.launching s i last e') := by
      unfold World.launching
      simp only
      split <;> exact ⟨rfl, rfl, rfl⟩
    exact .clockworkStep (.of_sweep hstill rfl rfl rfl)
  | putBack w s i last current =>
    exact .clockworkStep (.of_sweep (w.puttingBack_aside s.nowMs i last).toStill rfl rfl rfl)
  | done w s empty free => exact .clockworkStep (.still (.refl w) fun hs => by simp at hs)
  | wait w us allowed => exact .clockworkStep (.waits allowed)
  | create w c allowed valid => exact .creates allowed valid
  | drop w allowed => exact .drops allowed
  | warn w reason rejected =>
    exact .clockworkStep (.still (w.log_aside _).toStill fun hs => by simp at hs)

theorem Move.clockworkStep {law : Law} {m m' : Moment} (h : Move law m m')
    (hacts : ∀ a, law.acts a → a.Steady) (hreplaces : ¬ law.replaces) : m.ClockworkStep law m' := by
  cases h.timersStep with
  | clockworkStep h => exact h
  | acts allowed unsteady performed => exact absurd (hacts _ allowed) unsteady
  | creates allowed valid => exact absurd allowed hreplaces
  | drops allowed => exact absurd allowed hreplaces

section

variable {k : Clockwork} {w : World} {t : Timer} {level : Nat} {wheel : Wheel}

/-- What is due of a level is what its counter is behind. -/
theorem World.Lags.overdue (h : w.Lags k) (ht : w.timer = some t)
    (hwheel : t.wheels[level]? = some wheel) :
    w.overdue level = w.runUs k / (k.config.resolutionMs level * 1000) - wheel.ticks := by
  have hlags := h.of_timer ht
  obtain ⟨us, -, hstep⟩ := hlags.wheel hwheel
  unfold World.overdue Timer.ticksBy Timer.periodUs
  simp only [ht, Option.map_some, Option.getD_some, hlags.running, hwheel, hstep.served,
    hstep.resolutionMs, hlags.epochUs]
  rfl

/-- A tick is due exactly if its time has come. -/
theorem World.Lags.due_iff (h : w.Lags k) (ht : w.timer = some t)
    (hwheel : t.wheels[level]? = some wheel) :
    1 ≤ w.overdue level ↔ k.tickMs level (wheel.ticks + 1) * 1000 ≤ w.runUs k := by
  have hpos := k.resolutionMs_pos level
  rw [h.overdue ht hwheel, Clockwork.tickMs, Nat.mul_assoc, ← Nat.le_div_iff_mul_le (by omega)]
  omega

/-- A wheel that comes to its next tick is in step with the time of that tick. -/
theorem Wheel.InStep.comeRound {runUs : Nat} (h : wheel.InStep k level runUs) :
    wheel.comeRound.InStep k level (k.tickMs level (wheel.ticks + 1) * 1000) := by
  refine ⟨h.level_eq, h.slotCount, h.resolutionMs, ?_, Nat.le_refl _, ?_⟩
  · show wheel.served + 1 = wheel.ticks + 1
    rw [h.served]
  · apply Nat.mul_le_mul_right
    apply Nat.mul_le_mul_right
    exact Nat.le_succ _

end

/-! ## Where an entry is put -/

/-- The finest level looks at an entry at the first tick at which it is due, or before. -/
theorem Wheel.ticksAhead_finest {remainingMs resolutionMs : Nat} (h : 0 < remainingMs)
    (hres : 0 < resolutionMs) (slotCount : Nat) :
    ticksAhead 0 remainingMs resolutionMs slotCount * resolutionMs
      ≤ roundUp resolutionMs remainingMs := by
  have hone : 1 ≤ (remainingMs + resolutionMs - 1) / resolutionMs :=
    (Nat.le_div_iff_mul_le hres).2 (by omega)
  unfold ticksAhead roundUp
  apply Nat.mul_le_mul_right
  rw [if_pos rfl]
  exact Nat.max_le.2 ⟨hone, Nat.min_le_left _ _⟩

/-- A coarser level looks at an entry before it is due. -/
theorem Wheel.ticksAhead_coarse {level remainingMs resolutionMs : Nat} (hlevel : level ≠ 0)
    (h : resolutionMs ≤ remainingMs) (hres : 0 < resolutionMs) (slotCount : Nat) :
    ticksAhead level remainingMs resolutionMs slotCount * resolutionMs ≤ remainingMs := by
  have hone : 1 ≤ remainingMs / resolutionMs := (Nat.le_div_iff_mul_le hres).2 (by omega)
  refine Nat.le_trans ?_ (Nat.div_mul_le_self remainingMs resolutionMs)
  unfold ticksAhead
  apply Nat.mul_le_mul_right
  rw [if_neg hlevel]
  exact Nat.max_le.2 ⟨hone, Nat.min_le_left _ _⟩

/-- A wheel that does not stand at a tick that is still to come, the ticks that it has lost counted
in. -/
structure Wheel.Stands (wheel : Wheel) (k : Clockwork) (level lost nowMs : Nat) : Prop where
  level_eq : wheel.level = level
  slotCount : wheel.slotCount = k.config.slots
  resolutionMs : wheel.resolutionMs = k.config.resolutionMs level
  reached : k.tickMs level (wheel.ticks + lost) ≤ nowMs

/-- **An entry is put where it is looked at in time**: no later than at the first base tick at which
it is due, whatever number of ticks each level has lost. -/
theorem Timer.position_le {t : Timer} {k : Clockwork} {lost : Nat → Nat} {nowMs dueMs : Nat}
    (hsize : t.wheels.size = k.config.levels)
    (hstands : ∀ {level : Nat} {wheel : Wheel}, t.wheels[level]? = some wheel →
      wheel.Stands k level (lost level) nowMs) (hwait : nowMs < dueMs) :
    k.tickMs (t.position (dueMs - nowMs)).1
        ((t.position (dueMs - nowMs)).2 + lost (t.position (dueMs - nowMs)).1)
      ≤ roundUp k.config.intervalMs dueMs := by
  obtain ⟨-, hinterval, hlevels⟩ := TimerConfig.pos_of_validate k.valid
  have hsum : nowMs + (dueMs - nowMs) = dueMs := by omega
  have hleft : 0 < dueMs - nowMs := by omega
  generalize dueMs - nowMs = remainingMs at hsum hleft
  have hlevel := t.selectLevel_lt (by rw [hsize]; exact hlevels) remainingMs
  obtain ⟨wheel, hwheel⟩ :
      ∃ wheel, t.wheels[Timer.selectLevel t.wheels remainingMs]? = some wheel :=
    ⟨_, Array.getElem?_eq_getElem hlevel⟩
  have hposition : t.position remainingMs
      = (Timer.selectLevel t.wheels remainingMs, wheel.target remainingMs) := by
    simp only [Timer.position, hwheel, Option.map_some, Option.getD_some]
  rw [hposition]
  have hspan := @Timer.spanMs_lt t remainingMs
  generalize Timer.selectLevel t.wheels remainingMs = level at hlevel hwheel hspan
  have hw := hstands hwheel
  have hres := k.resolutionMs_pos level
  have htick : k.tickMs level (wheel.target remainingMs + lost level)
      = k.tickMs level (wheel.ticks + lost level)
        + Wheel.ticksAhead level remainingMs (k.config.resolutionMs level) k.config.slots
          * k.config.resolutionMs level := by
    rw [Clockwork.tickMs, Clockwork.tickMs, Wheel.target, hw.level_eq, hw.resolutionMs,
      hw.slotCount, ← Nat.add_mul, Nat.add_right_comm]
  show k.tickMs level (wheel.target remainingMs + lost level) ≤ _
  have hreached := hw.reached
  cases level with
  | zero =>
    have hround := Wheel.ticksAhead_finest hleft hres k.config.slots
    have hlt := roundUp_lt hres remainingMs
    apply le_roundUp_of_dvd hinterval (k.dvd_tickMs 0 _)
    rw [htick, ← hsum]
    show _ < nowMs + remainingMs + k.config.resolutionMs 0
    omega
  | succ finer =>
    -- the next finer level is too short for the delay
    obtain ⟨wheel', hwheel'⟩ : ∃ wheel', t.wheels[finer]? = some wheel' :=
      ⟨_, Array.getElem?_eq_getElem (Nat.lt_of_succ_lt hlevel)⟩
    have hw' := hstands hwheel'
    have hle : k.config.resolutionMs (finer + 1) ≤ ceiling :=
      TimerConfig.resolutionMs_le k.valid (by rw [← hsize]; exact Nat.le_of_lt hlevel)
    have hshort : k.config.resolutionMs (finer + 1) < remainingMs := by
      have hlt := hspan (Nat.lt_succ_self finer) hwheel'
      rw [Wheel.spanMs, hw'.resolutionMs, hw'.slotCount] at hlt
      rwa [mulCapped_eq hle] at hlt
    have hcoarse := Wheel.ticksAhead_coarse (Nat.succ_ne_zero finer) (Nat.le_of_lt hshort) hres
      k.config.slots
    apply Nat.le_trans _ (le_roundUp hinterval dueMs)
    rw [htick, ← hsum]
    exact Nat.add_le_add hreached hcoarse

theorem World.aim_eq {w : World} {t : Timer} (ht : w.timer = some t) (remainingMs : Nat) :
    w.aim remainingMs = t.position remainingMs := by
  unfold World.aim
  rw [ht]
  rfl

/-- A level that fell behind looks at an entry earlier than one in step. -/
theorem World.Lags.aim {w : World} {k : Clockwork} (h : w.Lags k) {dueMs : Nat}
    (hwait : w.nowMs < dueMs) (hfits : dueMs ≤ ceiling) :
    k.tickMs (w.aim (dueMs - w.nowMs)).1 (w.aim (dueMs - w.nowMs)).2
      ≤ roundUp k.config.intervalMs dueMs := by
  obtain ⟨t, ht, hlags⟩ := h.timer
  have hnow : w.nowMs = w.runUs k / 1000 := by
    have hcapped := h.nowMs
    omega
  rw [World.aim_eq ht]
  refine @Timer.position_le t k (fun _ => 0) _ _ hlags.size (fun {level wheel} hwheel => ?_) hwait
  obtain ⟨us, hus, hw⟩ := hlags.wheel hwheel
  refine ⟨hw.level_eq, hw.slotCount, hw.resolutionMs, ?_⟩
  rw [hnow, Nat.le_div_iff_mul_le (by decide)]
  exact Nat.le_trans hw.reached hus

/-- **An entry is put where it is looked at in time**, no later than at the base tick at which it
falls due. -/
theorem World.InStep.aim {w : World} {k : Clockwork} (h : w.InStep k) {dueMs : Nat}
    (hwait : w.nowMs < dueMs) (hfits : dueMs ≤ ceiling) :
    k.tickMs (w.aim (dueMs - w.nowMs)).1 (w.aim (dueMs - w.nowMs)).2
      ≤ roundUp k.config.intervalMs dueMs :=
  h.lags.aim hwait hfits

end TimingWheel
