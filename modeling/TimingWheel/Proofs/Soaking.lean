import TimingWheel.Program
import TimingWheel.Proofs.Ownership
import TimingWheel.Proofs.Pursuit
import TimingWheel.Proofs.Tally

/-!
# What a soak reports

A soak is over when every job has been launched as often as its plan says, each launch has started
the body once, and the wheels still own every entry. Its jobs are equal, so the report is a matter
of one plan: one launch for each interval, or for each tick of the base period where intervals are
shorter than that.

* **`Soak.Loaded`** — what is known while the jobs are put on the timer.
* **`soak_report`** — what the report says.
-/

namespace TimingWheel

/-! ## Putting the jobs on the timer -/

namespace Soak

/-- What a naive scheduler makes of every job of a soak. -/
def plan (s : Soak) (c : TimerConfig) : Plan := ⟨c.intervalMs, 0, s.intervalMs, .unlimited⟩

/-- The jobs of a soak have runs without limit, so they are ready when they are added. -/
theorem initialStatus_registration (s : Soak) : s.registration.initialStatus = .ready := by
  unfold registration
  split <;> rfl

/-- A number of jobs have been put on the timer, which has not run yet. -/
structure Loaded (a : Assignment) (n : Nat) (w : World) : Prop where
  steady : w.Steady a.clockwork
  settled : w.Settled a.clockwork
  arises : Moment.Arises ⟨w, none, none⟩
  begun : w.clockUs = a.clockwork.epochUs
  tallies : w.Tallies n
  size : w.entries.size = n
  pursues : ∀ {i : EntryId}, i < n → Moment.Pursues a i [] ⟨w, none, none⟩

variable {s : Soak} {a : Assignment} {n : Nat} {w : World}

theorem Loaded.nowMs (h : Loaded a n w) : w.nowMs = 0 := by
  rw [h.steady.inStep.nowMs, World.runUs, h.begun, Nat.sub_self]
  rfl

theorem Loaded.start {c : TimerConfig} {hc : c.validate = .ok ()}
    (ha : a.clockwork = ⟨c, hc, 0, 0⟩) : Loaded a 0 (started c) := by
  obtain ⟨journal, -, heq⟩ := World.startTimer_eq {} c
  unfold started
  refine ⟨?_, ?_, (Moment.Arises.start 3).tail (.create {} c trivial hc), ?_, ?_, ?_,
    fun hi => absurd hi (Nat.not_lt_zero _)⟩
  · rw [ha]
    exact World.startTimer_steady hc fun j hj => by simp at hj
  · rw [ha]
    exact (World.startTimer_inStep {} hc).2
  · rw [heq, ha]
  · rw [heq]
    exact ⟨rfl, rfl, rfl, rfl, fun he => by simp at he⟩
  · rw [heq]
    rfl

/-- One more job is put on the timer. -/
theorem Loaded.schedule (h : Loaded a n w) (hplan : a.plan = s.plan a.clockwork.config) :
    Loaded a (n + 1) (w.schedule "soak" s.registration none {}) := by
  have hinterval : s.registration.intervalMs = s.intervalMs := by
    unfold registration
    split <;> rfl
  have hruns : s.registration.runs = .unlimited := by
    unfold registration
    split <;> rfl
  have hheld (i : EntryId) : ∀ j ∈ w.held, j ≠ i := by simp [h.tallies.held]
  have hscript : ({} : Script).All Action.Steady := trivial
  have hmoves (i : EntryId) := h.steady.schedule h.settled (hheld i) "soak" s.registration hscript
  have hsteady := h.steady.moves (hmoves 0).1
  have hnew : w.history n = [] := by
    have hblank := h.arises.blank.history
    rwa [h.size] at hblank
  obtain ⟨htallies, hcount⟩ := h.tallies.schedule h.size hnew "soak" s.registration
  have hclock : (w.schedule "soak" s.registration none {}).clockUs = w.clockUs :=
    (World.register_aside (w.withJob "soak" {}) s.registration _).clockUs
  have harises := h.arises.trans (Moves.free (hmoves 0).1)
  refine ⟨hsteady, (hmoves 0).2, harises, hclock.trans h.begun, htallies, hcount,
    fun {i} hi => ?_⟩
  rcases Nat.lt_succ_iff_lt_or_eq.1 hi with hbefore | rfl
  · -- no time has passed
    refine Moves.pursues (hmoves i).1 h.arises (h.steady.inStep.moment none) ?_ (h.pursues hbefore)
    show World.nowMs _ < ceiling
    rw [hsteady.inStep.nowMs, World.runUs, hclock, h.begun, Nat.sub_self]
    decide
  · obtain ⟨⟨v, hv, hstart⟩, -⟩ := World.schedule_atStart (a := a) h.arises h.steady.inStep
      s.initialStatus_registration (by rw [hplan, h.nowMs, hinterval, hruns]; rfl) "soak" {}
    rw [h.size] at hv
    have hready : v.entry.status ≠ .reset := by
      rw [hstart.ready]
      decide
    refine View.AtStart.pursues hv (List.append_nil v.history).symm ?_
    rw [View.since_of_ne hready]
    exact hstart

/-- Each job of a soak makes the timer loaded with one more, by induction on the jobs. -/
theorem Loaded.all (hplan : a.plan = s.plan a.clockwork.config) (jobs : Nat) :
    ∀ {n : Nat} {w : World}, Loaded a n w → Loaded a (n + jobs) (s.schedule jobs w) := by
  induction jobs with
  | zero => exact fun h => h
  | succ jobs ih =>
    intro n w h
    have hrest := ih (h.schedule hplan)
    rw [Nat.add_assoc, Nat.add_comm 1] at hrest
    exact hrest

/-! ## When the time is up -/

/-- A number of jobs ran on the timer for a time. -/
structure Finished (a : Assignment) (n ms : Nat) (w : World) : Prop where
  steady : w.Steady a.clockwork
  settled : w.Settled a.clockwork
  arises : Moment.Arises ⟨w, none, none⟩
  runUs : w.runUs a.clockwork = ms * 1000
  tallies : w.Tallies n
  size : w.entries.size = n
  pursues : ∀ {i : EntryId}, i < n → Moment.Pursues a i [] ⟨w, none, none⟩

/-- A loaded timer that is advanced for some time has finished for that time. -/
theorem Loaded.finish (h : Loaded a n w) {ms : Nat} (htime : ms < ceiling) :
    Finished a n ms (w.advance (ms * 1000)) := by
  have hmoves (i : EntryId) := h.steady.advance (· ≠ i) (ms * 1000)
  have hsteady := h.steady.moves (hmoves 0).1
  have hrun : (w.advance (ms * 1000)).runUs a.clockwork = ms * 1000 := by
    rw [World.runUs, h.steady.timely.clockUs_advance, h.begun, Nat.add_sub_cancel_left]
  have htallies := (World.Tallies.kept n).advance h.tallies (ms * 1000)
  refine ⟨hsteady, (hmoves 0).2, h.arises.trans (Moves.free (hmoves 0).1), hrun, htallies, ?_,
    fun {i} hi => ?_⟩
  · have hle := Moves.size_le (hmoves 0).1
    rw [h.size] at hle
    exact Nat.le_antisymm htallies.size_le hle
  · refine Moves.pursues (hmoves i).1 h.arises (h.steady.inStep.moment none) ?_ (h.pursues hi)
    show World.nowMs _ < ceiling
    rw [hsteady.inStep.nowMs, hrun]
    omega

/-- The clock tells that the whole time has passed. -/
theorem Finished.elapsed {ms : Nat} (h : Finished a n ms w) (htime : ms ≤ ceiling) {w₀ : World}
    (hbegun : w₀.clockUs = a.clockwork.epochUs) : (elapsed w₀ w).millis = ms := by
  have hclock : w.clockUs - w₀.clockUs = ms * 1000 := by
    rw [hbegun]
    exact h.runUs
  unfold Soak.elapsed
  rw [hclock, Duration.millis_ofMicros, Nat.mul_div_cancel _ (by decide)]
  exact Nat.min_eq_left htime

/-- Every job was launched and its body started as often as its plan has launches by then, and the
wheels own its entry. -/
theorem Finished.each {ms : Nat} (h : Finished a n ms w) (htime : ms < ceiling)
    (hplan : a.plan = s.plan a.clockwork.config) {i : EntryId} (hi : i < n) :
    (∃ e, w.entries[i]? = some e ∧ e.owner = a.clockwork.id ∧ e.installed = true)
    ∧ ∃ job, w.jobs[i]? = some job ∧ job.starts
        = a.clockwork.config.intervalMs * (ms / a.clockwork.config.intervalMs)
          / max s.intervalMs a.clockwork.config.intervalMs := by
  have hclock : w.nowMs < ceiling := by
    rw [h.steady.inStep.nowMs, h.runUs]
    omega
  have hlt : i < w.entries.size := by rw [h.size]; exact hi
  have htallies := h.tallies.each (Array.getElem?_eq_getElem hlt)
  obtain ⟨e, launches, he, howner, htimes, hcount, howned, -⟩ := (h.pursues hi).outcome
    h.steady.inStep h.settled h.arises.custody hclock (by rw [h.tallies.held]; simp)
    (List.append_nil _).symm htallies.calm
  have hall (p : Nat) : a.plan.runs.Allows p := by
    rw [hplan]
    trivial
  refine ⟨⟨e, he, howner, howned (hall launches)⟩, ?_⟩
  obtain ⟨job, hjob, -, hstarts⟩ := htallies.job
  refine ⟨job, hjob, ?_⟩
  rw [hstarts, htimes, List.length_map, List.length_range]
  -- both numbers bound the same launches
  have hiff (p : Nat) : p < launches ↔ p < a.clockwork.config.intervalMs
      * (ms / a.clockwork.config.intervalMs) / max s.intervalMs a.clockwork.config.intervalMs := by
    have hperiod := a.period_pos
    have hinterval := a.interval_pos
    rw [hcount, and_iff_right (hall p), h.runUs]
    rw [hplan] at hperiod hinterval ⊢
    rw [Nat.mul_le_mul_right_iff (by decide)]
    exact Plan.launchMs_le_iff rfl hperiod hinterval p ms
  apply Nat.le_antisymm
  · exact Nat.le_of_not_lt fun hmore => Nat.lt_irrefl _ ((hiff _).1 hmore)
  · exact Nat.le_of_not_lt fun hmore => Nat.lt_irrefl _ ((hiff _).2 hmore)

/-- The sum over members that are all the same. -/
theorem total_eq_mul {l : List Nat} {n : Nat} (h : ∀ m ∈ l, m = n) : total l = l.length * n := by
  induction l with
  | nil => exact (Nat.zero_mul n).symm
  | cons m rest ih =>
    obtain ⟨rfl, hrest⟩ := List.forall_mem_cons.1 h
    rw [total, ih hrest, List.length_cons, Nat.succ_mul, Nat.add_comm]

/-- Every job has launched once for each of its periods, so together they have started as often as
that, times the number of jobs. -/
theorem Finished.starts {ms : Nat} (h : Finished a n ms w) (htime : ms < ceiling)
    (hplan : a.plan = s.plan a.clockwork.config) : w.starts
      = n * (a.clockwork.config.intervalMs * (ms / a.clockwork.config.intervalMs)
          / max s.intervalMs a.clockwork.config.intervalMs) := by
  unfold World.starts
  rw [total_eq_mul, List.length_map, Array.length_toList, h.tallies.size]
  intro count hcount
  obtain ⟨job, hmem, rfl⟩ := List.mem_map.1 hcount
  obtain ⟨i, hlt, rfl⟩ := Array.mem_iff_getElem.1 (Array.mem_toList_iff.1 hmem)
  obtain ⟨-, job, hjob, hstarts⟩ := h.each htime hplan (h.tallies.size ▸ hlt)
  rw [Array.getElem?_eq_getElem hlt, Option.some.injEq] at hjob
  rw [hjob, hstarts]

/-- Every entry waits in a slot of the timer. -/
theorem Finished.pending {ms : Nat} (h : Finished a n ms w) (htime : ms < ceiling)
    (hplan : a.plan = s.plan a.clockwork.config) {t : Timer} (ht : w.timer = some t) :
    t.stats.pending = n := by
  have hholds := (h.arises.custody.keeps ht).holdsOnce.pending
  have hid := (h.steady.inStep.of_timer ht).id_eq
  have hall : (w.entries.countP fun e => e.owner == t.id && e.installed) = w.entries.size := by
    rw [Array.countP_eq_size]
    intro e hmem
    obtain ⟨i, hlt, rfl⟩ := Array.mem_iff_getElem.1 hmem
    obtain ⟨⟨e, he, howner, howned⟩, -⟩ := h.each htime hplan (h.size ▸ hlt)
    rw [Array.getElem?_eq_getElem hlt, Option.some.injEq] at he
    simp [he, howner, howned, hid]
  rw [hall, h.size] at hholds
  exact hholds

/-- Every wheel stands at the last of its ticks that fell due. -/
theorem Finished.levels {ms : Nat} (h : Finished a n ms w) {t : Timer} (ht : w.timer = some t)
    {level : Nat} {stats : LevelStats} (hstats : t.stats.levels[level]? = some stats) :
    stats.level = level
    ∧ stats.resolutionMs = a.clockwork.config.intervalMs * Nat.pow a.clockwork.config.slots level
    ∧ stats.ticks
      = ms / (a.clockwork.config.intervalMs * Nat.pow a.clockwork.config.slots level) := by
  simp only [Timer.stats, List.getElem?_map, Array.getElem?_toList] at hstats
  obtain ⟨wheel, hwheel, rfl⟩ := Option.map_eq_some_iff.1 hstats
  have hstep := (h.steady.inStep.of_timer ht).wheel hwheel
  have hnext := h.settled t ht level wheel hwheel
  have hreached := hstep.reached
  have hpos := a.clockwork.resolutionMs_pos level
  rw [h.runUs, Nat.mul_le_mul_right_iff (by decide)] at hreached
  rw [h.runUs, Nat.mul_lt_mul_right (by decide)] at hnext
  rw [← a.clockwork.config.resolutionMs_eq]
  refine ⟨hstep.level_eq, hstep.resolutionMs, ?_⟩
  apply Nat.le_antisymm
  · exact (Nat.le_div_iff_mul_le hpos).2 hreached
  · exact Nat.le_of_lt_succ ((Nat.div_lt_iff_lt_mul hpos).2 hnext)

end Soak

/-- **What a soak reports.** For every accepted shape of the timer and every load whose interval is
at least a millisecond, as long as its time and the number of expected executions are counts, a soak
comes to a report. The jobs were executed once for each interval, or for each tick of the finest
level where intervals are shorter, as long as these were over by the last of its ticks. That is
never more often than expected, which is once for each whole interval. The timer runs, each level
has seen the ticks that fell due, and the slots hold every job. -/
theorem soak_report {c : TimerConfig} (hc : c.validate = .ok ()) {load : Soak}
    (hinterval : 1 ≤ load.intervalMs) (htime : load.seconds * 1000 ≤ ceiling)
    (hexpected : load.jobs * (load.seconds * 1000 / load.intervalMs) ≤ ceiling) :
    ∃ report, Program.soak c load = .ok report
      ∧ report.elapsedMs = load.seconds * 1000
      ∧ report.executions = load.jobs * (c.intervalMs * (load.seconds * 1000 / c.intervalMs)
          / max load.intervalMs c.intervalMs)
      ∧ report.expected = load.jobs * (load.seconds * 1000 / load.intervalMs)
      ∧ report.executions ≤ report.expected
      ∧ report.stats.status = .running
      ∧ report.stats.levels.length = c.levels
      ∧ (∀ level stats, report.stats.levels[level]? = some stats → stats.level = level
          ∧ stats.resolutionMs = c.intervalMs * Nat.pow c.slots level
          ∧ stats.ticks = load.seconds * 1000 / (c.intervalMs * Nat.pow c.slots level))
      ∧ report.stats.pending = load.jobs := by
  let a : Assignment := ⟨⟨c, hc, 0, 0⟩, load.plan c, rfl, hinterval⟩
  -- the last count is no whole number of seconds
  have hearly : load.seconds * 1000 < ceiling := by
    unfold ceiling at htime ⊢
    omega
  have hfinished : Soak.Finished a load.jobs (load.seconds * 1000) (load.finished c) := by
    have hloaded := Soak.Loaded.all (a := a) (s := load) rfl load.jobs (Soak.Loaded.start rfl)
    rw [Nat.zero_add] at hloaded
    have hfinish := hloaded.finish hearly
    rw [Nat.mul_assoc] at hfinish
    exact hfinish
  obtain ⟨t, ht, hstep⟩ := hfinished.steady.inStep.timer
  have helapsed : (load.run c).elapsedMs = load.seconds * 1000 :=
    hfinished.elapsed htime (Soak.Loaded.start (a := a) rfl).begun
  have hsoak : Program.soak c load = .ok (load.run c) := by
    unfold Program.soak
    rw [hc, if_neg (by omega)]
    rfl
  have hstarts : (load.run c).executions = load.jobs * (c.intervalMs
      * (load.seconds * 1000 / c.intervalMs) / max load.intervalMs c.intervalMs) :=
    hfinished.starts hearly rfl
  have hwanted : (load.run c).expected = load.jobs * (load.seconds * 1000 / load.intervalMs) := by
    show mulCapped load.jobs ((load.run c).elapsedMs / load.intervalMs) = _
    rw [helapsed]
    exact mulCapped_eq hexpected
  have hstats : (load.run c).stats = t.stats := by
    show ((load.finished c).timer.map (·.stats)).getD _ = _
    rw [ht]
    rfl
  refine ⟨load.run c, hsoak, helapsed, hstarts, hwanted, ?_, ?_, ?_, ?_, ?_⟩
  · rw [hstarts, hwanted]
    apply Nat.mul_le_mul_left
    exact Nat.div_le_div (Nat.mul_div_le _ _) (Nat.le_max_left _ _) (by omega)
  · rw [hstats]
    exact hstep.running
  · rw [hstats]
    show (t.wheels.toList.map _).length = _
    rw [List.length_map, Array.length_toList]
    exact hstep.size
  · intro level stats hlevel
    rw [hstats] at hlevel
    exact hfinished.levels ht hlevel
  · rw [hstats]
    exact hfinished.pending hearly rfl ht

/-- Two jobs every 15 ms for a second, on ticks of 20 ms. -/
def fastLoad : Soak := { jobs := 2, intervalMs := 15, seconds := 1, singleton := true }

/-- They are launched at each of the 50 ticks, where an ideal timer would launch them 66 times. -/
theorem soak_report_of_fast_load : ∃ report,
    Program.soak { slots := 4, levels := 2, intervalMs := 20 } fastLoad = .ok report
    ∧ report.executions = 100 ∧ report.expected = 132 ∧ report.stats.pending = 2 := by
  obtain ⟨report, hsoak, -, hexecutions, hexpected, -, -, -, -, hpending⟩ :=
    @soak_report { slots := 4, levels := 2, intervalMs := 20 } (by decide +kernel) fastLoad
      (by decide) (by decide) (by decide)
  exact ⟨report, hsoak, hexecutions, hexpected, hpending⟩

end TimingWheel
