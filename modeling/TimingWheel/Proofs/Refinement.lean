import TimingWheel.Proofs.OnPlan
import TimingWheel.Proofs.Passage

/-!
# The hierarchy refines the naive schedule

Whatever way an entry takes through the levels, none of it shows: on a steady course it is launched
when a naive scheduler launches it.

* **`Move.follows`** — every move of a steady course keeps an entry on its plan.
* **`View.OnPlan.before_launch`** — between commands the next launch is still to come.
* **`refines_naive_schedule`** — what this says about courses of commands.
-/

namespace TimingWheel

/-! ## Moments of a steady course -/

/-- An entry has kept to its plan up to a moment, or something came in between. -/
inductive Moment.Follows (a : Assignment) (i : EntryId) (m : Moment) : Prop where
  | onPlan (v : View) (n : Nat) (seen : m.view i = some v) (onPlan : v.OnPlan a n)
      (past : ∀ p < n, a.plan.launchMs p * 1000 ≤ m.world.runUs a.clockwork)
  | interrupted (v : View) (seen : m.view i = some v) (h : v.Interrupted)
  | tooLate (n : Nat) (more : a.plan.runs.Allows n) (late : ceiling < a.plan.dueMs n)
      (past : ∀ p < n, a.plan.launchMs p * 1000 ≤ m.world.runUs a.clockwork)

section

variable {a : Assignment} {i : EntryId} {m m' : Moment}

/-- Views of a moment in step are timed by its clockwork. -/
theorem Moment.InStep.timed (hm : m.InStep a.clockwork) {v : View} (hv : m.view i = some v) :
    v.Timed a := by
  obtain ⟨hpage, hstage, -⟩ := Moment.view_eq_some.1 hv
  obtain ⟨-, -, -, hnow, haim⟩ := World.page_eq_some.1 hpage
  refine ⟨fun {dueMs} hwait hfits => ?_, fun {level tick nowMs} hdrained => ?_,
    fun {nowMs last} hlaunched => ?_⟩
  · rw [hnow] at hwait
    rw [hnow, haim, a.period_eq]
    exact hm.world.aim hwait hfits
  · obtain ⟨s, hs, rfl, rfl, rfl⟩ := Moment.sweep_of_drained (hstage.symm.trans hdrained)
    obtain ⟨hclock, hrun⟩ := hm.sweep hs
    rw [hnow]
    refine ⟨hclock, ?_⟩
    rw [hclock, hm.world.nowMs, hrun, Nat.mul_div_cancel _ (by decide)]
  · obtain ⟨s, hs, rfl⟩ := Moment.sweep_of_launched (hstage.symm.trans hlaunched)
    rw [hnow]
    exact (hm.sweep hs).1

/-- **Every move of a steady course keeps an entry on its plan**, unless something comes in
between. -/
theorem Move.follows (h : Move (.steady (· ≠ i)) m m') (hm : m.InStep a.clockwork)
    (hcustody : m.world.Custody m.hand) (hf : m.Follows a i) : m'.Follows a i := by
  have hclock := h.runUs_le a.clockwork
  -- launches that fell due before the move have fallen due after it
  have hpast : ∀ {n}, (∀ p < n, a.plan.launchMs p * 1000 ≤ m.world.runUs a.clockwork) →
      ∀ p < n, a.plan.launchMs p * 1000 ≤ m'.world.runUs a.clockwork :=
    fun hbefore p hp => Nat.le_trans (hbefore p hp) hclock
  have hlives := h.lives hcustody i
  cases hf with
  | onPlan v n seen onPlan past =>
    obtain ⟨v', hv', hstepped⟩ := hlives.step seen
    cases onPlan.step hstepped (hm.timed seen) with
    | stays onPlan' => exact .onPlan v' n hv' onPlan' (hpast past)
    | next onPlan' level tick nowMs drained now =>
      refine .onPlan v' (n + 1) hv' onPlan' (hpast fun p hp => ?_)
      rcases Nat.lt_succ_iff_lt_or_eq.1 hp with hbefore | rfl
      · exact past p hbefore
      · -- the launch happens at the tick in progress, which falls due now
        obtain ⟨-, hstage, -⟩ := Moment.view_eq_some.1 seen
        obtain ⟨s, hs, hlevel, htick, -⟩ := Moment.sweep_of_drained (hstage.symm.trans drained)
        obtain ⟨-, hrun⟩ := hm.sweep hs
        exact Nat.le_of_eq (by rw [hrun, hlevel, htick, now])
    | interrupted h' => exact .interrupted v' hv' h'
    | tooLate more late _ => exact .tooLate n more late (hpast past)
  | interrupted v seen hv =>
    obtain ⟨v', hv', hstepped⟩ := hlives.step seen
    exact .interrupted v' hv' (hstepped.interrupted (fun hne => hne rfl) hv)
  | tooLate n more late past => exact .tooLate n more late (hpast past)

/-- A steady course keeps an entry on its plan. Induction on the moves. -/
theorem Moves.follows (h : Moves (.steady (· ≠ i)) m m') (harises : m.Arises)
    (hm : m.InStep a.clockwork) (hf : m.Follows a i) : m'.Follows a i := by
  induction h with
  | refl => exact hf
  | tail hmoves hmove ih =>
    have hbefore : Moment.Arises _ := harises.trans (Moves.free hmoves)
    exact hmove.follows (Moves.inStep hmoves hm) hbefore.custody ih

/-- A new entry that is ready waits for the first launch of its plan, whatever its task is and
whatever is in progress when it is added. -/
theorem World.register_atStart {w : World} {sweep : Option Sweep} {executing : Option EntryId}
    (hblank : Moment.Blank ⟨w, sweep, executing⟩ w.entries.size)
    (hfree : Moment.stage ⟨w, sweep, executing⟩ w.entries.size = .free)
    (hw : w.InStep a.clockwork) {r : Registration} (hready : r.initialStatus = .ready)
    (hplan : a.plan = ⟨a.clockwork.config.intervalMs, w.nowMs, r.intervalMs, r.runs⟩)
    (task : Task) : ∃ v, Moment.view ⟨w.register r task, sweep, executing⟩ w.entries.size = some v
      ∧ v.AtStart a := by
  have hadded : a.plan.addedMs = w.nowMs := by rw [hplan]
  have hinterval : a.plan.intervalMs = r.intervalMs := by rw [hplan]
  have hruns : a.plan.runs = r.runs := by rw [hplan]
  have hdue : a.plan.dueMs 0 = w.nowMs + r.intervalMs := by rw [Plan.dueMs, hadded, hinterval]
  have hcapped : addCapped w.nowMs r.intervalMs = min (a.plan.dueMs 0) ceiling := by
    -- the runs of the job allow a launch, or it would have been closed when it was added
    rw [hdue]
    rfl
  have hmore : a.plan.runs.Allows 0 := by
    rw [Runs.allows_zero, hruns]
    cases hspent : r.runs.isSpent with
    | false => rfl
    | true => simp [Registration.initialStatus, hspent] at hready
  have hflight : Moment.flight ⟨w.register r task, sweep, executing⟩ w.entries.size
      = ⟨0, false⟩ := by
    rw [← hblank.flight]
    simp only [Moment.flight, (w.register_aside r task).held]
  obtain ⟨t, ht, hstep⟩ := hw.timer
  -- the entry as the wheels have placed it, with nothing in flight
  let v : View := { Page.registered w.entries.size r task t.id w.nowMs w.aim with
    stage := .free, flight := ⟨0, false⟩ }
  have hv : Moment.view ⟨w.register r task, sweep, executing⟩ w.entries.size = some v :=
    Moment.view_eq_some.2 ⟨World.page_register ht hblank.history r task, hfree.symm, hflight.symm⟩
  have hentry : v.entry = { Entry.ofRegistration r task t.id w.nowMs with
      installed := true
      level := (w.aim (addCapped w.nowMs r.intervalMs - w.nowMs)).1
      installedTick := (w.aim (addCapped w.nowMs r.intervalMs - w.nowMs)).2 } := by
    have hopen : (Entry.ofRegistration r task t.id w.nowMs).status ≠ .closed := by
      show r.initialStatus ≠ .closed
      rw [hready]
      decide
    show (if _ then _ else _) = _
    rw [if_neg hopen]
    rfl
  have hpos := a.interval_pos
  refine ⟨v, hv, ⟨?_, ?_, ?_, hmore, rfl, rfl, ?_, rfl, ?_, ?_, ?_, fun hfits => ?_⟩⟩ <;>
    rw [hentry]
  · exact hinterval.symm
  · exact hstep.id_eq
  · exact hruns.symm
  · rfl
  · exact hready
  · exact hcapped
  · rw [hcapped, Nat.min_eq_left hfits, Plan.launchMs, a.period_eq]
    exact hw.aim (by omega) hfits

/-- A job that is scheduled between commands has an entry that waits for the first launch of its
plan. -/
theorem World.schedule_atStart {w : World} (harises : Moment.Arises ⟨w, none, none⟩)
    (hw : w.InStep a.clockwork) {r : Registration} (hready : r.initialStatus = .ready)
    (hplan : a.plan = ⟨a.clockwork.config.intervalMs, w.nowMs, r.intervalMs, r.runs⟩)
    (handle : String) (script : Script) :
    (∃ v, Moment.view ⟨w.schedule handle r none script, none, none⟩ w.entries.size = some v
        ∧ v.AtStart a)
      ∧ w.entries.size ∉ (w.schedule handle r none script).held := by
  -- nothing is known of the entry before
  have hblank : Moment.Blank ⟨w, none, none⟩ w.entries.size := harises.blank
  have hjob : (w.withJob handle script).InStep a.clockwork := ⟨hw.begun, hw.timer⟩
  obtain ⟨v, hv, hstart⟩ := @World.register_atStart a (w.withJob handle script) none none
    ⟨hblank.entry, hblank.history, hblank.flight⟩ rfl hjob r hready hplan (.body w.jobs.size)
  have hheld : (w.schedule handle r none script).held = w.held :=
    (World.register_aside (w.withJob handle script) r (.body w.jobs.size)).held
  have hnone : w.held.count w.entries.size = 0 := congrArg Flight.held hblank.flight
  exact ⟨⟨v, hv, hstart⟩, by rw [hheld]; exact List.count_eq_zero.1 hnone⟩

/-- A new entry that is ready is on its plan, unless it is due at a time that is no count. -/
theorem Moment.follows_of_atStart {v : View} (hv : m.view i = some v) (h : v.AtStart a) :
    m.Follows a i := by
  by_cases hfits : a.plan.dueMs 0 ≤ ceiling
  · exact .onPlan v 0 hv (h.onPlan hfits) fun p hp => absurd hp (Nat.not_lt_zero p)
  · exact .tooLate 0 h.more (Nat.lt_of_not_le hfits) fun p hp => absurd hp (Nat.not_lt_zero p)

/-! ## Between commands -/

/-- A view shows an entry where the world has it between commands. -/
structure World.Seats (w : World) (i : EntryId) (v : View) : Prop where
  known : ∃ e, w.entries[i]? = some e ∧ e.seat = v.entry.seat
  free : v.stage = .free

/-- Between commands the view of an entry tells what the world does. -/
theorem World.seats_of_view {w : World} {v : View}
    (hv : Moment.view ⟨w, none, none⟩ i = some v) : w.Seats i v := by
  obtain ⟨hpage, hstage, -⟩ := Moment.view_eq_some.1 hv
  exact ⟨⟨v.entry, (World.page_eq_some.1 hpage).1, rfl⟩, hstage⟩

/-- The tick that is recorded for an entry in a slot is the next one of its level or a later one. -/
theorem World.Seats.next_tick {w : World} {v : View} (h : w.Seats i v) (hw : w.InStep a.clockwork)
    (hcustody : w.Custody []) (owner : v.entry.owner = a.clockwork.id)
    (owned : v.entry.installed = true) : ∃ t level wheel, w.timer = some t
      ∧ t.wheels[level]? = some wheel
      ∧ a.clockwork.tickMs level (wheel.ticks + 1)
        ≤ a.clockwork.tickMs v.entry.level v.entry.installedTick := by
  obtain ⟨e, hentry, hseat⟩ := h.known
  obtain ⟨t, ht, hstep⟩ := hw.timer
  simp only [Entry.seat, Prod.mk.injEq] at hseat
  obtain ⟨howner, howned, hlevel, htick⟩ := hseat
  obtain ⟨level, slot, hslot⟩ := (hcustody.installed_iff ht hentry
    (howner.trans (owner.trans hstep.id_eq.symm))).1 (howned.trans owned)
  obtain ⟨wheel, slots, hwheel, -⟩ := id hslot
  have hberth := (hcustody.keeps ht).berth hslot hentry hwheel
  refine ⟨t, level, wheel, ht, hwheel, ?_⟩
  rw [← hlevel, ← htick, hberth.level_eq]
  exact Nat.mul_le_mul_right _ hberth.ahead

/-- The tick that is recorded for an entry in a slot is still to come. -/
theorem World.Seats.before_tick {w : World} {v : View} (h : w.Seats i v)
    (hw : w.InStep a.clockwork) (hsettled : w.Settled a.clockwork) (hcustody : w.Custody [])
    (owner : v.entry.owner = a.clockwork.id) (owned : v.entry.installed = true) :
    w.runUs a.clockwork
      < a.clockwork.tickMs v.entry.level v.entry.installedTick * 1000 := by
  obtain ⟨t, level, wheel, ht, hwheel, hnext⟩ := h.next_tick hw hcustody owner owned
  exact Nat.lt_of_lt_of_le (hsettled t ht level wheel hwheel) (Nat.mul_le_mul_right 1000 hnext)

/-- At any instant the tick that is recorded for an entry in a slot falls due now or is still to
come. -/
theorem World.Seats.until_tick {w : World} {v : View} (h : w.Seats i v)
    (hw : w.InStep a.clockwork) (hcustody : w.Custody [])
    (owner : v.entry.owner = a.clockwork.id) (owned : v.entry.installed = true) :
    w.runUs a.clockwork
      ≤ a.clockwork.tickMs v.entry.level v.entry.installedTick * 1000 := by
  obtain ⟨t, level, wheel, ht, hwheel, hnext⟩ := h.next_tick hw hcustody owner owned
  exact Nat.le_trans ((hw.of_timer ht).wheel hwheel).ahead (Nat.mul_le_mul_right 1000 hnext)

/-- Between commands an entry that has a run left waits in a slot that its next launch empties. -/
theorem View.OnPlan.before_launch {w : World} {v : View} {n : Nat} (h : v.OnPlan a n)
    (hv : w.Seats i v) (hw : w.InStep a.clockwork) (hsettled : w.Settled a.clockwork)
    (hcustody : w.Custody []) (more : a.plan.runs.Allows n) :
    w.runUs a.clockwork < a.plan.launchMs n * 1000 ∧ v.entry.installed = true := by
  cases h.phase with
  | waiting _ more' fits place idle ready owned due inTime =>
    have hlt := hv.before_tick hw hsettled hcustody h.owner owned
    exact ⟨Nat.lt_of_lt_of_le hlt (Nat.mul_le_mul_right 1000 inTime), owned⟩
  | launched m last isLast place status owned due => exact absurd (place.symm.trans hv.free) nofun
  | ended _ none place idle closed out => exact absurd more none

/-- Between commands an entry that has used up its runs is over and in no slot. -/
theorem View.OnPlan.over {w : World} {v : View} {n : Nat} (h : v.OnPlan a n) (hv : w.Seats i v)
    (hcustody : w.Custody []) (none : ¬ a.plan.runs.Allows n) :
    v.entry.status = .closed ∧ ∀ t level slot, w.timer = some t → ¬ t.SlotHas level slot i := by
  cases h.phase with
  | waiting _ more fits place idle ready owned due inTime => exact absurd more none
  | launched m last isLast place status owned due => exact absurd (place.symm.trans hv.free) nofun
  | ended _ none place idle closed out =>
    obtain ⟨e, hentry, hseat⟩ := hv.known
    refine ⟨closed, fun t level slot ht hslot => ?_⟩
    have howned : e.installed = true :=
      congrArg (·.2.1) (hcustody.seat_of_slot ht hslot hentry)
    have hsame : e.installed = v.entry.installed := congrArg (·.2.1) hseat
    rw [hsame, out] at howned
    simp at howned

/-- Exactly the launches that have come were made, if the next one is still to come. -/
theorem Assignment.launched_iff (a : Assignment) {n runUs : Nat}
    (allowed : ∀ p < n, a.plan.runs.Allows p) (past : ∀ p < n, a.plan.launchMs p * 1000 ≤ runUs)
    (next : a.plan.runs.Allows n → runUs < a.plan.launchMs n * 1000) (p : Nat) :
    p < n ↔ a.plan.runs.Allows p ∧ a.plan.launchMs p * 1000 ≤ runUs := by
  constructor
  · exact fun hp => ⟨allowed p hp, past p hp⟩
  · rintro ⟨hallowed, hcome⟩
    apply Nat.lt_of_not_le
    intro hle
    -- a launch that has come and was not made would be the next one or a later one
    have hnot := next (hallowed.mono hle)
    have hlater : a.plan.launchMs n ≤ a.plan.launchMs p := by
      rcases Nat.eq_or_lt_of_le hle with rfl | hlt
      · exact Nat.le_refl _
      · exact Nat.le_of_lt (a.plan.launchMs_strictMono a.period_pos a.interval_pos hlt)
    have hbound := Nat.mul_le_mul_right 1000 hlater
    exact absurd (Nat.le_trans hbound hcome) (Nat.not_le.2 hnot)

end

/-! ## Courses of commands -/

/-- The plan of a job that is scheduled in a world with a timer of a shape. -/
def World.planOf (w : World) (c : TimerConfig) (r : Registration) : Plan :=
  ⟨c.intervalMs, w.nowMs, r.intervalMs, r.runs⟩

/-- A world whose bodies are steady starts a timer that can be planned for. -/
theorem World.startTimer_steady {w : World} {c : TimerConfig} (hc : c.validate = .ok ())
    (hbodies : w.AllBodies Action.Steady) :
    (w.startTimer c).Steady ⟨c, hc, w.timers, w.clockUs⟩ :=
  ⟨(w.startTimer_inStep hc).1, World.startTimer_allBodies hbodies c⟩

/-- A timer that starts has missed no tick after a course of commands, and nothing is due. -/
theorem World.Course.started {w₀ w₁ : World} {c : TimerConfig}
    (h : (w₀.startTimer c).Course (fun _ => True) w₁) (hc : c.validate = .ok ())
    (h₀ : Moment.Arises ⟨w₀, none, none⟩) (hbodies : w₀.AllBodies Action.Steady) :
    Moment.Arises ⟨w₁, none, none⟩ ∧ w₁.Steady ⟨c, hc, w₀.timers, w₀.clockUs⟩
      ∧ w₁.Settled ⟨c, hc, w₀.timers, w₀.clockUs⟩ := by
  have hsteady₀ := World.startTimer_steady hc hbodies
  have harises₀ : Moment.Arises ⟨w₀.startTimer c, none, none⟩ :=
    h₀.tail (.create w₀ c trivial hc)
  obtain ⟨hmoves, hsettled, -⟩ := h.moves (fun _ _ _ => trivial : ∀ {w : World}, True →
    ∀ j ∈ w.held, (fun _ => True) j) hsteady₀ (w₀.startTimer_inStep hc).2 trivial
  exact ⟨harises₀.trans (Moves.free hmoves), hsteady₀.moves hmoves, hsettled⟩

/-- Somebody schedules a job, at once or after a delay. -/
theorem World.Steady.scheduleAfter {takes : EntryId → Prop} {w : World} {k : Clockwork}
    (h : w.Steady k) (hsettled : w.Settled k) (hheld : ∀ j ∈ w.held, takes j) (handle : String)
    (r : Registration) (delayMs : Option Nat) {script : Script}
    (hscript : script.All Action.Steady) :
    Moves (.steady takes) ⟨w, none, none⟩ ⟨w.schedule handle r delayMs script, none, none⟩
      ∧ (w.schedule handle r delayMs script).Settled k := by
  obtain ⟨t, ht, -⟩ := h.inStep.timer
  have hc : Command.Steady
      (.act (.schedule handle r delayMs script.outcomes script.rounds)) := ⟨trivial, hscript⟩
  have hstep := h.step hsettled hheld hc
  have hsame : (w.step (.act (.schedule handle r delayMs script.outcomes script.rounds))).2
      = w.schedule handle r delayMs script := by
    simp only [World.step, World.perform, ht]
  rwa [hsame] at hstep

/-- To schedule a job is one move for such a timer, and leaves it settled. -/
theorem World.Steady.schedule {takes : EntryId → Prop} {w : World} {k : Clockwork} (h : w.Steady k)
    (hsettled : w.Settled k) (hheld : ∀ j ∈ w.held, takes j) (handle : String) (r : Registration)
    {script : Script} (hscript : script.All Action.Steady) :
    Moves (.steady takes) ⟨w, none, none⟩ ⟨w.schedule handle r none script, none, none⟩
      ∧ (w.schedule handle r none script).Settled k :=
  h.scheduleAfter hsettled hheld handle r none hscript

/-- **The hierarchy refines the naive schedule.** A timer of any accepted shape starts, and commands
leave it running and its clock to the passing of time, whatever else they do and in whatever order
the levels are served. Then a job is scheduled that is ready, and more commands of this kind follow.
Nobody controls the entry, its body does not exit, none of its executions is held back, and its due
times are counts. Then it was launched as often as launches of its plan have come, at the times that
the plan says, and once its runs are used up it is over and in no slot.

Each of these launches started the body (`World.Course.launches_started`), and did so at once, at
the reading of the clock at which it was decided (`World.dispatch_starts`). -/
theorem refines_naive_schedule {w₀ w₁ w₂ : World} {c : TimerConfig} (hc : c.validate = .ok ())
    (h₀ : Moment.Arises ⟨w₀, none, none⟩) (hbodies : w₀.AllBodies Action.Steady)
    (h₁ : (w₀.startTimer c).Course (fun _ => True) w₁) (handle : String) {r : Registration}
    (hready : r.initialStatus = .ready) (hinterval : 1 ≤ r.intervalMs) {script : Script}
    (hscript : script.All Action.Steady)
    (h₂ : (w₁.schedule handle r none script).Course (w₁.entries.size ∉ ·.held) w₂)
    (hcalm : ∀ e ∈ w₂.history w₁.entries.size, e.interferes = false)
    (hfits : ∀ n, r.runs.Allows n →
      (∀ p < n, (w₁.planOf c r).launchMs p * 1000 ≤ w₂.clockUs - w₀.clockUs) →
      (w₁.planOf c r).dueMs n ≤ ceiling) :
    ∃ n, launchTimes (w₂.history w₁.entries.size) = (List.range n).map (w₁.planOf c r).readingMs
      ∧ (∀ p, p < n ↔ r.runs.Allows p
          ∧ (w₁.planOf c r).launchMs p * 1000 ≤ w₂.clockUs - w₀.clockUs)
      ∧ (¬ r.runs.Allows n → ∃ e, w₂.entries[w₁.entries.size]? = some e ∧ e.status = .closed
          ∧ ∀ t level slot, w₂.timer = some t → ¬ t.SlotHas level slot w₁.entries.size) := by
  let a : Assignment := ⟨⟨c, hc, w₀.timers, w₀.clockUs⟩, w₁.planOf c r, rfl, hinterval⟩
  -- up to the job
  obtain ⟨harises₁, hsteady₁, hsettled₁⟩ := h₁.started hc h₀ hbodies
  -- the job
  obtain ⟨hmoves, hsettled⟩ := hsteady₁.schedule hsettled₁
    (fun _ _ => trivial : ∀ j ∈ w₁.held, (fun _ => True) j) handle r hscript
  have hsteady := hsteady₁.moves hmoves
  obtain ⟨⟨v, hv, hstart⟩, hheld⟩ := World.schedule_atStart (a := a) harises₁ hsteady₁.inStep hready
    rfl handle script
  -- from the job on
  obtain ⟨hmoves₂, hsettled₂, hheld₂⟩ := h₂.moves (fun hout j hj heq => hout (heq ▸ hj) :
    ∀ {w : World}, w₁.entries.size ∉ w.held → ∀ j ∈ w.held, j ≠ w₁.entries.size)
    hsteady hsettled hheld
  have hbefore : Moment.Arises _ := harises₁.trans (Moves.free hmoves)
  have hfollows₂ := Moves.follows hmoves₂ hbefore (hsteady.inStep.moment none)
    (Moment.follows_of_atStart hv hstart)
  have hsteady₂ := hsteady.moves hmoves₂
  have hcustody : w₂.Custody [] := Moment.Arises.custody (hbefore.trans (Moves.free hmoves₂))
  cases hfollows₂ with
  | interrupted v seen h =>
    obtain ⟨hpage, -, hflight⟩ := Moment.view_eq_some.1 seen
    obtain ⟨-, hhistory, -⟩ := World.page_eq_some.1 hpage
    rcases h with hone | ⟨e, he, hinterferes⟩
    · rw [hflight] at hone
      exact absurd (List.count_pos_iff.1 hone) hheld₂
    · rw [hhistory] at he
      rw [hcalm e he] at hinterferes
      simp at hinterferes
  | tooLate n more late past => exact absurd (hfits n more past) (Nat.not_le.2 late)
  | onPlan v n seen onPlan past =>
    obtain ⟨hpage, -⟩ := Moment.view_eq_some.1 seen
    obtain ⟨hentry, hhistory, -⟩ := World.page_eq_some.1 hpage
    refine ⟨n, ?_, fun p => ?_, fun hnone => ⟨v.entry, hentry, ?_⟩⟩
    · rw [← hhistory]
      exact onPlan.told
    · exact a.launched_iff onPlan.allowed past (fun more => (onPlan.before_launch
        (World.seats_of_view seen) hsteady₂.inStep hsettled₂ hcustody more).1) p
    · exact onPlan.over (World.seats_of_view seen) hcustody hnone

/-- A timer of three wheels of two slots each that serves its coarsest level first. -/
def coarseFirstTimer : World :=
  ((({} : World).startTimer { slots := 2, levels := 3, intervalMs := 10 }).step
    (.act (.coarseFirst true))).2

/-- The timer runs for 3 ms, then a job gets two runs, one every 45 ms, and 120 ms pass. -/
def twoRuns : World :=
  (((coarseFirstTimer.step (.advance 3000)).2.schedule "a" (.counted 45 (.left 2)) none
    ⟨[], []⟩).step (.advance 120000)).2

/-- The job is put into the coarsest wheel, due at 48 ms and at 93 ms, and launched at the first
multiples of 10 ms after that. -/
theorem refines_naive_schedule_of_two_runs : launchTimes (twoRuns.history 0) = [50, 100]
    ∧ ∃ e, twoRuns.entries[0]? = some e ∧ e.status = .closed
        ∧ ∀ t level slot, twoRuns.timer = some t → ¬ t.SlotHas level slot 0 := by
  have hsize : (coarseFirstTimer.step (.advance 3000)).2.entries.size = 0 := by decide +kernel
  obtain ⟨n, htimes, hcount, hover⟩ := @refines_naive_schedule {}
    (coarseFirstTimer.step (.advance 3000)).2 twoRuns { slots := 2, levels := 3, intervalMs := 10 }
    (by decide +kernel) (.start 3) (fun j hj => by simp at hj)
    (.step _ (.step _ .start trivial trivial) trivial trivial) "a" (.counted 45 (.left 2))
    (by decide) (by decide) ⟨[], []⟩ trivial (.step _ .start trivial (by decide +kernel))
    (by decide +kernel) fun k hk _ => by
      match k, hk with
      | 0, _ => decide +kernel
      | 1, _ => decide +kernel
      | k + 2, hk => exact absurd hk (by simp [Registration.counted, Runs.Allows])
  rw [hsize] at htimes hover
  -- both launches have come, and no run is left for another one
  have htwo : n = 2 := by
    have hone : 1 < n := (hcount 1).2 ⟨by decide, by decide +kernel⟩
    have hmost : ¬ 2 < n := fun hlt => absurd ((hcount 2).1 hlt).1 (by decide)
    omega
  subst htwo
  refine ⟨?_, hover (by decide)⟩
  rw [htimes]
  decide +kernel

end TimingWheel
