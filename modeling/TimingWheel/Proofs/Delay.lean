import TimingWheel.Proofs.Deferring

/-!
# A delay is a later addition

Somebody schedules a job after a delay. When the delay is over, a tick launches the entry that was
added for it, and in the middle of this tick the entry of the job is added. From then on the job is
launched as if somebody had scheduled it at that time, between two commands.

* **`TimerConfig.planAt`** — the plan of a job that is scheduled when the clock reads a time.
* **`World.AddedAt`** — the world to compare with.
* **`World.Deferred.outcome`** — what has come of the delay between commands.
* **`World.Awaits.cancelled`** — nothing comes of it if the entry was closed in time.
* **`delay_is_later_addition`** — what the two say about courses of commands.
-/

namespace TimingWheel

/-- The plan of a job that is scheduled on a timer of a shape when its clock reads a time. -/
def TimerConfig.planAt (c : TimerConfig) (addedMs : Nat) (r : Registration) : Plan :=
  ⟨c.intervalMs, addedMs, r.intervalMs, r.runs⟩

/-- A timer of a shape starts, a job is scheduled when its clock reads a time, nobody interferes
with the entry of the job, and some time has passed since the start. -/
inductive World.AddedAt (c : TimerConfig) (r : Registration) (addedMs runUs : Nat) :
    World → EntryId → Prop where
  | intro {w₀ w₁ w₂ : World} (arises : Moment.Arises ⟨w₀, none, none⟩)
      (bodies : w₀.AllBodies Action.Steady) (before : (w₀.startTimer c).Course (fun _ => True) w₁)
      (now : w₁.nowMs = addedMs) (handle : String) {script : Script}
      (steady : script.All Action.Steady)
      (since : (w₁.schedule handle r none script).Course (w₁.entries.size ∉ ·.held) w₂)
      (calm : ∀ ev ∈ w₂.history w₁.entries.size, ev.interferes = false)
      (elapsed : w₂.clockUs - w₀.clockUs = runUs) :
      AddedAt c r addedMs runUs w₂ w₁.entries.size

section

variable {a b : Assignment} {i : EntryId} {r : Registration} {job : JobId} {w w' : World}

/-! ## The start -/

/-- **The delay begins** when somebody schedules a job, and nobody has interfered yet. -/
theorem World.schedule_deferred {w₁ : World} (harises : Moment.Arises ⟨w₁, none, none⟩)
    (hw : w₁.InStep a.clockwork) {delayMs : Nat}
    (hplan : a.plan = a.clockwork.config.planAt w₁.nowMs (.once delayMs)) (handle : String)
    (r : Registration) (script : Script)
    (hmoves : Moves .free ⟨w₁, none, none⟩
      ⟨w₁.schedule handle r (some delayMs) script, none, none⟩) :
    (w₁.schedule handle r (some delayMs) script).Deferred a b w₁.entries.size r w₁.jobs.size
      ∧ (w₁.schedule handle r (some delayMs) script).Untouched w₁.entries.size
      ∧ (w₁.schedule handle r (some delayMs) script).bearers w₁.jobs.size = [] := by
  obtain ⟨t, ht, hstep⟩ := hw.timer
  have hthere : w₁.timerId = some a.clockwork.id :=
    Option.map_eq_some_iff.2 ⟨t, ht, hstep.id_eq⟩
  obtain ⟨hregistrar, hbearers, hstarts, hruns⟩ :=
    schedule_registrar harises hthere handle r delayMs script
  have hblank : Moment.Blank ⟨w₁, none, none⟩ w₁.entries.size := harises.blank
  have hjob : (w₁.withJob handle script).InStep a.clockwork := ⟨hw.begun, hw.timer⟩
  -- the registrar stands at the start of a plan with one run
  obtain ⟨v, hv, hstart⟩ := @World.register_atStart a (w₁.withJob handle script) none none
    ⟨hblank.entry, hblank.history, hblank.flight⟩ rfl hjob (.once delayMs) rfl hplan
    (.register r w₁.jobs.size)
  have hheld : (w₁.schedule handle r (some delayMs) script).held = w₁.held :=
    (World.register_aside (w₁.withJob handle script) (.once delayMs)
      (.register r w₁.jobs.size)).held
  have hpage := @World.page_register (w₁.withJob handle script) t ht hblank.history (.once delayMs)
    (.register r w₁.jobs.size)
  have hhistory := (World.page_eq_some.1 hpage).2.1
  refine ⟨⟨⟨harises.trans hmoves, hregistrar, ?_, fun _ => hstarts,
    -- the job itself has not been registered by anybody
    fun _ => hstart.pursues_all hv⟩, fun _ _ j hj => ?_⟩, ⟨?_, fun ev hev => ?_⟩, hbearers⟩
  · rw [hbearers, hruns]
    rfl
  · rw [hbearers] at hj
    simp at hj
  · rw [hheld]
    exact harises.notMem_held (Nat.le_refl _)
  · have hev' := hhistory ▸ hev
    obtain rfl := List.mem_singleton.1 hev'
    rfl

/-! ## The end -/

/-- **What has come of the delay** between commands, if nobody interferes: nothing before the launch
of its plan, and one entry with the body of the job after that. -/
theorem World.Deferred.outcome (h : w.Deferred a b i r job) (hleads : a.Leads b r)
    (hw : w.InStep a.clockwork) (hsettled : w.Settled a.clockwork) (hclock : w.nowMs < ceiling)
    (huntouched : w.Untouched i) :
    (w.runUs a.clockwork < a.plan.launchMs 0 * 1000 → w.bearers job = [])
    ∧ (a.plan.launchMs 0 * 1000 ≤ w.runUs a.clockwork →
      (∃ e, w.entries[i]? = some e ∧ e.status = .closed
        ∧ ∀ t level slot, w.timer = some t → ¬ t.SlotHas level slot i)
      ∧ ∃ j, w.bearers job = [j] ∧ Moment.Pursues b j [] ⟨w, none, none⟩) := by
  obtain ⟨e, n, he, -, htimes, hcount, -, hover⟩ := (h.followed hclock).outcome hw hsettled
    h.arises.custody hclock huntouched.free (List.append_nil _).symm huntouched.calm
  -- the job was registered as often as the registrar was launched
  have hbearers : (w.bearers job).length = n := by
    rw [h.count, huntouched.taskRuns_eq h.arises, htimes, List.length_map, List.length_range]
  refine ⟨fun hearly => ?_, fun hcome => ?_⟩
  · have hnone : n = 0 := by
      apply Nat.eq_zero_of_not_pos
      intro hpos
      exact absurd ((hcount 0).1 hpos).2 (Nat.not_le.2 hearly)
    exact List.length_eq_zero_iff.1 (hbearers.trans hnone)
  · have hover₁ : ¬ a.plan.runs.Allows 1 := by
      rw [hleads.once]
      exact Nat.lt_irrefl 1
    -- its one run is launched as soon as it is due, and there is no second one
    have hone : n = 1 := by
      have hpos := (hcount 0).2 ⟨hleads.allows_zero, hcome⟩
      have hmost : ¬ 1 < n := fun hlt => hover₁ ((hcount 1).1 hlt).1
      omega
    subst hone
    obtain ⟨j, hj⟩ := List.length_eq_one_iff.1 hbearers
    exact ⟨⟨e, he, hover hover₁⟩, j, hj, h.born hclock huntouched j (by rw [hj]; simp)⟩

/-- The wheels launch the entry at the time of its plan, so before they have looked at it then they
have not launched it. -/
theorem Moment.Pursues.unlaunched {m : Moment} (h : m.Pursues a i []) (hin : m.InStep a.clockwork)
    (hclock : m.world.nowMs < ceiling) (huntouched : m.world.Untouched i)
    (hearly : ∀ level tick verdict,
      .evaluated i level tick (a.plan.launchMs 0) verdict ∉ m.world.history i) :
    launchTimes (m.world.history i) = [] := by
  obtain ⟨v, n, -, onCourse, past⟩ :=
    h.undisturbed huntouched.free (List.append_nil _).symm huntouched.calm
  have hlaunched : launchTimes (m.world.history i) = (List.range n).map a.plan.readingMs :=
    View.OnCourse.told onCourse
  cases n with
  | zero => exact hlaunched
  | succ n =>
    have hpast := past 0 (Nat.succ_pos n)
    have hread := hin.world.nowMs
    have hms : a.plan.readingMs 0 = a.plan.launchMs 0 := by
      unfold Plan.readingMs
      omega
    have hfirst : a.plan.launchMs 0 ∈ launchTimes (m.world.history i) := by
      rw [hlaunched, ← hms]
      exact List.mem_map_of_mem (List.mem_range.2 (Nat.succ_pos n))
    obtain ⟨level, tick, last, hev⟩ := World.exists_evaluated_of_launched hfirst
    exact absurd hev (hearly level tick (.run last))

/-- **Nothing comes of the delay if the entry was closed** before a tick looked at it at the time of
its plan, and was not reset or run by hand since. -/
theorem World.Awaits.cancelled (h : w.Awaits a i r job) (h' : w'.Awaits a i r job)
    (hw : w.InStep a.clockwork) (huntouched : w.Untouched i)
    (hmoves : Moves (.steady (· ≠ i)) ⟨w, none, none⟩ ⟨w', none, none⟩)
    (hclock : w'.nowMs < ceiling) (hfree : i ∉ w'.held) {later earlier : List Event}
    (hhistory : w'.history i = later ++ .controlled i .close :: earlier)
    (hcalm : ∀ ev ∈ earlier, ev.interferes = false)
    (hearly : ∀ level tick verdict,
      .evaluated i level tick (a.plan.launchMs 0) verdict ∉ earlier)
    (hreset : .controlled i .reset ∉ later) (hrun : .controlled i .run ∉ later) :
    w'.bearers job = [] ∧ w'.startsOf job = some 0 := by
  have hnew : .controlled i .close ∉ w.history i := fun hin =>
    absurd (huntouched.calm _ hin) (by simp [Event.interferes])
  obtain ⟨m₁, hbefore, hafter, rfl⟩ :=
    Moves.before_event hmoves h.arises h.registrar.lt_size rfl hnew hhistory
  have harises₁ : m₁.Arises := h.arises.trans (Moves.free hbefore)
  have hin₁ := Moves.inStep hbefore (hw.moment none)
  have hclock₁ := Nat.lt_of_le_of_lt (Moves.clock_le hafter hin₁) hclock
  have hclock₀ := Nat.lt_of_le_of_lt (Moves.clock_le hbefore (hw.moment none)) hclock₁
  -- up to the close the entry was not launched
  have hheld₁ : i ∉ m₁.world.held := by
    have hknown := Nat.lt_of_lt_of_le h.registrar.lt_size (Moves.size_le hbefore)
    have hheld := (Moves.told_and_held hafter harises₁ (fun hne => hne rfl) hknown).2
    exact fun hin => hfree (List.count_pos_iff.1
      (Nat.lt_of_lt_of_le (List.count_pos_iff.2 hin) hheld))
  have hunlaunched := (Moves.pursues hbefore h.arises (hw.moment none) hclock₁
    (h.followed hclock₀)).unlaunched hin₁ hclock₁ ⟨hheld₁, hcalm⟩ hearly
  -- and after it neither
  obtain ⟨e', he', -⟩ := World.posts_eq_some.1 h'.registrar.own
  obtain ⟨hsilent, -⟩ := h'.arises.silent he' (Or.inr rfl) hhistory fun c hundoes => by
    cases c <;> simp [Control.undoes] at hundoes
    exact hreset
  have hnever : launchCount (w'.history i) = 0 := by
    have hearlier : launchCount (m₁.world.history i) = 0 := by
      rw [← length_launchTimes, hunlaunched]
      rfl
    rw [hhistory, launchCount_append, hsilent, Nat.zero_add, launchCount,
      List.countP_cons_of_neg (by simp [Event.isLaunch])]
    exact hearlier
  have hbalance : launchCount (w'.history i) = completionCount (w'.history i) + _ :=
    (h'.arises.exclusive i).1
  have hruns : taskRuns (w'.history i) = completionCount (w'.history i) := by
    refine taskRuns_eq_completionCount fun ev hev j hbyHand => ?_
    subst hbyHand
    obtain rfl : j = i := Option.some.inj (World.about_of_mem_history hev)
    rw [hhistory, List.mem_append, List.mem_cons] at hev
    rcases hev with hin | heq | hin
    · exact hrun hin
    · simp at heq
    · exact absurd (hcalm _ hin) (by simp [Event.interferes])
  have hnone : w'.bearers job = [] := by
    rw [← List.length_eq_zero_iff, h'.count, hruns]
    omega
  exact ⟨hnone, h'.idle hnone⟩

/-! ## Courses of commands -/

/-- The entry of a job that was scheduled when the clock read a time was launched when its plan
says. -/
theorem World.AddedAt.launches {c : TimerConfig} (hc : c.validate = .ok ()) {addedMs runUs : Nat}
    (hready : r.initialStatus = .ready) (hinterval : 1 ≤ r.intervalMs)
    (hclock : runUs / 1000 < ceiling) (h : w.AddedAt c r addedMs runUs i) :
    ∃ n, launchTimes (w.history i) = (List.range n).map (c.planAt addedMs r).launchMs
      ∧ ∀ p, p < n ↔ r.runs.Allows p ∧ (c.planAt addedMs r).launchMs p * 1000 ≤ runUs := by
  cases h with
  | @intro w₀ w₁ _ arises bodies before now handle script steady since calm elapsed =>
    let a : Assignment := ⟨⟨c, hc, w₀.timers, w₀.clockUs⟩, c.planAt addedMs r, rfl, hinterval⟩
    have helapsed : w.runUs a.clockwork = runUs := elapsed
    -- up to the job
    obtain ⟨harises₁, hsteady₁, hsettled₁⟩ := before.started hc arises bodies
    obtain ⟨hmoves, hsettled⟩ := hsteady₁.schedule hsettled₁
      (fun _ _ => trivial : ∀ j ∈ w₁.held, (fun _ => True) j) handle r steady
    have hsteady := hsteady₁.moves hmoves
    have harises : Moment.Arises _ := harises₁.trans (Moves.free hmoves)
    obtain ⟨⟨v, hv, hstart⟩, hheld⟩ := World.schedule_atStart (a := a) harises₁ hsteady₁.inStep
      hready (by rw [now]; rfl) handle script
    -- from the job on
    obtain ⟨hmoves', hsettled', hheld'⟩ := since.moves (fun hout j hj heq => hout (heq ▸ hj) :
      ∀ {w : World}, w₁.entries.size ∉ w.held → ∀ j ∈ w.held, j ≠ w₁.entries.size)
      hsteady hsettled hheld
    have harises' : Moment.Arises ⟨w, none, none⟩ := harises.trans (Moves.free hmoves')
    have hin' := (hsteady.moves hmoves').inStep
    have hclock' : w.nowMs < ceiling := by
      rw [hin'.nowMs, helapsed]
      omega
    obtain ⟨-, n, -, -, htimes, hcount, -⟩ := (Moves.pursues hmoves' harises
      (hsteady.inStep.moment none) hclock' (hstart.pursues_all hv)).outcome hin' hsettled'
      harises'.custody hclock' hheld' (List.append_nil _).symm calm
    rw [helapsed] at hcount
    exact ⟨n, htimes, hcount⟩

/-- **A delay is a later addition.** A timer of any accepted shape starts, and commands leave it
running and its clock to the passing of time, whatever else they do and in whatever order the levels
are served. Then a job that is ready is scheduled after a delay, and more commands of this kind
follow, in which no execution of the entry that was added for the delay or of the entry of the job
is held back, and the clock does not come to the last count there is.

If nobody interferes with the entry that was added for the delay, nothing comes of the delay before
the first tick of the base period at which it is over. From this tick on that entry is closed and in
no slot, and exactly one entry has the body of the job. If nobody interferes with that one either,
it was launched at the times of the plan of a job that was added at this tick, as often as these
have come, and so at the same times as the entry of any job that was scheduled on such a timer then,
with the same registration and without a delay.

If the entry that was added for the delay was closed before this tick looked at it, and it was not
reset or run by hand since, then no entry has the body of the job and it was never started.

Every launch of the entry of the job started its body (`World.Reachable.launches_started`), at the
time that it is told for (`World.dispatch_starts`). -/
theorem delay_is_later_addition {w₀ w₁ w₂ : World} {c : TimerConfig} (hc : c.validate = .ok ())
    (h₀ : Moment.Arises ⟨w₀, none, none⟩) (hbodies : w₀.AllBodies Action.Steady)
    (h₁ : (w₀.startTimer c).Course (fun _ => True) w₁) (handle : String) {r : Registration}
    (hready : r.initialStatus = .ready) (hinterval : 1 ≤ r.intervalMs) {delayMs : Nat}
    (hdelay : 1 ≤ delayMs) {script : Script} (hscript : script.All Action.Steady)
    (h₂ : (w₁.schedule handle r (some delayMs) script).Course
      (·.Unheld w₁.entries.size w₁.jobs.size) w₂)
    (hclock : w₂.nowMs < ceiling) {i : EntryId} (hi : i = w₁.entries.size) {job : JobId}
    (hjob : job = w₁.jobs.size) {addedMs runUs : Nat}
    (hadded : addedMs = roundUp c.intervalMs (w₁.nowMs + delayMs))
    (hrun : runUs = w₂.clockUs - w₀.clockUs) :
    ((∀ ev ∈ w₂.history i, ev.interferes = false) →
      (runUs < addedMs * 1000 → w₂.bearers job = [])
      ∧ (addedMs * 1000 ≤ runUs →
        (∃ e, w₂.entries[i]? = some e ∧ e.status = .closed
          ∧ ∀ t level slot, w₂.timer = some t → ¬ t.SlotHas level slot i)
        ∧ ∃ j, w₂.bearers job = [j] ∧ ((∀ ev ∈ w₂.history j, ev.interferes = false) →
          (∃ n, launchTimes (w₂.history j) = (List.range n).map (c.planAt addedMs r).launchMs
            ∧ ∀ p, p < n ↔ r.runs.Allows p ∧ (c.planAt addedMs r).launchMs p * 1000 ≤ runUs)
          ∧ ∀ {w : World} {j' : EntryId}, w.AddedAt c r addedMs runUs j' →
            launchTimes (w.history j') = launchTimes (w₂.history j))))
    ∧ ∀ later earlier, w₂.history i = later ++ .controlled i .close :: earlier →
        (∀ ev ∈ earlier, ev.interferes = false) →
        (∀ level tick verdict, .evaluated i level tick addedMs verdict ∉ earlier) →
        .controlled i .reset ∉ later → .controlled i .run ∉ later →
        w₂.bearers job = [] ∧ w₂.startsOf job = some 0 := by
  subst hi hjob hadded
  let a : Assignment :=
    ⟨⟨c, hc, w₀.timers, w₀.clockUs⟩, c.planAt w₁.nowMs (.once delayMs), rfl, hdelay⟩
  let b : Assignment := ⟨a.clockwork, c.planAt (a.plan.launchMs 0) r, rfl, hinterval⟩
  have hleads : a.Leads b r := ⟨rfl, rfl, rfl, hready⟩
  have helapsed : w₂.runUs a.clockwork = runUs := hrun.symm
  -- up to the delay
  obtain ⟨harises₁, hsteady₁, hsettled₁⟩ := h₁.started hc h₀ hbodies
  obtain ⟨hmoves, hsettled⟩ := hsteady₁.scheduleAfter hsettled₁
    (fun _ _ => trivial : ∀ j ∈ w₁.held, (fun _ => True) j) handle r (some delayMs) hscript
  have hsteady := hsteady₁.moves hmoves
  obtain ⟨hstart, huntouched, hnone⟩ := World.schedule_deferred (a := a) (b := b) harises₁
    hsteady₁.inStep rfl handle r script (Moves.free hmoves)
  have hunheld : World.Unheld _ w₁.entries.size w₁.jobs.size :=
    ⟨huntouched.free, fun j hj => by rw [hnone] at hj; simp at hj⟩
  -- from the delay on
  obtain ⟨hsteady₂, hsettled₂, hunheld₂, hend⟩ :=
    h₂.deferred hleads hsteady hsettled hunheld hstart
  refine ⟨fun hcalm => ?_, fun later earlier hhistory hcalm hearly hreset hbyHand => ?_⟩
  · obtain ⟨hbefore, hafter⟩ := hend.outcome hleads hsteady₂.inStep hsettled₂ hclock
      ⟨hunheld₂.1, hcalm⟩
    rw [helapsed] at hbefore hafter
    refine ⟨hbefore, fun hcome => ?_⟩
    obtain ⟨hclosed, j, hj, hpursues⟩ := hafter hcome
    refine ⟨hclosed, j, hj, fun hcalm' => ?_⟩
    have hheld : j ∉ w₂.held := hunheld₂.2 j (by rw [hj]; simp)
    obtain ⟨-, n, -, -, htimes, hcount, -⟩ := hpursues.outcome hsteady₂.inStep hsettled₂
      hend.arises.custody hclock hheld (List.append_nil _).symm hcalm'
    have hcount' : ∀ p, p < n ↔ r.runs.Allows p ∧ b.plan.launchMs p * 1000 ≤ runUs := by
      rw [← helapsed]
      exact hcount
    refine ⟨⟨n, htimes, hcount'⟩, fun {w j'} hother => ?_⟩
    -- the clock tells how many launches have come
    have hread := hsteady₂.inStep.nowMs
    rw [helapsed] at hread
    obtain ⟨n', htimes', hcount''⟩ := hother.launches hc hready hinterval (by omega)
    have hboth (p : Nat) : p < n' ↔ p < n := (hcount'' p).trans (hcount' p).symm
    have hsame : n' = n := by
      have hmore := hboth n
      have hless := hboth n'
      omega
    rw [hsame] at htimes'
    exact htimes'.trans htimes.symm
  · obtain ⟨hmoves₂, -, -⟩ := h₂.moves (fun hout j hj heq => hout.1 (heq ▸ hj) :
      ∀ {w : World}, w.Unheld w₁.entries.size w₁.jobs.size → ∀ j ∈ w.held, j ≠ w₁.entries.size)
      hsteady hsettled hunheld
    exact hstart.toAwaits.cancelled hend.toAwaits hsteady.inStep huntouched hmoves₂ hclock
      hunheld₂.1 hhistory hcalm hearly hreset hbyHand

/-- A job with two runs, one every 45 ms, is scheduled after a delay of 40 ms, and 150 ms pass. -/
def deferredRuns : World :=
  ((coarseFirstTimer.schedule "a" (.counted 45 (.left 2)) (some 40) ⟨[], []⟩).step
    (.advance 150000)).2

/-- The job is scheduled at 40 ms without a delay. -/
def addedLater : World :=
  (((coarseFirstTimer.step (.advance 40000)).2.schedule "a" (.counted 45 (.left 2)) none
    ⟨[], []⟩).step (.advance 110000)).2

/-- The entry for the delay is closed when 30 ms have passed. -/
def closedInTime : World :=
  ((((coarseFirstTimer.schedule "a" (.counted 45 (.left 2)) (some 40) ⟨[], []⟩).step
    (.advance 30000)).2.step (.act (.control "a" .close))).2.step (.advance 120000)).2

/-- A tick of the second level ends the delay, and the finest level has not come to this instant yet
when the job is added. -/
theorem delay_is_later_addition_of_two_runs :
    .evaluated 0 1 2 40 (.run true) ∈ deferredRuns.history 0
    ∧ (∃ e, deferredRuns.entries[0]? = some e ∧ e.status = .closed
      ∧ ∀ t level slot, deferredRuns.timer = some t → ¬ t.SlotHas level slot 0)
    ∧ (∃ j, deferredRuns.bearers 0 = [j] ∧ launchTimes (deferredRuns.history j) = [90, 130]
      ∧ launchTimes (addedLater.history 0) = launchTimes (deferredRuns.history j))
    ∧ closedInTime.bearers 0 = [] ∧ closedInTime.startsOf 0 = some 0 := by
  let c : TimerConfig := { slots := 2, levels := 3, intervalMs := 10 }
  have hc : c.validate = .ok () := by decide +kernel
  have hbodies : World.AllBodies Action.Steady {} := fun j hj => by simp at hj
  have hstart : (World.startTimer {} c).Course (fun _ => True) coarseFirstTimer :=
    .step _ .start trivial trivial
  obtain ⟨hcalm, -⟩ := @delay_is_later_addition {} coarseFirstTimer deferredRuns c hc (.start 3)
    hbodies hstart "a" (.counted 45 (.left 2)) (by decide) (by decide) 40 (by decide) ⟨[], []⟩
    trivial (.step _ .start trivial (by decide +kernel)) (by decide +kernel) 0 (by decide +kernel) 0
    (by decide +kernel) 40 150000 (by decide +kernel) (by decide +kernel)
  obtain ⟨-, hclosed⟩ := @delay_is_later_addition {} coarseFirstTimer closedInTime c hc (.start 3)
    hbodies hstart "a" (.counted 45 (.left 2)) (by decide) (by decide) 40 (by decide) ⟨[], []⟩
    trivial (.step _ (.step _ (.step _ .start trivial (by decide +kernel)) trivial
      (by decide +kernel)) trivial (by decide +kernel)) (by decide +kernel) 0 (by decide +kernel) 0
    (by decide +kernel) 40 150000 (by decide +kernel) (by decide +kernel)
  have hlater : addedLater.AddedAt c (.counted 45 (.left 2)) 40 150000 0 := by
    have hsize : (coarseFirstTimer.step (.advance 40000)).2.entries.size = 0 := by decide +kernel
    rw [← hsize]
    have hidle : Script.All Action.Steady ⟨[], []⟩ := trivial
    exact .intro (.start 3) hbodies (.step _ hstart trivial trivial) (by decide +kernel) "a" hidle
      (.step _ .start trivial (by decide +kernel)) (by decide +kernel) (by decide +kernel)
  obtain ⟨-, hcome⟩ := hcalm (by decide +kernel)
  obtain ⟨hover, j, hj, htimes⟩ := hcome (by decide)
  obtain rfl : 1 = j := (List.cons.inj
    ((by decide +kernel : deferredRuns.bearers 0 = [1]).symm.trans hj)).1
  obtain ⟨-, hsame⟩ := htimes (by decide +kernel)
  refine ⟨by decide +kernel, hover, ⟨1, hj, by decide +kernel, hsame hlater⟩, ?_⟩
  -- nothing was told of the delay before it was closed but that it was added
  exact hclosed ((closedInTime.history 0).take 2) ((closedInTime.history 0).drop 3)
    (by decide +kernel) (by decide +kernel) (fun level tick verdict hin => by
      rw [show (closedInTime.history 0).drop 3 = [.logged (.entryAdded 0 40 true .ready 1)] by
        decide +kernel] at hin
      simp at hin) (by decide +kernel) (by decide +kernel)

end

end TimingWheel
