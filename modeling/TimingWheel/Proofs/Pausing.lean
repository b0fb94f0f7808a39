import TimingWheel.Proofs.Exclusivity
import TimingWheel.Proofs.Lagging
import TimingWheel.Proofs.Poised

/-!
# What a pause delays

While a timer is stopped its rings stand still, so an entry that waits in a slot keeps its place,
and every level loses the ticks that fall into the pause. After it the rings are behind by different
numbers of ticks. The slot that holds the entry is emptied as much later as its own level has lost.
From there on the entry is handed down by what is really left of its delay, to levels whose counters
are behind as well, and none of them looks at it later than at the first base tick at which it is
due.

* **`Moves.waitingOrDisturbed`** — an entry that waits keeps its place while the timer is stopped,
  and `Timer.Loses` tells what becomes of the rings.
* **`Moves.pause`** — how things stand when the timer has been started again.
* **`Moves.awaits`** — after the pause it is launched at one time (`View.Aims`), which its place and
  the ticks that its level has lost determine.
* **`pause_delays`** — what this comes to.
-/

namespace TimingWheel

/-! ## Interference -/

/-- Since a point somebody has interfered with the entry before it was launched. -/
def View.Disturbed (v : View) (before : List Event) : Prop :=
  ∃ told, v.history = told ++ before ∧ ¬ Undisturbed told

section

variable {law : Law} {i : EntryId} {v v' : View} {before told : List Event}

/-- Interference before a launch is never taken back. -/
theorem View.Disturbed.step (h : v.Disturbed before) (hstepped : v.EntryStep law i v') :
    v'.Disturbed before := by
  obtain ⟨told, htold, hdisturbed⟩ := h
  obtain ⟨more, hmore⟩ := hstepped.suffix
  refine ⟨more ++ told, ?_, fun hcalm => hdisturbed (hcalm.of_suffix (List.suffix_append _ _))⟩
  rw [← hmore, htold, List.append_assoc]

/-- Interference that comes while no launch is told of comes before the next one. -/
theorem View.Disturbed.of_suffix {e : Event} (hhistory : v.history = told ++ before)
    (none : launchTimes told = []) (interferes : e.interferes = true)
    (hsuffix : e :: v.history <:+ v'.history) : v'.Disturbed before := by
  obtain ⟨more, hmore⟩ := hsuffix
  refine ⟨more ++ e :: told, ?_, fun hcalm => ?_⟩
  · rw [← hmore, hhistory, List.append_assoc]
    rfl
  · have hfalse := hcalm e told (List.suffix_append _ _) none
    rw [interferes] at hfalse
    exact absurd hfalse (by decide)

end

/-! ## While the timer is stopped -/

/-- The rings stand where they stood, and as many ticks or more were dealt with. -/
def Timer.Loses (t t' : Timer) : Prop :=
  ∀ (level : Nat) (wheel' : Wheel), t'.wheels[level]? = some wheel' →
    ∃ wheel, t.wheels[level]? = some wheel ∧ wheel'.ticks = wheel.ticks
      ∧ wheel.served ≤ wheel'.served

namespace Timer.Loses

variable {t t' t'' : Timer}

theorem refl (t : Timer) : t.Loses t := fun _ wheel hwheel => ⟨wheel, hwheel, rfl, Nat.le_refl _⟩

/-- What is lost on two stretches of time is lost. -/
theorem trans (h : t.Loses t') (h' : t'.Loses t'') : t.Loses t'' := by
  intro level wheel'' hwheel''
  obtain ⟨wheel', hwheel', hticks', hserved'⟩ := h' level wheel'' hwheel''
  obtain ⟨wheel, hwheel, hticks, hserved⟩ := h level wheel' hwheel'
  exact ⟨wheel, hwheel, hticks'.trans hticks, Nat.le_trans hserved hserved'⟩

theorem of_works (h : t'.works = t.works) : t.Loses t' := by
  intro level wheel' hwheel'
  obtain ⟨wheel, hwheel, hbare⟩ := Timer.wheel_of_works h hwheel'
  exact ⟨wheel, hwheel, congrArg (·.ticks) hbare,
    Nat.le_of_eq (congrArg (·.served) hbare).symm⟩

/-- A lost tick leaves the rings where they stand. -/
theorem of_served (t : Timer) (level : Nat) :
    t.Loses (t.modifyWheel level fun wheel => { wheel with served := wheel.served + 1 }) := by
  intro level' wheel' hwheel'
  simp only [Timer.modifyWheel, Array.getElem?_modify] at hwheel'
  split at hwheel'
  · obtain ⟨wheel, hwheel, rfl⟩ := Option.map_eq_some_iff.1 hwheel'
    exact ⟨wheel, hwheel, rfl, Nat.le_succ _⟩
  · exact ⟨wheel', hwheel', rfl, Nat.le_refl _⟩

end Timer.Loses

/-- A timer that is stopped after a move was stopped before it, and no tick has begun. -/
theorem Moment.ClockworkStep.stopped {law : Law} {m m' : Moment} (h : m.ClockworkStep law m')
    {t' : Timer} (ht' : m'.world.timer = some t') (hstopped : t'.status = .stopped) :
    (m.sweep = none → m'.sweep = none)
      ∧ ∃ t, m.world.timer = some t ∧ t.status = .stopped ∧ t.Loses t' := by
  cases h with
  | still world sweep =>
    obtain ⟨t, ht, hsame, hstatus⟩ := world.timer_before ht'
    refine ⟨fun hnone => ?_, t, ht, hstatus.symm.trans hstopped, .of_works hsame⟩
    cases hs' : m'.sweep with
    | none => rfl
    | some s' =>
      obtain ⟨s, hs, -⟩ := sweep hs'
      rw [hnone] at hs
      simp at hs
  -- a timer that is started or that a tick drains is not stopped afterwards
  | @resumes w t sweep executing there stopped =>
    obtain ⟨journal, -, heq⟩ := w.controlTimer_start there stopped
    rw [heq] at ht'
    rw [← Option.some.inj ht'] at hstopped
    simp at hstopped
  | loses allowed there stopped known due =>
    rw [World.serve_eq, there] at ht'
    obtain rfl := Option.some.inj ht'
    exact ⟨id, _, there, stopped, .of_served _ _⟩
  | @drains w level t wheel allowed there running known due waiting =>
    obtain ⟨journal, -, heq⟩ := w.drained_eq level wheel
    rw [heq, there] at ht'
    rw [← Option.some.inj ht'] at hstopped
    exact absurd (running.symm.trans hstopped) (by decide)
  | waits allowed => exact ⟨id, t', ht', hstopped, .refl t'⟩

/-- The entry waits at its place, unless somebody has interfered. -/
inductive Moment.WaitingOrDisturbed (i : EntryId) (dueMs : Nat) (seat : TimerId × Bool × Nat × Nat)
    (before : List Event) (m : Moment) : Prop where
  | waiting (v : View) (told : List Event) (seen : m.view i = some v)
      (history : v.history = told ++ before) (none : launchTimes told = [])
      (poised : v.Poised dueMs) (seat : v.entry.seat = seat)
  | disturbed (v : View) (seen : m.view i = some v) (h : v.Disturbed before)

section

variable {takes : EntryId → Prop} {m m' : Moment} {i : EntryId} {dueMs : Nat}
  {seat : TimerId × Bool × Nat × Nat} {before : List Event}

/-- Between ticks no slot is being emptied. -/
theorem Moment.not_drained {v : View} (hv : m.view i = some v) (hsweep : m.sweep = none)
    {level tick nowMs : Nat} : v.stage ≠ .drained level tick nowMs := by
  intro hdrained
  obtain ⟨-, hstage, -⟩ := Moment.view_eq_some.1 hv
  obtain ⟨s, hs, -⟩ := Moment.sweep_of_drained (hstage.symm.trans hdrained)
  rw [hsweep] at hs
  simp at hs

/-- A move outside of ticks leaves an entry in its place, or somebody has interfered with it. -/
theorem Move.waitingOrDisturbed {law : Law} (h : Move law m m') (hcustody : m.world.Custody m.hand)
    (hsweep : m.sweep = none) (hm : m.WaitingOrDisturbed i dueMs seat before) :
    m'.WaitingOrDisturbed i dueMs seat before := by
  have hlives := h.lives hcustody i
  cases hm with
  | waiting v told seen history none poised hseat =>
    obtain ⟨v', hv', hstepped⟩ := hlives.step seen
    cases poised.step hstepped with
    | waits more history' none' poised' seat' =>
      refine .waiting v' (more ++ told) hv' ?_ ?_ poised' (seat'.trans hseat)
      · rw [history', history, List.append_assoc]
      · rw [launchTimes_append, none, none']
        rfl
    | handsDown more history' none' poised' level tick nowMs drained early place =>
      exact absurd drained (Moment.not_drained seen hsweep)
    | launched more history' level tick nowMs drained due told =>
      exact absurd drained (Moment.not_drained seen hsweep)
    | disturbed e interferes hsuffix =>
      exact .disturbed v' hv' (.of_suffix history none interferes hsuffix)
  | disturbed v seen hdisturbed =>
    obtain ⟨v', hv', hstepped⟩ := hlives.step seen
    exact .disturbed v' hv' (hdisturbed.step hstepped)

/-- **While the timer is stopped an entry that waits keeps its place**, and ticks are lost. -/
theorem Moves.waitingOrDisturbed (h : Moves (.steady takes) m m') (harises : m.Arises)
    (hsweep : m.sweep = none) (hm : m.WaitingOrDisturbed i dueMs seat before) :
    ∀ {t' : Timer}, m'.world.timer = some t' → t'.status = .stopped →
      m'.sweep = none ∧ m'.WaitingOrDisturbed i dueMs seat before
        ∧ ∃ t, m.world.timer = some t ∧ t.Loses t' := by
  induction h with
  | refl => exact fun ht _ => ⟨hsweep, hm, _, ht, .refl _⟩
  | tail hmoves hmove ih =>
    intro t'' ht'' hstopped
    obtain ⟨hnone, t', ht', hstopped', hloses⟩ :=
      (hmove.clockworkStep (fun _ ha => ha) id).stopped ht'' hstopped
    obtain ⟨hsweep', hm', t, ht, hlost⟩ := ih ht' hstopped'
    have hbefore : Moment.Arises _ := harises.trans (Moves.free hmoves)
    exact ⟨hnone hsweep', hmove.waitingOrDisturbed hbefore.custody hsweep' hm', t, ht,
      hlost.trans hloses⟩

end

/-! ## After the pause -/

/-- Views of a moment are paced by its clockwork, ticks counted that its levels have lost. -/
theorem Moment.Behind.paced {k : Clockwork} {lost : Nat → Nat} {m : Moment}
    (hm : m.Behind k lost) {i : EntryId} {v : View} (hv : m.view i = some v) : v.Paced k lost := by
  obtain ⟨hpage, hstage, -⟩ := Moment.view_eq_some.1 hv
  obtain ⟨-, -, -, hnow, haim⟩ := World.page_eq_some.1 hpage
  refine ⟨fun {dueMs} hwait hfits => ?_, fun {level tick nowMs} hdrained => ?_⟩
  · rw [hnow] at hwait
    rw [hnow, haim]
    exact hm.world.aim hwait hfits
  · obtain ⟨s, hs, rfl, rfl, rfl⟩ := Moment.sweep_of_drained (hstage.symm.trans hdrained)
    obtain ⟨hclock, hrun⟩ := hm.sweep hs
    rw [hnow]
    refine ⟨hclock, ?_⟩
    rw [hclock, hm.world.onTime.nowMs, hrun, Nat.mul_div_cancel _ (by decide)]

/-- The entry waits for a launch at a time or was launched at this time, unless somebody has
interfered before. -/
inductive Moment.Awaits (k : Clockwork) (lost : Nat → Nat) (i : EntryId) (dueMs launchMs : Nat)
    (before : List Event) (m : Moment) : Prop where
  | waiting (v : View) (told : List Event) (seen : m.view i = some v)
      (history : v.history = told ++ before) (none : launchTimes told = [])
      (poised : v.Poised dueMs) (owner : v.entry.owner = k.id)
      (aims : v.Aims k lost dueMs launchMs)
  | launched (v : View) (told : List Event) (seen : m.view i = some v)
      (history : v.history = told ++ before) (come : launchMs * 1000 ≤ m.world.runUs k)
      (first : ∃ rest, launchTimes told = min launchMs ceiling :: rest)
  | disturbed (v : View) (seen : m.view i = some v) (h : v.Disturbed before)

section

variable {takes : EntryId → Prop} {k : Clockwork} {lost : Nat → Nat} {m m' : Moment} {i : EntryId}
  {dueMs launchMs : Nat} {before : List Event}

/-- **One move of a timer that is behind** leaves its entry waiting for the same launch, launches
it at that time, or interferes with it. -/
theorem Move.awaits (h : Move (.steady takes) m m') (hm : m.Behind k lost)
    (hcustody : m.world.Custody m.hand) (hcount : dueMs ≤ ceiling)
    (ha : m.Awaits k lost i dueMs launchMs before) : m'.Awaits k lost i dueMs launchMs before := by
  have hlives := h.lives hcustody i
  have hclock := h.runUs_le k
  cases ha with
  | waiting v told seen history none poised owner aims =>
    obtain ⟨v', hv', hstepped⟩ := hlives.step seen
    have howner : v'.entry.owner = k.id := hstepped.timingStep.owner.trans owner
    have hpaced := hm.paced seen
    cases poised.step hstepped with
    | waits more history' none' poised' seat =>
      refine .waiting v' (more ++ told) hv' ?_ ?_ poised' howner (aims.of_seat seat)
      · rw [history', history, List.append_assoc]
      · rw [launchTimes_append, none, none']
        rfl
    | handsDown more history' none' poised' level tick nowMs drained early place =>
      refine .waiting v' (more ++ told) hv' ?_ ?_ poised' howner
        (aims.handDown hpaced poised hcount drained early place)
      · rw [history', history, List.append_assoc]
      · rw [launchTimes_append, none, none']
        rfl
    | launched more history' level tick nowMs drained due launch =>
      -- the launch happens at the tick in progress, which falls due now
      obtain ⟨hhere, hreading⟩ := aims.launch hpaced poised drained due
      obtain ⟨-, hstage, -⟩ := Moment.view_eq_some.1 seen
      obtain ⟨s, hs, rfl, rfl, -⟩ := Moment.sweep_of_drained (hstage.symm.trans drained)
      obtain ⟨-, hrun⟩ := hm.sweep hs
      rw [hhere] at hrun
      refine .launched v' (more ++ told) hv' ?_ (by rw [← hrun]; exact hclock) ⟨[], ?_⟩
      · rw [history', history, List.append_assoc]
      · rw [launchTimes_append, none, launch, hreading]
        rfl
    | disturbed e interferes hsuffix =>
      exact .disturbed v' hv' (.of_suffix history none interferes hsuffix)
  | launched v told seen history come first =>
    obtain ⟨v', hv', hstepped⟩ := hlives.step seen
    obtain ⟨more, hmore⟩ := hstepped.suffix
    obtain ⟨rest, hrest⟩ := first
    refine .launched v' (more ++ told) hv' ?_ (Nat.le_trans come hclock)
      ⟨rest ++ launchTimes more, ?_⟩
    · rw [← hmore, history, List.append_assoc]
    · rw [launchTimes_append, hrest]
      rfl
  | disturbed v seen hdisturbed =>
    obtain ⟨v', hv', hstepped⟩ := hlives.step seen
    exact .disturbed v' hv' (hdisturbed.step hstepped)

theorem Move.behind (h : Move (.steady takes) m m') (hm : m.Behind k lost) : m'.Behind k lost :=
  hm.clockworkStep (h.clockworkStep (fun _ ha => ha) id) id

/-- A timer that runs falls no further behind. Induction on the moves. -/
theorem Moves.behind (h : Moves (.steady takes) m m') (hm : m.Behind k lost) :
    m'.Behind k lost := by
  induction h with
  | refl => exact hm
  | tail _ hmove ih => exact hmove.behind ih

/-- **After a pause an entry that waits is launched at the time that its place stands for.** -/
theorem Moves.awaits (h : Moves (.steady takes) m m') (harises : m.Arises) (hm : m.Behind k lost)
    (hcount : dueMs ≤ ceiling) (ha : m.Awaits k lost i dueMs launchMs before) :
    m'.Awaits k lost i dueMs launchMs before := by
  induction h with
  | refl => exact ha
  | tail hmoves hmove ih =>
    have hbefore : Moment.Arises _ := harises.trans (Moves.free hmoves)
    exact hmove.awaits (Moves.behind hmoves hm) hbefore.custody hcount ih

/-- As long as the entry waits, the time of its launch has not passed. -/
theorem Moment.Behind.before_launch (hm : m.Behind k lost) (hcustody : m.world.Custody m.hand)
    {v : View} (hv : m.view i = some v) (poised : v.Poised dueMs) (owner : v.entry.owner = k.id)
    (aims : v.Aims k lost dueMs launchMs) : m.world.runUs k ≤ launchMs * 1000
      ∧ (m.sweep = none → m.world.isDue = false → m.world.runUs k < launchMs * 1000) := by
  obtain ⟨hpage, hstage, -⟩ := Moment.view_eq_some.1 hv
  have hentry := (World.page_eq_some.1 hpage).1
  -- the tick that is recorded comes no later than the launch, which the due time may put off
  have hplace : k.tickMs v.entry.level (v.entry.installedTick + lost v.entry.level) ≤ launchMs := by
    rw [← aims]
    exact Nat.le_max_left _ _
  rcases poised.place with hfree | ⟨nowMs, hdrained⟩
  · -- a slot holds the entry, and the tick that empties it is still to come
    obtain ⟨t, ht, honTime⟩ := hm.world.onTime.timer
    have hmem := (hcustody.mem_iff ht hentry).2 ⟨owner.trans honTime.id_eq.symm, poised.owned⟩
    have hslot := (List.mem_append.1 hmem).resolve_right
      (Moment.notMem_of_free (hstage.symm.trans hfree))
    obtain ⟨level, slot, hslot⟩ := Timer.mem_contents.1 hslot
    obtain ⟨wheel, slots, hwheel, -⟩ := id hslot
    have hberth := (hcustody.keeps ht).berth hslot hentry hwheel
    rw [hberth.level_eq] at hplace
    have hcoming : k.tickMs level (wheel.served + 1) ≤ launchMs := by
      refine Nat.le_trans (Nat.mul_le_mul_right _ ?_) hplace
      rw [hm.world.served ht hwheel]
      have hahead := hberth.ahead
      omega
    have hlast := Nat.mul_le_mul_right 1000 hcoming
    refine ⟨Nat.le_trans (honTime.wheel hwheel).ahead hlast, fun _ hidle => ?_⟩
    exact Nat.lt_of_lt_of_le
      (hm.world.onTime.before_next (World.isDue_iff.1 hidle) ht hwheel) hlast
  · -- the tick in progress drained the entry, and falls due now
    obtain ⟨s, hs, hlevel, htick, -⟩ := Moment.sweep_of_drained (hstage.symm.trans hdrained)
    obtain ⟨-, hrun⟩ := hm.sweep hs
    rw [hlevel, htick] at hrun
    refine ⟨?_, fun hnone => ?_⟩
    · rw [hrun]
      exact Nat.mul_le_mul_right _ hplace
    · rw [hnone] at hs
      simp at hs

/-- What becomes of an entry that nobody interferes with. -/
theorem Moment.Awaits.outcome (ha : m.Awaits k lost i dueMs launchMs before)
    (hm : m.Behind k lost) (hcustody : m.world.Custody m.hand) {new : List Event}
    (hhistory : m.world.history i = new ++ before) (hcalm : Undisturbed new) :
    (m.world.runUs k < launchMs * 1000 → launchTimes new = [])
      ∧ (launchMs * 1000 < m.world.runUs k
          ∨ launchMs * 1000 ≤ m.world.runUs k ∧ m.sweep = none ∧ m.world.isDue = false →
        ∃ rest, launchTimes new = min launchMs ceiling :: rest) := by
  -- what was told since is the same in the view and in the world
  have hnew : ∀ {v : View} {told : List Event}, m.view i = some v → v.history = told ++ before →
      told = new := by
    intro v told seen history
    have hsame := (World.page_eq_some.1 (Moment.view_eq_some.1 seen).1).2.1
    exact List.append_cancel_right ((history.symm.trans hsame).trans hhistory)
  cases ha with
  | waiting v told seen history none poised owner aims =>
    obtain rfl := hnew seen history
    obtain ⟨hwaits, hidle⟩ := hm.before_launch hcustody seen poised owner aims
    refine ⟨fun _ => none, fun hcome => ?_⟩
    rcases hcome with hpast | ⟨hnow, hsweep, hdue⟩
    · exact absurd hwaits (Nat.not_le.2 hpast)
    · exact absurd hnow (Nat.not_le.2 (hidle hsweep hdue))
  | launched v told seen history come first =>
    obtain rfl := hnew seen history
    exact ⟨fun hbefore => absurd come (Nat.not_le.2 hbefore), fun _ => first⟩
  | disturbed v seen hdisturbed =>
    obtain ⟨told, history, hnot⟩ := hdisturbed
    obtain rfl := hnew seen history
    exact absurd hcalm hnot

end

/-! ## From the stop to the start -/

/-- Ticks of a level that its ring is behind. -/
def Timer.lost (t : Timer) (level : Nat) : Nat :=
  (t.wheels[level]?.map fun wheel => wheel.served - wheel.ticks).getD 0

section

variable {k : Clockwork} {w : World} {t t' : Timer} {i : EntryId} {e : Entry}
  {executing : Option EntryId} {before : List Event}

/-- A timer that was started again is behind by the ticks that it lost. -/
theorem World.OnTime.behind_start (h : w.OnTime k) (ht : w.timer = some t)
    (stopped : t.status = .stopped)
    (hring : ∀ {level : Nat} {wheel : Wheel}, t.wheels[level]? = some wheel →
      wheel.ticks ≤ wheel.served) : (w.controlTimer t .start).Behind k t.lost := by
  obtain ⟨journal, -, heq⟩ := w.controlTimer_start ht stopped
  rw [heq]
  refine ⟨h.of_status ht (by decide) journal, fun ht' => ?_, fun {t' level wheel} ht' hwheel => ?_⟩
  · rw [← Option.some.inj ht']
  · rw [← Option.some.inj ht'] at hwheel
    replace hwheel : t.wheels[level]? = some wheel := hwheel
    have hle := hring hwheel
    simp only [Timer.lost, hwheel, Option.map_some, Option.getD_some]
    omega

/-- No more ticks of a level are lost than fall due between the stop and the start, and one. -/
theorem Timer.Loses.lost_le (h : t.Loses t') {us us' : Nat} (hstep : t.InStep k us)
    (honTime : t'.OnTime k us') (level : Nat) : t'.lost level * k.config.resolutionMs level * 1000
      ≤ us' - us + k.config.resolutionMs level * 1000 := by
  unfold Timer.lost
  cases hwheel' : t'.wheels[level]? with
  | none =>
    rw [Option.map_none, Option.getD_none, Nat.zero_mul, Nat.zero_mul]
    exact Nat.zero_le _
  | some wheel' =>
    obtain ⟨wheel, hwheel, hticks, hserved⟩ := h level wheel' hwheel'
    have hfirst := (hstep.wheel hwheel).served
    have hahead : us ≤ k.tickMs level wheel.ticks * 1000 + k.config.resolutionMs level * 1000 := by
      have hnext := (hstep.wheel hwheel).ahead
      rwa [Clockwork.tickMs, Nat.succ_mul, Nat.add_mul] at hnext
    have hreached : k.tickMs level wheel.ticks * 1000
        + (wheel'.served - wheel'.ticks) * k.config.resolutionMs level * 1000 ≤ us' := by
      have hlast := (honTime.wheel hwheel').reached
      rwa [← Nat.add_mul, Clockwork.tickMs, ← Nat.add_mul, hticks,
        Nat.add_sub_cancel' (hfirst ▸ hserved)]
    have hlost : ∀ {lastUs lostUs oneUs : Nat}, us ≤ lastUs + oneUs → lastUs + lostUs ≤ us' →
        lostUs ≤ us' - us + oneUs := by
      intro lastUs lostUs oneUs hstop hstart
      omega
    exact hlost hahead hreached

/-- A slot that would be emptied in time is emptied less than the length of the pause, a tick of its
level and a tick of the finest level after the entry is due. -/
theorem Clockwork.launch_lt (k : Clockwork) {level tick lostTicks dueMs pauseUs : Nat}
    (hplace : k.tickMs level tick ≤ roundUp k.config.intervalMs dueMs)
    (hlost : lostTicks * k.config.resolutionMs level * 1000
      ≤ pauseUs + k.config.resolutionMs level * 1000) :
    max (k.tickMs level (tick + lostTicks)) (roundUp k.config.intervalMs dueMs) * 1000
      < dueMs * 1000 + pauseUs + (k.config.resolutionMs level + k.config.intervalMs) * 1000 := by
  obtain ⟨-, hbase, -⟩ := TimerConfig.pos_of_validate k.valid
  have hround : roundUp k.config.intervalMs dueMs < dueMs + k.config.intervalMs :=
    roundUp_lt hbase dueMs
  have hsplit : k.tickMs level (tick + lostTicks)
      = k.tickMs level tick + lostTicks * k.config.resolutionMs level :=
    Nat.add_mul _ _ _
  rw [hsplit]
  generalize lostTicks * k.config.resolutionMs level = delayMs at hlost
  omega

/-- Stopping the timer between ticks makes nothing due. -/
theorem World.Timely.stop (h : w.Timely k) (ht : w.timer = some t) (running : t.status = .running) :
    (w.controlTimer t .stop).Timely k
      ∧ ∀ level, (w.controlTimer t .stop).overdue level = w.overdue level := by
  obtain ⟨journal, -, heq⟩ := w.controlTimer_stop ht running
  rw [heq]
  have honTime := h.onTime.of_status ht (by decide : TimerStatus.stopped ≠ .closed) journal
  exact ⟨⟨honTime, h.bodies⟩, h.onTime.overdue_eq honTime rfl (by rw [ht]; rfl)⟩

theorem Move.controlTimer {law : Law} (ht : w.timer = some t) {c : TimerControl}
    (allowed : law.acts (.timer c)) (sweep : Option Sweep) (executing : Option EntryId) :
    Move law ⟨w, sweep, executing⟩ ⟨w.controlTimer t c, sweep, executing⟩ := by
  have hact : Move law ⟨w, sweep, executing⟩
      ⟨(w.perform (World.invoke w.nesting) (.timer c)).2, sweep, executing⟩ :=
    .act ⟨w, sweep, executing⟩ (.timer c) _ (by simpa only [Action.All] using allowed)
      fun _ => by simp
  simpa only [World.perform, ht] using hact

/-- An armed entry that has a run left and no unfinished execution waits at its place. -/
theorem World.waitingOrDisturbed (harises : Moment.Arises ⟨w, none, executing⟩)
    (he : w.entries[i]? = some e) (ready : e.status = .ready)
    (left : e.remaining.isSpent = false) (owned : e.installed = true)
    (idle : Moment.unfinished ⟨w, none, executing⟩ i = 0) :
    Moment.WaitingOrDisturbed i e.dueMs e.seat (w.history i) ⟨w, none, executing⟩ := by
  obtain ⟨v, hv, hpage, rfl, hfree, -⟩ := Moment.exists_view (m := ⟨w, none, executing⟩) he
  have hnone : v.unfinished = 0 := (Moment.unfinished_of_view hv).trans idle
  have hinFlight : v.entry.inFlight = 0 := by rw [(harises.life hv).exclusive.inFlight, hnone]
  exact .waiting v [] hv (World.page_eq_some.1 hpage).2.1 rfl
    ⟨ready, rfl, left, hinFlight, Flight.eq_of_count hnone, owned, Or.inl hfree⟩ rfl

/-- **After a pause every level is behind by the ticks that it has lost**, and what waited in a slot
waits there. -/
theorem Moves.pause {w' : World} {executing' : Option EntryId}
    (harises : Moment.Arises ⟨w, none, executing⟩)
    (hstep : Moment.InStep ⟨w, none, executing⟩ k) (ht : w.timer = some t) {dueMs : Nat}
    {seat : TimerId × Bool × Nat × Nat}
    (hwaiting : Moment.WaitingOrDisturbed i dueMs seat before ⟨w, none, executing⟩)
    (h : Moves (.steady fun _ => True) ⟨w.controlTimer t .stop, none, executing⟩
      ⟨w', none, executing'⟩)
    (ht' : w'.timer = some t') (stopped : t'.status = .stopped) :
    Moment.Arises ⟨w'.controlTimer t' .start, none, executing'⟩
      ∧ Moment.Behind ⟨w'.controlTimer t' .start, none, executing'⟩ k t'.lost
      ∧ Moment.WaitingOrDisturbed i dueMs seat before ⟨w'.controlTimer t' .start, none, executing'⟩
      ∧ ∀ level, t'.lost level * k.config.resolutionMs level * 1000
          ≤ w'.clockUs - w.clockUs + k.config.resolutionMs level * 1000 := by
  have hring := hstep.world.of_timer ht
  -- the stop
  have hstop : Move .free ⟨w, none, executing⟩ ⟨w.controlTimer t .stop, none, executing⟩ :=
    .controlTimer ht trivial none executing
  obtain ⟨journal, -, heq⟩ := w.controlTimer_stop ht hring.running
  have honTime : World.OnTime (w.controlTimer t .stop) k := by
    rw [heq]
    exact hstep.world.onTime.of_status ht (by decide) journal
  -- while it is stopped
  have hstill : Moment.Arises _ := harises.tail hstop
  obtain ⟨-, hwaiting', t₀, ht₀, hloses⟩ :=
    Moves.waitingOrDisturbed h hstill rfl (hstop.waitingOrDisturbed harises.custody rfl hwaiting)
      ht' stopped
  have hlost : t.Loses t' := by
    rw [heq] at ht₀
    rw [← Option.some.inj ht₀] at hloses
    exact hloses
  have honTime' : w'.OnTime k := Moves.onTime h honTime
  -- the start
  have hgo : Move .free ⟨w', none, executing'⟩ ⟨w'.controlTimer t' .start, none, executing'⟩ :=
    .controlTimer ht' trivial none executing'
  have harises' : Moment.Arises ⟨w', none, executing'⟩ := hstill.trans (Moves.free h)
  refine ⟨harises'.tail hgo,
    ⟨honTime'.behind_start ht' stopped fun {level wheel'} hwheel' => ?_, fun hs => by simp at hs⟩,
    hgo.waitingOrDisturbed harises'.custody rfl hwaiting', fun level => ?_⟩
  · obtain ⟨wheel, hwheel, hticks, hserved⟩ := hlost level wheel' hwheel'
    rw [hticks, ← (hring.wheel hwheel).served]
    exact hserved
  · have hle := hlost.lost_le hring (honTime'.of_timer ht') level
    have hbegun := hstep.world.begun
    have hpause : w'.runUs k - w.runUs k ≤ w'.clockUs - w.clockUs := by
      simp only [World.runUs]
      omega
    exact Nat.le_trans hle (Nat.add_le_add_right hpause _)

/-- Commands that stop the timer once and start it again make three steady courses, and nothing is
due when they are over. -/
theorem World.Timely.paused (h : w.Timely k) (hidle : ∀ level, w.overdue level = 0)
    {w₁ w₂ w₃ : World} {t₁ t₂ : Timer} (h₁ : World.Course (fun _ => True) w w₁)
    (ht₁ : w₁.timer = some t₁) (running : t₁.status = .running)
    (h₂ : World.Course (fun _ => True) (w₁.step (.act (.timer .stop))).2 w₂)
    (ht₂ : w₂.timer = some t₂)
    (h₃ : World.Course (fun _ => True) (w₂.step (.act (.timer .start))).2 w₃) :
    Moves (.steady fun _ => True) ⟨w, none, none⟩ ⟨w₁, none, none⟩
      ∧ Moves (.steady fun _ => True) ⟨w₁.controlTimer t₁ .stop, none, none⟩ ⟨w₂, none, none⟩
      ∧ Moves (.steady fun _ => True) ⟨w₂.controlTimer t₂ .start, none, none⟩ ⟨w₃, none, none⟩
      ∧ w₃.isDue = false := by
  -- from each part of the course to the next the ticks stay in time and nothing stays due
  have hfree : ∀ {w : World}, True → ∀ j ∈ w.held, (fun _ => True) j := fun _ _ _ => trivial
  have hstop : (w₁.step (.act (.timer .stop))).2 = w₁.controlTimer t₁ .stop := by
    simp only [World.step, World.perform, ht₁]
  have hstart : (w₂.step (.act (.timer .start))).2 = w₂.controlTimer t₂ .start := by
    simp only [World.step, World.perform, ht₂]
  obtain ⟨hmoves₁, hidle₁, -⟩ := h₁.moves_timely hfree h hidle trivial
  obtain ⟨hstopped, hsame⟩ := (h.moves hmoves₁).stop ht₁ running
  rw [hstop] at h₂
  obtain ⟨hmoves₂, hidle₂, -⟩ := h₂.moves_timely hfree hstopped
    (fun level => (hsame level).trans (hidle₁ level)) trivial
  have hgo : Command.Steady (.act (.timer .start)) := rfl
  obtain ⟨hstepped, hidle'⟩ := (hstopped.moves hmoves₂).step hidle₂ (hfree trivial) hgo
  obtain ⟨hmoves₃, hidle₃, -⟩ :=
    h₃.moves_timely hfree ((hstopped.moves hmoves₂).moves hstepped) hidle' trivial
  rw [hstart] at hmoves₃
  exact ⟨hmoves₁, hmoves₂, hmoves₃, World.isDue_iff.2 hidle₃⟩

/-- When the timer has been started again, the place of the entry stands for a launch. -/
theorem Moment.WaitingOrDisturbed.awaits {m : Moment} {dueMs level tick : Nat}
    (hm : m.WaitingOrDisturbed i dueMs (k.id, true, level, tick) before) (lost : Nat → Nat) :
    m.Awaits k lost i dueMs
      (max (k.tickMs level (tick + lost level)) (roundUp k.config.intervalMs dueMs)) before := by
  cases hm with
  | waiting v told seen history none poised seat =>
    simp only [Entry.seat, Prod.mk.injEq] at seat
    obtain ⟨howner, -, hlevel, htick⟩ := seat
    refine .waiting v told seen history none poised howner ?_
    unfold View.Aims
    rw [hlevel, htick]
  | disturbed v seen hdisturbed => exact .disturbed v seen hdisturbed

end

/-- **A pause delays a launch by no more than its own length, one tick of the level that holds the
entry and one of the finest.** A timer of any accepted shape starts, and whatever happens leaves it
running and its clock to the passing of time. Then it is stopped outside a tick, while a slot holds
an entry that is ready, has a run left and no unfinished execution, and is due before the last count
there is. Anything may happen again, and the timer is started again outside a tick.

There is a time, which the place of the entry and the length of the pause determine, at which the
entry is launched, whatever happens afterwards, as long as nobody interferes with it before. It is
not launched before this time, and it was launched at it once the clock is past it, or is there and
nothing is due any more. The time is not before the entry is due, and it comes less than the length
of the pause, a tick of the level and a tick of the finest level after that.

With the launch the body starts, unless executions are held back (`World.dispatch_starts`). -/
theorem pause_delays {w₀ w₁ w₂ : World} {c : TimerConfig} (hc : c.validate = .ok ())
    (h₀ : Moment.Arises ⟨w₀, none, none⟩) {x₁ x₂ : Option EntryId}
    (h₁ : Moves (.steady fun _ => True) ⟨w₀.startTimer c, none, none⟩ ⟨w₁, none, x₁⟩)
    {t₁ t₂ : Timer} (ht₁ : w₁.timer = some t₁) {level slot : Nat} {i : EntryId}
    (hslot : t₁.SlotHas level slot i) {e : Entry} (he : w₁.entries[i]? = some e)
    (hready : e.status = .ready) (hleft : e.remaining.isSpent = false)
    (hinterval : 1 ≤ e.intervalMs) (hcount : e.dueMs < ceiling)
    (hidle : Moment.unfinished ⟨w₁, none, x₁⟩ i = 0)
    (h₂ : Moves (.steady fun _ => True) ⟨w₁.controlTimer t₁ .stop, none, x₁⟩ ⟨w₂, none, x₂⟩)
    (ht₂ : w₂.timer = some t₂) (hstopped : t₂.status = .stopped) :
    ∃ launchMs, e.dueMs ≤ launchMs
      ∧ launchMs * 1000 < e.dueMs * 1000 + (w₂.clockUs - w₁.clockUs)
          + (c.intervalMs * Nat.pow c.slots level + c.intervalMs) * 1000
      ∧ ∀ (m : Moment) (new : List Event),
        Moves (.steady fun _ => True) ⟨w₂.controlTimer t₂ .start, none, x₂⟩ m →
        m.world.history i = new ++ w₁.history i → Undisturbed new →
        (m.world.clockUs - w₀.clockUs < launchMs * 1000 → launchTimes new = [])
        ∧ (launchMs * 1000 < m.world.clockUs - w₀.clockUs
            ∨ launchMs * 1000 ≤ m.world.clockUs - w₀.clockUs ∧ m.sweep = none
              ∧ m.world.isDue = false →
          ∃ rest, launchTimes new = min launchMs ceiling :: rest) := by
  let k : Clockwork := ⟨c, hc, w₀.timers, w₀.clockUs⟩
  obtain ⟨-, hbase, -⟩ := TimerConfig.pos_of_validate hc
  -- up to the stop
  have hstart : Moment.Arises ⟨w₀.startTimer c, none, none⟩ := h₀.tail (.create w₀ c trivial hc)
  have harises₁ : Moment.Arises ⟨w₁, none, x₁⟩ := hstart.trans (Moves.free h₁)
  have hstep₀ := (w₀.startTimer_inStep hc).1
  have hstep₁ : Moment.InStep ⟨w₁, none, x₁⟩ k := Moves.inStep h₁ (hstep₀.moment none)
  have hstep := hstep₁.world.of_timer ht₁
  have hin : Moment.InTime ⟨w₁, none, x₁⟩ k :=
    (Moves.inTime_of_start hc h₀ (Moves.lagging h₁)).2
  have hplace : k.tickMs level e.installedTick ≤ roundUp k.config.intervalMs e.dueMs :=
    hin.of_slot harises₁.custody ht₁ hslot he hinterval (Or.inl hcount)
  have hseat : e.seat = (k.id, true, level, e.installedTick) :=
    (harises₁.custody.seat_of_slot ht₁ hslot he).trans
      (congrArg (·, true, level, e.installedTick) hstep.id_eq)
  -- the pause
  obtain ⟨harises₂, hbehind, hwaiting, hlost⟩ := Moves.pause harises₁ hstep₁ ht₁
    (World.waitingOrDisturbed harises₁ he hready hleft (congrArg (·.2.1) hseat) hidle) h₂ ht₂
    hstopped
  -- the launch
  have hawaits := (hseat ▸ hwaiting).awaits t₂.lost
  refine ⟨max (k.tickMs level (e.installedTick + t₂.lost level))
    (roundUp k.config.intervalMs e.dueMs),
    Nat.le_trans (le_roundUp hbase e.dueMs) (Nat.le_max_right _ _), ?_,
    fun m new hmoves hhistory hcalm => ?_⟩
  · have hlaunch := k.launch_lt hplace (hlost level)
    rwa [k.config.resolutionMs_eq level] at hlaunch
  · have harises : Moment.Arises m := harises₂.trans (Moves.free hmoves)
    exact (Moves.awaits hmoves harises₂ hbehind (Nat.le_of_lt hcount) hawaits).outcome
      (Moves.behind hmoves hbehind) harises.custody hhistory hcalm

/-- A job with one run every 95 ms that is added at 3 ms. The coarsest level holds it when 25 ms
have passed, and would hand it down at 80 ms. -/
def heldAtStop : World :=
  ((((({} : World).startTimer { slots := 2, levels := 3, intervalMs := 10 }).step
    (.advance 3000)).2.step (.act (.schedule "a" (.repeating 95) none [] []))).2.step
    (.advance 22000)).2

/-- The timer is stopped for 25 ms, in which a tick of the coarsest level falls due. -/
def heldAtStart : World :=
  ((heldAtStop.step (.act (.timer .stop))).2.step (.advance 25000)).2

/-- The timer is started again, and 130 ms pass. -/
def launchedLate : World :=
  ((heldAtStart.step (.act (.timer .start))).2.step (.advance 130000)).2

/-- The job is due at 98 ms. The level that holds it takes 40 ms from one tick to the next. -/
theorem pause_delays_by_coarse_tick : ∃ launchMs, 98 ≤ launchMs
    ∧ launchMs * 1000 < 98 * 1000 + 25000 + (40 + 10) * 1000
    ∧ launchTimes (launchedLate.history 0) = [launchMs] := by
  have hc : ({ slots := 2, levels := 3, intervalMs := 10 } : TimerConfig).validate = .ok () := by
    decide +kernel
  -- the coarsest level holds the job when the timer is stopped
  obtain ⟨t₁, ht₁, hmark₁⟩ : ∃ t, heldAtStop.timer = some t ∧ (t.status,
      t.wheels[2]?.bind fun wheel => wheel.slots[0]?.map fun slots => slots.contains 0)
        = (.running, some true) :=
    Option.map_eq_some_iff.1 (by decide +kernel)
  simp only [Prod.mk.injEq] at hmark₁
  obtain ⟨hrunning, hslot⟩ := hmark₁
  obtain ⟨wheel, hwheel, hslots⟩ := Option.bind_eq_some_iff.1 hslot
  obtain ⟨slots, hslots, hmem⟩ := Option.map_eq_some_iff.1 hslots
  obtain ⟨e, he, hmark⟩ : ∃ e, heldAtStop.entries[0]? = some e
      ∧ (e.status, e.remaining, e.intervalMs, e.dueMs) = (.ready, .unlimited, 95, 98) :=
    Option.map_eq_some_iff.1 (by decide +kernel)
  simp only [Prod.mk.injEq] at hmark
  obtain ⟨hready, hleft, hinterval, hdue⟩ := hmark
  obtain ⟨t₂, ht₂, hstopped⟩ : ∃ t, heldAtStart.timer = some t ∧ t.status = .stopped :=
    Option.map_eq_some_iff.1 (by decide +kernel)
  -- the courses of commands
  obtain ⟨hstep, hsettled⟩ := ({} : World).startTimer_inStep hc
  have htimely : World.Timely _ ⟨_, hc, 0, 0⟩ :=
    ⟨hstep.onTime, World.startTimer_allBodies (fun j hj => by simp at hj) _⟩
  have hbefore : World.Course (fun _ => True) _ heldAtStop :=
    .step _ (.step _ (.step _ .start trivial trivial) ⟨trivial, trivial⟩ trivial) trivial trivial
  have hpaused : World.Course (fun _ => True) _ heldAtStart := .step _ .start trivial trivial
  have hresumed : World.Course (fun _ => True) _ launchedLate := .step _ .start trivial trivial
  obtain ⟨h₁, h₂, h₃, hidle⟩ := htimely.paused (hstep.lags.settled_iff.1 hsettled) hbefore ht₁
    hrunning hpaused ht₂ hresumed
  obtain ⟨launchMs, hlow, hhigh, hafter⟩ := pause_delays hc (.start 3) h₁ ht₁
    ⟨wheel, slots, hwheel, hslots, by simpa using hmem⟩ he hready (by rw [hleft]; rfl) (by omega)
    (by rw [hdue]; decide) (by decide +kernel) h₂ ht₂ hstopped
  have hpause : heldAtStart.clockUs - heldAtStop.clockUs = 25000 := by decide +kernel
  rw [hdue, hpause] at hhigh
  replace hhigh : launchMs * 1000 < 98 * 1000 + 25000 + (40 + 10) * 1000 := hhigh
  refine ⟨launchMs, by omega, hhigh, ?_⟩
  have hclock : launchedLate.clockUs - ({} : World).clockUs = 180000 := by decide +kernel
  obtain ⟨rest, hrest⟩ := (hafter _ ((launchedLate.history 0).take
    ((launchedLate.history 0).length - (heldAtStop.history 0).length)) h₃ (by decide +kernel)
    (.of_calm (by decide +kernel))).2
      (Or.inr ⟨by rw [hclock]; omega, rfl, hidle⟩)
  have hnow : launchTimes ((launchedLate.history 0).take
      ((launchedLate.history 0).length - (heldAtStop.history 0).length)) = [120] := by
    decide +kernel
  rw [hnow] at hrest
  have hceiling : launchMs < ceiling := by
    rw [ceiling]
    omega
  have hlaunch : launchMs = 120 := by
    rw [← Nat.min_eq_left (Nat.le_of_lt hceiling)]
    exact (List.cons.inj hrest).1.symm
  rw [hlaunch]
  decide +kernel

end TimingWheel
