import TimingWheel.Proofs.Exclusivity
import TimingWheel.Proofs.Lagging
import TimingWheel.Proofs.Pursuit

/-!
# A reset arms an entry anew

An entry can be reset while it waits in a slot, on whatever level, with all of its runs left, with
some of them or with none; while it is stopped and passed over from interval to interval; when it
was closed and its slot has not been emptied yet; and when the wheels have given it up. Only in the
last case it is put into a slot, and due one interval from now. In the others it keeps its place and
its due time. Since the place was chosen for this due time, the entry is looked at in time, and what
follows is the schedule of an entry with all of its runs.

* **`Page.Rearmed`** — what a reset makes of an entry, wherever it is found.
* **`World.rearmedPlan`** — the plan of an entry that is reset.
* **`World.reset_atStart`** — after a reset the entry waits for the first launch of this plan.
* **`reset_rearms`** — what becomes of it.
-/

namespace TimingWheel

/-! ## The entry -/

section

variable {p : Page} {i : EntryId}

/-- A reset of an entry that the wheels own only marks it. -/
theorem Page.control_reset_of_owned (owned : p.entry.installed = true) :
    (p.control i .reset).entry = p.entry.reset := by
  have hkept : p.entry.reset.installed = true := owned
  simp only [control, reinstall, log, tell, modify, hkept, Bool.not_true, Bool.and_false]
  rfl

/-- A reset of an entry that the wheels gave up hands it to them at once, due an interval from
now. -/
theorem Page.control_reset_of_released (there : p.there = true) (out : p.entry.installed = false) :
    (p.control i .reset).entry = { p.entry.reset with
      installed := true
      dueMs := addCapped p.nowMs p.entry.intervalMs
      level := (p.aim (addCapped p.nowMs p.entry.intervalMs - p.nowMs)).1
      installedTick := (p.aim (addCapped p.nowMs p.entry.intervalMs - p.nowMs)).2 } := by
  have hkept : p.entry.reset.installed = false := out
  simp only [control, reinstall, log, tell, modify, there, hkept, Bool.not_false, Bool.and_self]
  rfl

/-- What a reset has made of an entry once a look has settled it. It is ready, with all of its runs,
and the wheels own it. If they did so before, it has kept its place and its due time; otherwise it
is due an interval from the reset, and lies where this delay is put. -/
structure Page.Rearmed (p : Page) (e : Entry) : Prop where
  owner : e.owner = p.entry.owner
  intervalMs : e.intervalMs = p.entry.intervalMs
  inFlight : e.inFlight = p.entry.inFlight
  remaining : e.remaining = p.entry.limit
  ready : e.status = .ready
  owned : e.installed = true
  kept : p.entry.installed = true → e.dueMs = p.entry.dueMs
    ∧ e.level = p.entry.level ∧ e.installedTick = p.entry.installedTick
  anew : p.entry.installed = false → e.dueMs = addCapped p.nowMs p.entry.intervalMs
    ∧ e.level = (p.aim (e.dueMs - p.nowMs)).1 ∧ e.installedTick = (p.aim (e.dueMs - p.nowMs)).2

/-- **A reset arms an entry anew**, whatever its status is and whoever has it. -/
theorem Page.rearmed_reset (there : p.there = true) :
    p.Rearmed (p.control i .reset).entry.settleReset := by
  cases howned : p.entry.installed with
  | true =>
    rw [Page.control_reset_of_owned howned]
    exact ⟨rfl, rfl, rfl, rfl, rfl, howned, fun _ => ⟨rfl, rfl, rfl⟩,
      fun out => by simp [howned] at out⟩
  | false =>
    rw [Page.control_reset_of_released there howned]
    exact ⟨rfl, rfl, rfl, rfl, rfl, rfl, fun owned => by simp [howned] at owned,
      fun _ => ⟨rfl, rfl, rfl⟩⟩

end

/-- The plan of an entry that is reset. Where a slot holds it, it is due when it was due, and one
interval from now otherwise. -/
def World.rearmedPlan (w : World) (c : TimerConfig) (e : Entry) : Plan :=
  ⟨c.intervalMs, if e.installed then e.dueMs - e.intervalMs else w.nowMs, e.intervalMs, e.limit⟩

/-- The first due time of the plan is the one the entry has, or the one it gets as it is taken back,
as long as its interval is a count. -/
theorem World.dueMs_rearmedPlan_of_fits (w : World) (c : TimerConfig) {e : Entry}
    (hspaced : e.Spaced) (hfits : e.intervalMs ≤ ceiling) : (w.rearmedPlan c e).dueMs 0
      = if e.installed then e.dueMs else w.nowMs + e.intervalMs := by
  unfold Entry.Spaced at hspaced
  unfold rearmedPlan Plan.dueMs
  cases e.installed with
  | true =>
    simp only [if_true]
    omega
  | false => rfl

/-- Where due times end at the last count, so does the first one of the plan. -/
theorem World.dueMs_rearmedPlan (w : World) (c : TimerConfig) {e : Entry} (hspaced : e.Spaced)
    (hcount : e.dueMs ≤ ceiling) : min ((w.rearmedPlan c e).dueMs 0) ceiling
      = if e.installed then e.dueMs else addCapped w.nowMs e.intervalMs := by
  unfold Entry.Spaced at hspaced
  unfold rearmedPlan Plan.dueMs addCapped
  cases e.installed with
  | true =>
    simp only [if_true]
    omega
  | false => rfl

/-! ## The reset -/

section

variable {a : Assignment} {w : World} {i : EntryId} {e : Entry} {handle : String}

/-- The command that resets an entry through a handle is the control of that entry. -/
theorem World.step_reset (hlookup : w.lookup handle = some i) (he : w.entries[i]? = some e) :
    (w.step (.act (.control handle .reset))).2
      = (w.control (invoke w.nesting) i e .reset).2 := by
  simp only [step, perform, withEntry, hlookup, he]

/-- **After a reset the entry waits for the first launch of its plan**, whatever became of it. -/
theorem World.reset_atStart (harises : Moment.Arises ⟨w, none, none⟩) (hw : w.InStep a.clockwork)
    (hin : Moment.InTime ⟨w, none, none⟩ a.clockwork) (hclock : w.nowMs < ceiling)
    (hlookup : w.lookup handle = some i) (he : w.entries[i]? = some e)
    (howner : e.owner = a.clockwork.id) (hlimit : e.limit.isSpent = false)
    (hheld : i ∉ w.held) (hplan : a.plan = w.rearmedPlan a.clockwork.config e) :
    ∃ v, Moment.view ⟨(w.step (.act (.control handle .reset))).2, none, none⟩ i = some v
      ∧ (v.since []).AtStart a := by
  obtain ⟨v, hv, hpage, rfl, hstage, hflight⟩ := Moment.exists_view (m := ⟨w, none, none⟩) he
  obtain ⟨-, -, hthere, hnow, haim⟩ := World.page_eq_some.1 hpage
  have hlife := harises.life hv
  have hdue := w.dueMs_rearmedPlan a.clockwork.config hlife.spaced hlife.dueMs_le
  rw [← hplan] at hdue
  have hmore : a.plan.runs.Allows 0 := Runs.allows_zero.2 (by rw [hplan]; exact hlimit)
  have hinterval := a.interval_pos
  have hms : a.plan.intervalMs = v.entry.intervalMs := by rw [hplan]; rfl
  have hround : roundUp a.clockwork.config.intervalMs (a.plan.dueMs 0) = a.plan.launchMs 0 := by
    rw [Plan.launchMs, a.period_eq]
  have hnone : v.flight = ⟨0, false⟩ := by
    rw [hflight]
    simp only [Moment.flight, List.count_eq_zero.2 hheld]
    rfl
  have hinFlight : v.entry.inFlight = 0 := by
    rw [hlife.exclusive.inFlight, View.unfinished, hnone]
    rfl
  -- its timer is there
  have hhas : v.there = true := by
    obtain ⟨t, ht, hstep⟩ := hw.timer
    rw [hthere]
    simp [World.hasTimer, ht, howner, hstep.id_eq]
  have hpage' := World.page_control (c := .reset) hpage (by decide) (invoke w.nesting)
  rw [← World.step_reset hlookup he] at hpage'
  have hheld' : (w.step (.act (.control handle .reset))).2.held = w.held := by
    rw [World.step_reset hlookup he]
    exact (World.control_aside (by decide) (invoke w.nesting) w i v.entry).held
  refine ⟨{ v.toPage.control i .reset with stage := .free, flight := v.flight },
    Moment.view_eq_some.2 ⟨hpage', rfl, ?_⟩, ?_⟩
  · rw [hflight]
    simp only [Moment.flight, hheld']
  have hrearmed : v.toPage.Rearmed (v.toPage.control i .reset).entry.settleReset :=
    Page.rearmed_reset hhas
  have hruns : v.entry.limit = a.plan.runs := by rw [hplan]; rfl
  refine ⟨hrearmed.intervalMs.trans hms.symm, hrearmed.owner.trans howner,
    hrearmed.remaining.trans hruns, hmore, rfl, hnone, hrearmed.inFlight.trans hinFlight, rfl,
    hrearmed.ready, hrearmed.owned, ?_, fun hfits => ?_⟩ <;> simp only [View.since] <;>
    generalize (v.toPage.control i .reset).entry.settleReset = e' at hrearmed
  · rw [hdue]
    split
    · next howned => exact (hrearmed.kept howned).1
    · next hout =>
      rw [(hrearmed.anew (Bool.eq_false_iff.2 hout)).1, hnow]
  · rw [Nat.min_eq_left hfits] at hdue
    rw [← hround]
    split at hdue
    · next howned =>
      -- it keeps its place, which was chosen for the due time that it has
      obtain ⟨-, hlevel, htick⟩ := hrearmed.kept howned
      rw [hlevel, htick, hdue]
      exact hin hv hhas hstage howned (by omega) (Or.inr (by rw [hnow]; exact hclock))
    · next hout =>
      obtain ⟨hnext, hlevel, htick⟩ := hrearmed.anew (Bool.eq_false_iff.2 hout)
      rw [hlevel, htick, hnext, hnow, haim, ← hdue]
      refine hw.aim ?_ hfits
      rw [hdue]
      unfold addCapped
      omega

end

/-! ## Courses of commands -/

/-- After a course of commands every entry that a slot holds is looked at in time. -/
theorem World.Course.inTime {w₀ w₁ : World} {c : TimerConfig}
    (h : (w₀.startTimer c).Course (fun _ => True) w₁) (hc : c.validate = .ok ())
    (h₀ : Moment.Arises ⟨w₀, none, none⟩) (hbodies : w₀.AllBodies Action.Steady) :
    Moment.InTime ⟨w₁, none, none⟩ ⟨c, hc, w₀.timers, w₀.clockUs⟩ := by
  obtain ⟨hmoves, -⟩ := h.moves (fun _ _ _ => trivial : ∀ {w : World}, True →
    ∀ j ∈ w.held, (fun _ => True) j) (World.startTimer_steady hc hbodies)
    (w₀.startTimer_inStep hc).2 trivial
  exact (Moves.inTime_of_start hc h₀ (Moves.lagging hmoves)).2

/-- **A reset arms an entry anew, whatever became of it.** A timer of any accepted shape starts, and
commands leave it running and its clock to the passing of time, whatever else they do. None of the
executions of an entry is unfinished, the runs it was given are not none, and it is reset. Commands
of this kind follow, in which nobody controls the entry, its body does not exit and none of its
executions is held back, and the clock does not come to the last count there is.

Then the entry is due when it was due if a slot holds it, and one interval from the reset otherwise,
and the tick of the base period at which it is launched for this is still to come. Since the reset
it was launched at the times that its plan says, for all the runs it was given and no more. Once
these are used up it is over and in no slot, and until then a slot holds it.

A launch is what a tick decides. That the body starts with it is `World.dispatch_starts`, and that
it started once for each launch is `World.Reachable.launches_started`. -/
theorem reset_rearms {w₀ w₁ w₂ : World} {c : TimerConfig} (hc : c.validate = .ok ())
    (h₀ : Moment.Arises ⟨w₀, none, none⟩) (hbodies : w₀.AllBodies Action.Steady)
    (h₁ : (w₀.startTimer c).Course (fun _ => True) w₁) {handle : String} {i : EntryId} {e : Entry}
    (hlookup : w₁.lookup handle = some i) (he : w₁.entries[i]? = some e)
    (howner : e.owner = w₀.timers) (hinterval : 1 ≤ e.intervalMs) (hlimit : e.limit.isSpent = false)
    (hidle : i ∉ w₁.held)
    (h₂ : (w₁.step (.act (.control handle .reset))).2.Course (i ∉ ·.held) w₂)
    {new : List Event}
    (hhistory : w₂.history i = new ++ (w₁.step (.act (.control handle .reset))).2.history i)
    (hcalm : ∀ ev ∈ new, ev.interferes = false) (hclock : w₂.nowMs < ceiling) :
    (e.installed = true ↔ ∃ t level slot, w₁.timer = some t ∧ t.SlotHas level slot i)
    ∧ (e.intervalMs ≤ ceiling → (w₁.rearmedPlan c e).dueMs 0
        = if e.installed then e.dueMs else w₁.nowMs + e.intervalMs)
    ∧ w₁.clockUs - w₀.clockUs < (w₁.rearmedPlan c e).launchMs 0 * 1000
    ∧ ∃ e' n, w₂.entries[i]? = some e'
      ∧ launchTimes new = (List.range n).map (w₁.rearmedPlan c e).launchMs
      ∧ (∀ p, p < n ↔ e.limit.Allows p
          ∧ (w₁.rearmedPlan c e).launchMs p * 1000 ≤ w₂.clockUs - w₀.clockUs)
      ∧ (e.limit.Allows n → e'.installed = true)
      ∧ (¬ e.limit.Allows n → e'.status = .closed
          ∧ ∀ t level slot, w₂.timer = some t → ¬ t.SlotHas level slot i) := by
  let a : Assignment := ⟨⟨c, hc, w₀.timers, w₀.clockUs⟩, w₁.rearmedPlan c e, rfl, hinterval⟩
  -- up to the reset
  obtain ⟨harises₁, hsteady₁, hsettled₁⟩ := h₁.started hc h₀ hbodies
  have hin : Moment.InTime ⟨w₁, none, none⟩ a.clockwork := h₁.inTime hc h₀ hbodies
  -- the reset
  have haside : w₁.Aside (w₁.step (.act (.control handle .reset))).2 := by
    rw [World.step_reset hlookup he]
    exact World.control_aside (by decide) (World.invoke w₁.nesting) w₁ i e
  have hreset : Command.Steady (.act (.control handle .reset)) := trivial
  obtain ⟨hmoves, hsettled⟩ := hsteady₁.step hsettled₁
    (fun _ _ => trivial : ∀ j ∈ w₁.held, (fun _ => True) j) hreset
  have hsteady := hsteady₁.moves hmoves
  have harises : Moment.Arises _ := harises₁.trans (Moves.free hmoves)
  -- from the reset on
  obtain ⟨hmoves₂, hsettled₂, hheld₂⟩ := h₂.moves (fun hout j hj heq => hout (heq ▸ hj) :
    ∀ {w : World}, i ∉ w.held → ∀ j ∈ w.held, j ≠ i) hsteady hsettled (by rwa [haside.held])
  have hsteady₂ := hsteady.moves hmoves₂
  have harises₂ : Moment.Arises ⟨w₂, none, none⟩ := harises.trans (Moves.free hmoves₂)
  have hclock' := Nat.lt_of_le_of_lt (Moves.clock_le hmoves₂ (hsteady.inStep.moment none)) hclock
  have hclock₁ := Nat.lt_of_le_of_lt (Moves.clock_le hmoves (hsteady₁.inStep.moment none)) hclock'
  obtain ⟨v, hv, hstart⟩ := World.reset_atStart (a := a) harises₁ hsteady₁.inStep hin hclock₁
    hlookup he howner hlimit hidle rfl
  have hsame := (World.page_eq_some.1 (Moment.view_eq_some.1 hv).1).2.1
  have hpursues := hstart.pursues hv (hsame.trans (List.nil_append _).symm)
  refine ⟨?_, fun hfits => ?_, ?_, ?_⟩
  · obtain ⟨t, ht, hstep⟩ := hsteady₁.inStep.timer
    rw [harises₁.custody.installed_iff ht he (howner.trans hstep.id_eq.symm)]
    constructor
    · rintro ⟨level, slot, hslot⟩
      exact ⟨t, level, slot, ht, hslot⟩
    · rintro ⟨t', level, slot, ht', hslot⟩
      obtain rfl : t = t' := Option.some.inj (ht.symm.trans ht')
      exact ⟨level, slot, hslot⟩
  · obtain ⟨v₁, hv₁, -, rfl, -⟩ := Moment.exists_view (m := ⟨w₁, none, none⟩) he
    exact w₁.dueMs_rearmedPlan_of_fits c (harises₁.life hv₁).spaced hfits
  · -- the launches that have come by the reset are none
    obtain ⟨-, n, -, -, htimes, hcount, -⟩ := hpursues.outcome hsteady.inStep hsettled
      harises.custody hclock' (by rwa [haside.held]) (List.nil_append _).symm (by simp)
    have hnone : n = 0 := by simpa [launchTimes] using congrArg List.length htimes.symm
    have hrun : w₁.clockUs - w₀.clockUs = World.runUs _ a.clockwork :=
      congrArg (· - w₀.clockUs) haside.clockUs.symm
    rw [hrun]
    apply Nat.lt_of_not_le
    intro hcome
    have hlt := (hcount 0).2 ⟨Runs.allows_zero.2 hlimit, hcome⟩
    omega
  · obtain ⟨e', n, he', -, hrest⟩ :=
      (Moves.pursues hmoves₂ harises (hsteady.inStep.moment none) hclock hpursues).outcome
        hsteady₂.inStep hsettled₂ harises₂.custody hclock hheld₂ hhistory hcalm
    exact ⟨e', n, he', hrest⟩

/-- A job with two runs, one every 45 ms, that is closed when 60 ms have passed. It was launched
once by then, and its slot has not been emptied since. -/
def closedInSlot : World :=
  (((coarseFirstTimer.step (.act (.schedule "a" (.counted 45 (.left 2)) none [] []))).2.step
    (.advance 60000)).2.step (.act (.control "a" .close))).2

/-- The job is reset at once, and 120 ms pass. -/
def rearmedInSlot : World :=
  ((closedInSlot.step (.act (.control "a" .reset))).2.step (.advance 120000)).2

/-- The job is due at 90 ms as it was before, and at 135 ms, and has both of its runs again. -/
theorem reset_rearms_in_slot : launchTimes (rearmedInSlot.history 0) = [50, 90, 140]
    ∧ ∃ e, rearmedInSlot.entries[0]? = some e ∧ e.status = .closed
        ∧ ∀ t level slot, rearmedInSlot.timer = some t → ¬ t.SlotHas level slot 0 := by
  obtain ⟨e, he, hmark⟩ : ∃ e, closedInSlot.entries[0]? = some e
      ∧ (e.owner, e.intervalMs, e.limit, e.installed, e.dueMs) = (0, 45, .left 2, true, 90) :=
    Option.map_eq_some_iff.1 (by decide +kernel)
  simp only [Prod.mk.injEq] at hmark
  obtain ⟨howner, hinterval, hlimit, howned, hdue⟩ := hmark
  obtain ⟨-, -, -, e', n, he', -, hcount, -, hover⟩ := @reset_rearms {} closedInSlot
    rearmedInSlot { slots := 2, levels := 3, intervalMs := 10 } (by decide +kernel) (.start 3)
    (fun j hj => by simp at hj)
    (.step _ (.step _ (.step _ (.step _ .start trivial trivial) ⟨trivial, trivial⟩ trivial) trivial
      trivial) trivial trivial) "a" 0 e (by decide +kernel) he howner (by omega)
    (by rw [hlimit]; rfl) (by decide +kernel) (.step _ .start trivial (by decide +kernel))
    ((rearmedInSlot.history 0).take ((rearmedInSlot.history 0).length
      - ((closedInSlot.step (.act (.control "a" .reset))).2.history 0).length))
    (by decide +kernel) (by decide +kernel) (by decide +kernel)
  have hplan : closedInSlot.rearmedPlan { slots := 2, levels := 3, intervalMs := 10 } e
      = ⟨10, 45, 45, .left 2⟩ := by
    simp only [World.rearmedPlan, howned, hdue, hinterval, hlimit, if_true]
  rw [hplan] at hcount
  rw [hlimit] at hcount hover
  -- both launches have come
  have htwo : 1 < n := (hcount 1).2 ⟨by decide, by decide +kernel⟩
  exact ⟨by decide +kernel, e', he', hover (Nat.not_lt.2 htwo)⟩

end TimingWheel
