import TimingWheel.Proofs.Onward

/-!
# Never late, also after the clock was moved

The clock may be moved past any number of ticks, and each level catches up with it by itself. While
it does, entries are drained, launched and placed again, relative to counters that are behind by
different amounts and with the delay that is really left. An entry is never put later than the first
base tick at which it is due, whatever level takes it: a counter that is behind only makes its tick
come earlier. So an entry that a slot still holds once nothing is due any more is due after the last
base tick.

* **`World.Lags`** — the invariant of the timer, kept by everything that happens
  (`Moment.Lags.clockworkStep`).
* **`View.InTime`** — the invariant of an entry, kept by every step of its timing
  (`View.InTime.timingStep`).
* **`never_late`** — after settling, nothing that is due at or before the last base tick waits in a
  slot.
-/

namespace TimingWheel

/-- What may happen to a timer that is neither stopped nor closed. The clock may be moved on by
waiting, over any number of ticks, and the levels may be served in any order. -/
def Law.lagging : Law where
  acts := Action.Steady
  ticks := True
  waits w us := w.clockUs ≤ us
  takes _ := True
  replaces := False

/-- What happens on a steady course may happen to a timer that falls behind, too. -/
theorem Moves.lagging {takes : EntryId → Prop} {m m' : Moment} (h : Moves (.steady takes) m m') :
    Moves .lagging m m' := by
  induction h with
  | refl => exact .refl
  | tail _ hmove ih =>
    exact ih.tail (@Move.mono (.steady takes) .lagging (fun _ ha => ha) id (fun _ _ hw => hw.1)
      (fun _ _ => trivial) id _ _ hmove)

/-! ## The timer -/

/-- The timer may have ticks to make up for, and a tick in progress deals with its entries at the
time at which it drained them. -/
structure Moment.Lags (m : Moment) (k : Clockwork) : Prop where
  world : m.world.Lags k
  sweep : ∀ {s : Sweep}, m.sweep = some s → s.nowMs = m.world.nowMs

section

variable {k : Clockwork} {w w' : World} {t : Timer} {level : Nat} {wheel : Wheel}

/-- Where the world stands still, no level falls further behind. -/
theorem World.Still.lags (h : w.Still w') (hw : w.Lags k) : w'.Lags k := by
  obtain ⟨t, ht, hlags⟩ := hw.timer
  obtain ⟨t', ht', hsame, hstatus⟩ := h.timer_after ht
  refine ⟨by rw [h.clockUs]; exact hw.begun, t', ht', ?_⟩
  rw [h.runUs]
  refine ⟨?_, ?_, hstatus.trans hlags.running, (Timer.size_of_works hsame).trans hlags.size,
    fun hwheel' => ?_⟩
  · exact (congrArg (·.1) hsame).trans hlags.id_eq
  · exact (congrArg (·.2.1) hsame).trans hlags.epochUs
  · obtain ⟨wheel, hwheel, hbare⟩ := Timer.wheel_of_works hsame hwheel'
    obtain ⟨us, hus, hstep⟩ := hlags.wheel hwheel
    exact ⟨us, hus, hstep.of_bare hbare⟩

/-- Waiting leaves the levels behind. -/
theorem World.Lags.wait (h : w.Lags k) {us : Nat} (hus : w.clockUs ≤ us) :
    World.Lags { w with clockUs := us } k := by
  obtain ⟨t, ht, hlags⟩ := h.timer
  refine ⟨Nat.le_trans h.begun hus, t, ht, hlags.id_eq, hlags.epochUs, hlags.running, hlags.size,
    fun hwheel => ?_⟩
  obtain ⟨us', hus', hstep⟩ := hlags.wheel hwheel
  exact ⟨us', Nat.le_trans hus' (Nat.sub_le_sub_right hus _), hstep⟩

/-- A level that comes to a due tick is in step with the time of that tick. -/
theorem World.Lags.drained (h : w.Lags k) (ht : w.timer = some t)
    (hwheel : t.wheels[level]? = some wheel) (due : 1 ≤ w.overdue level) :
    (w.drained level wheel).Lags k := by
  have hcome := (h.due_iff ht hwheel).1 due
  have hlags := h.of_timer ht
  obtain ⟨journal, -, heq⟩ := w.drained_eq level wheel
  rw [heq, ht]
  refine ⟨h.begun, _, rfl, hlags.id_eq, hlags.epochUs, hlags.running,
    Array.size_modify.trans hlags.size, fun {level' wheel'} hget => ?_⟩
  simp only [Timer.modifyWheel, Array.getElem?_modify] at hget
  split at hget
  · next hlevel =>
    subst hlevel
    rw [hwheel, Option.map_some, Option.some.injEq] at hget
    subst hget
    obtain ⟨us, -, hstep⟩ := hlags.wheel hwheel
    exact ⟨_, hcome, hstep.comeRound⟩
  · exact hlags.wheel hget

end

/-- **Steps of the clockwork never put a level ahead of the clock.** -/
theorem Moment.Lags.clockworkStep {k : Clockwork} {m m' : Moment} (hm : m.Lags k)
    (h : m.ClockworkStep .lagging m') : m'.Lags k := by
  cases h with
  | still world sweep =>
    refine ⟨world.lags hm.world, fun hs' => ?_⟩
    obtain ⟨s, hs, hnow, -⟩ := sweep hs'
    rw [hnow, world.nowMs]
    exact hm.sweep hs
  | resumes there stopped =>
    rw [(hm.world.of_timer there).running] at stopped
    exact absurd stopped (by decide)
  | loses allowed there stopped known due =>
    rw [(hm.world.of_timer there).running] at stopped
    exact absurd stopped (by decide)
  | @drains w level t wheel allowed there running known due waiting =>
    refine ⟨hm.world.drained there known due, fun hs' => ?_⟩
    rw [← Option.some.inj hs']
    obtain ⟨journal, -, heq⟩ := w.drained_eq level wheel
    rw [heq]
    simp only [World.nowMs, there]
    rfl
  | waits allowed => exact ⟨hm.world.wait allowed, fun hs' => by simp at hs'⟩

/-- One move of a timer that may lag keeps it between its own pace and the clock. -/
theorem Move.lags {k : Clockwork} {m m' : Moment} (h : Move .lagging m m') (hm : m.Lags k) :
    m'.Lags k :=
  hm.clockworkStep (h.clockworkStep (fun _ ha => ha) id)

/-- A run does, too. Induction on the moves. -/
theorem Moves.lags {k : Clockwork} {m m' : Moment} (h : Moves .lagging m m') (hm : m.Lags k) :
    m'.Lags k := by
  induction h with
  | refl => exact hm
  | tail _ hmove ih => exact hmove.lags ih

/-! ## Entries -/

/-- An interval on from a time is later, unless it is no count any more. -/
theorem lt_addCapped {ms intervalMs : Nat} (hinterval : 1 ≤ intervalMs)
    (hfits : addCapped ms intervalMs < ceiling ∨ ms < ceiling) : ms < addCapped ms intervalMs := by
  unfold addCapped at *
  omega

/-- The due time after a look is later than the look, as long as one of the two is before the last
count. -/
theorem Entry.lt_advanceDue {e : Entry} {nowMs : Nat} (hinterval : 1 ≤ e.intervalMs)
    (hfits : (e.advanceDue nowMs).dueMs < ceiling ∨ nowMs < ceiling) :
    nowMs < (e.advanceDue nowMs).dueMs := by
  simp only [advanceDue] at *
  split at hfits
  · next hpast =>
    rw [if_pos hpast]
    exact lt_addCapped hinterval hfits
  · next hnext =>
    rw [if_neg hnext]
    exact Nat.lt_of_not_le hnext

/-- What the timer and its clock are known to be while something happens to an entry. -/
structure View.Clocked (k : Clockwork) (v : View) : Prop where
  /-- The wheels look at a placed entry in time. -/
  aim : ∀ {dueMs : Nat}, v.nowMs < dueMs → dueMs ≤ ceiling →
    k.tickMs (v.aim (dueMs - v.nowMs)).1 (v.aim (dueMs - v.nowMs)).2
      ≤ roundUp k.config.intervalMs dueMs
  drained : ∀ {level tick nowMs : Nat}, v.stage = .drained level tick nowMs → nowMs = v.nowMs
  launched : ∀ {nowMs : Nat} {last : Bool}, v.stage = .launched nowMs last → nowMs = v.nowMs

/-- A slot that holds the entry is emptied no later than at the first base tick at which the entry
is due. Of an entry that is due at the last count there is nothing is said, once the clock is
there. -/
def View.InTime (k : Clockwork) (v : View) : Prop :=
  v.there = true → v.stage = .free → v.entry.installed = true → 1 ≤ v.entry.intervalMs →
    (v.entry.dueMs < ceiling ∨ v.nowMs < ceiling) →
    k.tickMs v.entry.level v.entry.installedTick ≤ roundUp k.config.intervalMs v.entry.dueMs

namespace View

variable {k : Clockwork} {v v' : View} {i : EntryId}

/-- Where the wheels put an entry that is due later than now, it is in time. -/
theorem InTime.of_place (hv : v.Clocked k) {p : Page} (hnow : p.nowMs = v.nowMs)
    (haim : p.aim = v.aim) (hfits : p.entry.dueMs ≤ ceiling)
    (hlater : 1 ≤ p.entry.intervalMs → (p.entry.dueMs < ceiling ∨ v.nowMs < ceiling) →
      v.nowMs < p.entry.dueMs) (stage : Stage) (flight : Flight) :
    InTime k ⟨p.place, stage, flight⟩ := by
  intro _ _ _ hinterval hcount
  have hplace := hv.aim (hlater hinterval (by rwa [← hnow])) hfits
  rw [← hnow, ← haim] at hplace
  exact hplace

/-- An entry that comes back to a slot is put where it is looked at in time. -/
theorem InTime.reinstall (h : v.InTime k) (hv : v.Clocked k) (i : EntryId) :
    InTime k { v with toPage := v.toPage.reinstall i } := by
  unfold Page.reinstall
  split
  · exact .of_place hv (p := (v.toPage.modify (·.rearm v.nowMs)).log (.entryReinstalled i)) rfl rfl
      (addCapped_le _ _) (fun hinterval => lt_addCapped hinterval) v.stage v.flight
  · exact h

/-- What has nothing to do with the timing leaves an entry in time. -/
theorem InTime.keeps (h : v.InTime k) {p : Page} (hp : v.toPage.Keeps [] p) (flight : Flight) :
    InTime k { v with toPage := p, flight := flight } := by
  intro hthere hfree howned hinterval hcount
  replace hthere : p.there = true := hthere
  replace howned : p.entry.installed = true := howned
  replace hinterval : 1 ≤ p.entry.intervalMs := hinterval
  replace hcount : p.entry.dueMs < ceiling ∨ p.nowMs < ceiling := hcount
  rw [hp.there] at hthere
  rw [hp.installed] at howned
  rw [hp.intervalMs] at hinterval
  rw [hp.dueMs, hp.nowMs] at hcount
  show k.tickMs p.entry.level p.entry.installedTick ≤ roundUp _ p.entry.dueMs
  rw [hp.level, hp.installedTick, hp.dueMs]
  exact h hthere hfree howned hinterval hcount

theorem Clocked.keeps (h : v.Clocked k) {p : Page} (hp : v.toPage.Keeps [] p) (flight : Flight) :
    Clocked k { v with toPage := p, flight := flight } := by
  refine ⟨?_, ?_, ?_⟩
  · rw [hp.nowMs, hp.aim]
    exact h.aim
  · rw [hp.nowMs]
    exact h.drained
  · rw [hp.nowMs]
    exact h.launched

/-- An entry that the wheels do not own is in no slot. -/
theorem InTime.of_released (hout : v.entry.installed = false) : v.InTime k := by
  intro _ _ howned
  rw [hout] at howned
  simp at howned

/-- **Whatever becomes of the timing of an entry**, a slot that holds it is emptied in time. -/
theorem InTime.timingStep (h : v.InTime k) (hv : v.Clocked k) (hcount : v.entry.dueMs ≤ ceiling)
    (hstep : v.TimingStep i v') (hclock : v'.there = true → v.nowMs ≤ v'.nowMs) : v'.InTime k := by
  cases hstep with
  | passes there nowMs aim gone =>
    intro hthere hfree howned hinterval hfits
    refine h (gone hthere) hfree howned hinterval (hfits.imp_right fun hlt => ?_)
    exact Nat.lt_of_le_of_lt (hclock hthere) hlt
  | keeps flight same => exact h.keeps same flight
  | takes same => exact (h.keeps same v.flight).reinstall (hv.keeps same v.flight) i
  | drains aim free owned => exact fun _ hfree => by simp at hfree
  | waits level tick nowMs drained early same =>
    -- the entry is placed with its due time still ahead of the clock
    rw [hv.drained drained] at early
    refine .of_place hv same.nowMs same.aim (by rw [same.dueMs]; exact hcount) (fun _ _ => ?_) _ _
    rw [same.dueMs]
    exact early
  | @skips p level tick nowMs drained due same =>
    -- a due time that was passed is moved beyond the clock
    have hnow := hv.drained drained
    rw [hnow]
    refine .of_place hv (p := p.modify (·.advanceDue v.nowMs)) same.nowMs same.aim ?_
      (fun hinterval => Entry.lt_advanceDue hinterval) _ _
    exact Entry.advanceDue_le _ _
  | launches level tick nowMs last flight drained due same =>
    exact fun _ hfree => by simp at hfree
  | advances nowMs last launched =>
    have hnow := hv.launched launched
    rw [hnow]
    exact .of_place hv (p := v.toPage.modify (·.advanceDue v.nowMs)) rfl rfl
      (Entry.advanceDue_le _ _) (fun hinterval => Entry.lt_advanceDue hinterval) _ _
  | leaves busy same => exact .of_released rfl
  | @returns p busy same =>
    -- given up, the entry is in no slot; taken back, it is due an interval from now
    have hreleased : InTime k { v with toPage := p.modify (·.release), stage := .free } :=
      .of_released rfl
    have hclocked := hv.keeps same v.flight
    exact hreleased.reinstall
      ⟨hclocked.aim, fun hstage => by simp at hstage, fun hstage => by simp at hstage⟩ i

/-- A new entry is put where it is looked at in time. -/
theorem Born.inTime (h : v.Born i) (hv : v.Clocked k) : v.InTime k := by
  obtain ⟨r, task, owner, nowMs, aim, rfl⟩ := h
  unfold Page.registered
  simp only
  split
  · exact .of_released rfl
  · intro _ _ _ hinterval hfits
    exact hv.aim (lt_addCapped hinterval hfits) (addCapped_le _ _)

end View

/-! ## Moments -/

section

variable {k : Clockwork} {m m' : Moment}

/-- What the view of an entry knows of a timer that may lag behind. -/
theorem Moment.Lags.clocked (hm : m.Lags k) {i : EntryId} {v : View} (hv : m.view i = some v) :
    v.Clocked k := by
  obtain ⟨hpage, hstage, -⟩ := Moment.view_eq_some.1 hv
  obtain ⟨-, -, -, hnow, haim⟩ := World.page_eq_some.1 hpage
  refine ⟨fun {dueMs} hwait hfits => ?_, fun {level tick nowMs} hdrained => ?_,
    fun {nowMs last} hlaunched => ?_⟩
  · rw [hnow] at hwait
    rw [hnow, haim]
    exact hm.world.aim hwait hfits
  · obtain ⟨s, hs, -, -, rfl⟩ := Moment.sweep_of_drained (hstage.symm.trans hdrained)
    rw [hnow]
    exact hm.sweep hs
  · obtain ⟨s, hs, rfl⟩ := Moment.sweep_of_launched (hstage.symm.trans hlaunched)
    rw [hnow]
    exact hm.sweep hs

/-- Every entry that a slot holds is looked at in time. -/
def Moment.InTime (m : Moment) (k : Clockwork) : Prop :=
  ∀ {i : EntryId} {v : View}, m.view i = some v → v.InTime k

/-- One move keeps all entries in time. New ones are placed so, and what happens to the others is
a step of their timing. -/
theorem Move.inTime (h : Move .lagging m m') (harises : m.Arises) (hm : m.Lags k)
    (hin : m.InTime k) : m'.InTime k := by
  intro i v' hv'
  have hlives := h.lives harises.custody i
  rcases harises.lives i with hblank | ⟨v, hv, hlife⟩
  · rcases hlives.comes hblank with hblank' | ⟨v₁, hv₁, hborn⟩
    · have hentry := (World.page_eq_some.1 (Moment.view_eq_some.1 hv').1).1
      exact absurd hblank' (Moment.not_blank hentry)
    · obtain rfl : v₁ = v' := Option.some.inj (hv₁.symm.trans hv')
      exact hborn.inTime ((h.lags hm).clocked hv₁)
  · obtain ⟨v₁, hv₁, hstepped⟩ := hlives.step hv
    obtain rfl : v₁ = v' := Option.some.inj (hv₁.symm.trans hv')
    exact (hin hv).timingStep (hm.clocked hv) hlife.dueMs_le hstepped.timingStep
      (h.nowMs_le (fun _ _ hwaits => hwaits) harises hv hv₁ hstepped)

/-- A run does, too. Induction on the moves. -/
theorem Moves.inTime (h : Moves .lagging m m') (harises : m.Arises) (hm : m.Lags k)
    (hin : m.InTime k) : m'.InTime k := by
  induction h with
  | refl => exact hin
  | tail hmoves hmove ih =>
    exact hmove.inTime (harises.trans (Moves.free hmoves)) (Moves.lags hmoves hm) ih

end

/-! ## Runs of the world -/

/-- Whether a command leaves the timer running. It may move the clock, but no body that it schedules
does. -/
def Command.Lagging (c : Command) : Prop := c.Allowed .lagging ∨ ∃ us, c = .act (.jump us)

section

variable {k : Clockwork} {w : World}

/-- A command that leaves the timer running is a run of a timer that may lag. -/
theorem World.step_lagging (h : Moment.Arises ⟨w, none, none⟩)
    (hbodies : w.AllBodies Action.Steady) {c : Command} (hc : c.Lagging) :
    Moves .lagging ⟨w, none, none⟩ ⟨(w.step c).2, none, none⟩ := by
  rcases hc with hallowed | ⟨us, rfl⟩
  · exact step_moves (fun _ => trivial) hbodies
      (World.advance_onward trivial (fun _ _ hle => hle) h hbodies) hallowed
  · exact .single (.wait w (w.clockUs + us) (Nat.le_add_right _ us))

/-- So are any number of such commands. Induction on the commands. -/
theorem World.after_lagging (h : Moment.Arises ⟨w, none, none⟩)
    (hbodies : w.AllBodies Action.Steady) {commands : List Command}
    (hcommands : ∀ c ∈ commands, c.Lagging) :
    Moves .lagging ⟨w, none, none⟩ ⟨w.after commands, none, none⟩ := by
  induction commands generalizing w with
  | nil => exact .refl
  | cons c rest ih =>
    obtain ⟨hc, hrest⟩ := List.forall_mem_cons.1 hcommands
    have hfirst := World.step_lagging h hbodies hc
    exact hfirst.trans (ih (h.trans (Moves.free hfirst)) (Moves.allBodies hfirst hbodies) hrest)

/-- The entries there were have timers that are gone. -/
theorem World.startTimer_inTime (h : Moment.Arises ⟨w, none, none⟩) (c : TimerConfig) :
    Moment.InTime ⟨w.startTimer c, none, none⟩ k := by
  intro i v hv hthere
  obtain ⟨hentry, -, hhas, -⟩ := World.page_eq_some.1 (Moment.view_eq_some.1 hv).1
  obtain ⟨journal, -, heq⟩ := w.startTimer_eq c
  rw [hhas] at hthere
  simp only [heq] at hentry hthere
  have howner : v.entry.owner < w.timers := h.custody.owners hentry
  have hown : w.timers = v.entry.owner := by simpa [World.hasTimer, Timer.ofConfig] using hthere
  omega

/-- **From the start of a timer on its levels lag behind the clock at most, and every entry that a
slot holds is looked at in time.** -/
theorem Moves.inTime_of_start {c : TimerConfig} (hc : c.validate = .ok ())
    (h₀ : Moment.Arises ⟨w, none, none⟩) {m : Moment}
    (h : Moves .lagging ⟨w.startTimer c, none, none⟩ m) :
    m.Lags ⟨c, hc, w.timers, w.clockUs⟩ ∧ m.InTime ⟨c, hc, w.timers, w.clockUs⟩ := by
  have hlags : Moment.Lags ⟨w.startTimer c, none, none⟩ ⟨c, hc, w.timers, w.clockUs⟩ :=
    ⟨(w.startTimer_inStep hc).1.lags, fun hs => by simp at hs⟩
  have hstart : Moment.Arises ⟨w.startTimer c, none, none⟩ := h₀.tail (.create w c trivial hc)
  exact ⟨Moves.lags h hlags, Moves.inTime h hstart hlags (World.startTimer_inTime h₀ c)⟩

/-- A slot that holds an entry is emptied no later than at the first base tick at which the entry is
due. -/
theorem Moment.InTime.of_slot {executing : Option EntryId}
    (hin : Moment.InTime ⟨w, none, executing⟩ k) (hcustody : w.Custody []) {t : Timer}
    (ht : w.timer = some t) {level slot : Nat} {i : EntryId} (hslot : t.SlotHas level slot i)
    {e : Entry} (he : w.entries[i]? = some e) (hinterval : 1 ≤ e.intervalMs)
    (hfits : e.dueMs < ceiling ∨ w.nowMs < ceiling) :
    k.tickMs level e.installedTick ≤ roundUp k.config.intervalMs e.dueMs := by
  obtain ⟨v, hv, hpage, rfl, hfree, -⟩ := Moment.exists_view (m := ⟨w, none, executing⟩) he
  obtain ⟨-, -, hthere, hnow, -⟩ := World.page_eq_some.1 hpage
  have hseat := hcustody.seat_of_slot ht hslot he
  simp only [Entry.seat, Prod.mk.injEq] at hseat
  obtain ⟨howner, howned, hlevel, -⟩ := hseat
  have hhas : v.there = true := by
    rw [hthere]
    simp [World.hasTimer, ht, howner]
  rw [← hlevel]
  exact hin hv hhas hfree howned hinterval (by rwa [hnow])

/-- What a slot holds while nothing is due is due after the last base tick. -/
theorem World.Lags.base_lt_dueMs (h : w.Lags k) (hin : Moment.InTime ⟨w, none, none⟩ k)
    (hcustody : w.Custody []) (hidle : ∀ level, w.overdue level = 0) {t : Timer}
    (ht : w.timer = some t) {level slot : Nat} {i : EntryId} (hslot : t.SlotHas level slot i)
    {e : Entry} (he : w.entries[i]? = some e) (hinterval : 1 ≤ e.intervalMs)
    (hfits : e.dueMs < ceiling ∨ w.nowMs < ceiling) :
    k.config.intervalMs * (w.nowMs / k.config.intervalMs) < e.dueMs := by
  obtain ⟨-, hbase, -⟩ := TimerConfig.pos_of_validate k.valid
  -- the slot is emptied at a tick that is still to come, and no later than the entry is due
  have hinTime := hin.of_slot hcustody ht hslot he hinterval hfits
  obtain ⟨wheel, slots, hwheel, -⟩ := id hslot
  have hberth := (hcustody.keeps ht).berth hslot he hwheel
  have hcoming := h.settled_iff.2 hidle t ht level wheel hwheel
  have hnext : k.tickMs level (wheel.ticks + 1) ≤ k.tickMs level e.installedTick :=
    Nat.mul_le_mul_right _ hberth.ahead
  have hlater : w.nowMs < roundUp k.config.intervalMs e.dueMs := by
    have hclock := h.nowMs
    omega
  -- were the entry due by the last base tick, it would be looked at by then
  apply Nat.lt_of_not_le
  intro hpast
  have hround := roundUp_le hbase (Nat.dvd_mul_right _ _) hpast
  have hlast := Nat.mul_div_le w.nowMs k.config.intervalMs
  omega

end

/-- **Never late, also after clock jumps.** A timer of any accepted shape is neither stopped nor
closed, and no body moves the clock. Apart from that anything may happen, in any order: the clock
jumps over any number of ticks, levels are served one tick or many at a time, entries are added,
controlled and held back. Settling is one of the things that may happen, and it leaves nothing due.
Whenever nothing is due, in this or in another way, an entry that a slot holds is due after the last
base tick, as long as its due time or the clock has not come to the last count there is. -/
theorem never_late {w₀ w : World} {c : TimerConfig} (hc : c.validate = .ok ())
    (h₀ : Moment.Arises ⟨w₀, none, none⟩) (hbodies : w₀.AllBodies Action.Steady)
    (h : Moves .lagging ⟨w₀.startTimer c, none, none⟩ ⟨w, none, none⟩) :
    (Moves .lagging ⟨w, none, none⟩ ⟨w.settle, none, none⟩ ∧ w.settle.isDue = false)
    ∧ (w.isDue = false → ∀ t level slot i e, w.timer = some t → t.SlotHas level slot i →
        w.entries[i]? = some e → 1 ≤ e.intervalMs → (e.dueMs < ceiling ∨ w.nowMs < ceiling) →
        c.intervalMs * (w.nowMs / c.intervalMs) < e.dueMs) := by
  have hstart : Moment.Arises ⟨w₀.startTimer c, none, none⟩ := h₀.tail (.create w₀ c trivial hc)
  have harises : Moment.Arises ⟨w, none, none⟩ := hstart.trans (Moves.free h)
  have hbodies' : w.AllBodies Action.Steady :=
    Moves.allBodies h (World.startTimer_allBodies hbodies c)
  obtain ⟨hlags, hin⟩ := Moves.inTime_of_start hc h₀ h
  refine ⟨⟨settle_moves trivial hbodies', ?_⟩, fun hidle t level slot i e ht hslot he => ?_⟩
  · exact World.isDue_iff.2 (World.settle_idle harises.budgeted)
  · exact hlags.world.base_lt_dueMs hin harises.custody (World.isDue_iff.1 hidle) ht hslot he

/-- Three levels that are served coarsest first, two jobs, and a clock that is moved over 48 ticks
of the finest level, 12 of the next one and 3 of the coarsest. -/
def longJump : List Command :=
  [.act (.coarseFirst true), .act (.schedule "a" (.repeating 25) none [] []),
    .act (.schedule "b" (.repeating 700) none [] []), .act (.jump 487000)]

/-- The world after `longJump`. -/
def afterLongJump : World :=
  (({} : World).startTimer { slots := 4, levels := 3, intervalMs := 10 }).after longJump

/-- The job that was due at 25 waits for a time after 480 once the timer has caught up. -/
theorem never_late_after_jump : afterLongJump.isDue = true
    ∧ ∃ e, afterLongJump.settle.entries[0]? = some e ∧ 10 * (487 / 10) < e.dueMs := by
  have hc : ({ slots := 4, levels := 3, intervalMs := 10 } : TimerConfig).validate = .ok () := by
    decide +kernel
  have hstart : Moment.Arises
      ⟨({} : World).startTimer { slots := 4, levels := 3, intervalMs := 10 }, none, none⟩ :=
    (Moment.Arises.start 3).tail (.create {} _ trivial hc)
  have hlagging : ∀ command ∈ longJump, command.Lagging := by
    refine List.forall_mem_cons.2 ⟨Or.inl trivial, List.forall_mem_cons.2 ⟨Or.inl ?_,
      List.forall_mem_cons.2 ⟨Or.inl ?_, List.forall_mem_cons.2 ⟨Or.inr ⟨487000, rfl⟩, by simp⟩⟩⟩⟩
    · exact ⟨trivial, trivial⟩
    · exact ⟨trivial, trivial⟩
  have hjump : Moves .lagging
      ⟨({} : World).startTimer { slots := 4, levels := 3, intervalMs := 10 }, none, none⟩
      ⟨afterLongJump, none, none⟩ :=
    World.after_lagging hstart (World.startTimer_allBodies (fun j hj => by simp at hj) _) hlagging
  obtain ⟨⟨hsettle, hidle⟩, -⟩ := never_late hc (.start 3) (fun j hj => by simp at hj) hjump
  have hall := hjump.trans hsettle
  obtain ⟨t, ht⟩ : ∃ t, afterLongJump.settle.timer = some t :=
    Option.isSome_iff_exists.1 (by decide +kernel)
  obtain ⟨e, he, hmark⟩ : ∃ e, afterLongJump.settle.entries[0]? = some e
      ∧ (e.owner, e.installed, e.intervalMs) = (0, true, 25) :=
    Option.map_eq_some_iff.1 (by decide +kernel)
  simp only [Prod.mk.injEq] at hmark
  obtain ⟨howner, howned, hinterval⟩ := hmark
  have hid : t.id = 0 := by
    have hmap : afterLongJump.settle.timer.map (·.id) = some 0 := by decide +kernel
    rw [ht] at hmap
    exact Option.some.inj hmap
  have hnow : afterLongJump.settle.nowMs = 487 := by decide +kernel
  -- the wheels own the job, so a slot holds it
  have hcustody : afterLongJump.settle.Custody [] :=
    Moment.Arises.custody (hstart.trans (Moves.free hall))
  have hmem := (hcustody.mem_iff ht he).2 ⟨howner.trans hid.symm, howned⟩
  rw [List.append_nil] at hmem
  obtain ⟨level, slot, hslot⟩ := Timer.mem_contents.1 hmem
  have hlate := (never_late hc (.start 3) (fun j hj => by simp at hj) hall).2 hidle t level slot 0 e
    ht hslot he (by omega) (Or.inr (by rw [hnow]; decide))
  rw [hnow] at hlate
  exact ⟨by decide +kernel, e, he, hlate⟩

end TimingWheel
