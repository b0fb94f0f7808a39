import TimingWheel.Proofs.Closing
import TimingWheel.Proofs.Settling

/-!
# Timers that are never stopped

A timer that is never stopped may still be closed, by its owner or by a body in the middle of a
tick, and another one may take its place. Up to then it misses no tick, as long as time passes from
one due tick to the next one. A tick in which it is closed goes on, and the wheels stand meanwhile
where they stood.

* **`Law.unstopped`** — what may happen where no timer is stopped.
* **`Moment.Geared`** — the invariant of one timer. A move keeps it, or the timer is over and no
  tick is in progress (`Move.geared`).
* **`World.after_unstopped`** — commands that stop no timer come about under this law.
-/

namespace TimingWheel

/-- Whether an action leaves the clock alone and stops no timer. -/
def Action.Unstopped : Action → Prop
  | .jump _ => False
  | .timer c => c ≠ .stop
  | _ => True

/-- What may happen where no timer is stopped. The clock is never moved past a tick that is still to
come, and a closed timer has none. -/
def Law.unstopped : Law where
  acts := Action.Unstopped
  ticks := True
  waits w us := w.clockUs ≤ us ∧ ∀ t, w.timer = some t → t.status ≠ .closed →
    ∀ wheel ∈ t.wheels, us ≤ t.nextTickUs wheel
  takes _ := True
  replaces := True

/-- An action that stops no timer is a steady one, or it closes the timer. -/
theorem Action.Unstopped.eq_close {a : Action} (h : a.Unstopped) (unsteady : ¬ a.Steady) :
    a = .timer .close := by
  cases a with
  | timer c =>
    cases c with
    | start => exact absurd rfl unsteady
    | stop => exact absurd rfl h
    | close => rfl
  | jump us => exact h.elim
  | _ => exact absurd trivial unsteady

/-! ## As if the timer ran -/

/-- The world as it would be if its timer ran. -/
def World.asRunning (w : World) : World :=
  { w with timer := w.timer.map ({ · with status := .running }) }

namespace World

variable {w w' : World}

@[simp] theorem nowMs_asRunning (w : World) : w.asRunning.nowMs = w.nowMs := by
  unfold nowMs asRunning
  cases w.timer <;> rfl

@[simp] theorem runUs_asRunning (w : World) (k : Clockwork) : w.asRunning.runUs k = w.runUs k := rfl

/-- A world whose timer is running is as it would be. -/
theorem asRunning_of_running (h : ∀ t, w.timer = some t → t.status = .running) :
    w.asRunning = w := by
  unfold asRunning
  cases ht : w.timer with
  | none =>
    rw [Option.map_none, ← ht]
  | some t =>
    have hsame : ({ t with status := .running } : Timer) = t := by
      rw [← h t ht]
    rw [Option.map_some, hsame, ← ht]

/-- As long as the clock and the clockwork are left alone, it makes no difference to a running timer
what else becomes of the world. -/
theorem still_asRunning (hclock : w'.clockUs = w.clockUs)
    (hworks : w'.timer.map Timer.works = w.timer.map Timer.works) :
    w.asRunning.Still w'.asRunning := by
  refine ⟨hclock, ?_, ?_⟩ <;> unfold asRunning
  · rw [Option.map_map, Option.map_map]
    exact hworks
  · cases ht : w.timer <;> cases ht' : w'.timer <;> simp [ht, ht'] at hworks ⊢

end World

/-- The clock may be moved up to the next due tick. -/
theorem Moment.InStep.waits {k : Clockwork} {w : World} (h : Moment.InStep ⟨w, none, none⟩ k)
    {us : Nat} (hclock : w.clockUs ≤ us)
    (hnext : ∀ t, w.timer = some t → ∀ wheel ∈ t.wheels, us ≤ t.nextTickUs wheel) :
    World.InStep { w with clockUs := us } k := by
  have hwaits : Moment.ClockworkStep (.steady fun _ => True) ⟨w, none, none⟩
      ⟨{ w with clockUs := us }, none, none⟩ := .waits ⟨hclock, hnext⟩
  exact (h.clockworkStep hwaits id).world

/-! ## One timer -/

/-- The timer is there and was never stopped. If it ran it would be in step, and the wheel whose
tick is in progress stands at this tick. -/
structure Moment.Geared (m : Moment) (k : Clockwork) : Prop where
  inStep : Moment.InStep { m with world := m.world.asRunning } k
  unstopped : ∀ {t : Timer}, m.world.timer = some t → t.status ≠ .stopped
  turned : ∀ {s : Sweep} {t : Timer} {wheel : Wheel}, m.sweep = some s → m.world.timer = some t →
    t.wheels[s.level]? = some wheel → wheel.ticks = s.tick

namespace Moment.Geared

variable {k : Clockwork} {m m' : Moment} {w : World}

/-- With nothing in hand and no reading taken the timer need only be in step. -/
theorem of_inStep (h : w.InStep k) : Moment.Geared ⟨w, none, none⟩ k := by
  have hrunning : ∀ t, w.timer = some t → t.status = .running :=
    fun t ht => (h.of_timer ht).running
  refine ⟨?_, fun ht => ?_, fun hs => by simp at hs⟩
  · rw [World.asRunning_of_running hrunning]
    exact h.moment none
  · rw [hrunning _ ht]
    decide

/-- The timer is there, and its wheels are in step up to its status. -/
theorem exists_timer (h : m.Geared k) : ∃ t, m.world.timer = some t ∧ t.id = k.id
    ∧ ({ t with status := .running } : Timer).InStep k (m.world.runUs k) := by
  obtain ⟨t', ht', hstep⟩ := h.inStep.world.timer
  obtain ⟨t, ht, rfl⟩ := Option.map_eq_some_iff.1 ht'
  exact ⟨t, ht, hstep.id_eq, hstep⟩

/-- A timer that is not closed is in step. -/
theorem inStep_of_opened (h : m.Geared k)
    (hopened : ∀ t, m.world.timer = some t → t.status ≠ .closed) : m.InStep k := by
  have hrunning : ∀ t, m.world.timer = some t → t.status = .running := by
    intro t ht
    have hstopped := h.unstopped ht
    have hclosed := hopened t ht
    cases hs : t.status with
    | running => rfl
    | stopped => exact absurd hs hstopped
    | closed => exact absurd hs hclosed
  have hstep := h.inStep
  rwa [World.asRunning_of_running hrunning] at hstep

/-- The clock and the clockwork are left alone, and a tick in progress goes on. -/
theorem of_works {w' : World} {sweep' : Option Sweep} {executing' : Option EntryId}
    (h : m.Geared k) (hclock : w'.clockUs = m.world.clockUs)
    (hworks : w'.timer.map Timer.works = m.world.timer.map Timer.works)
    (hunstopped : ∀ {t' : Timer}, w'.timer = some t' → t'.status ≠ .stopped)
    (hsweep : ∀ {s'}, sweep' = some s' → ∃ s, m.sweep = some s ∧ s'.nowMs = s.nowMs
      ∧ s'.level = s.level ∧ s'.tick = s.tick) : Moment.Geared ⟨w', sweep', executing'⟩ k := by
  have hclockwork : Moment.ClockworkStep (.steady fun _ => True)
      { m with world := m.world.asRunning } ⟨w'.asRunning, sweep', executing'⟩ :=
    .still (World.still_asRunning hclock hworks) hsweep
  refine ⟨h.inStep.clockworkStep hclockwork id, hunstopped, fun hs' ht' hwheel' => ?_⟩
  obtain ⟨s, hs, -, hlevel, htick⟩ := hsweep hs'
  rw [ht'] at hworks
  obtain ⟨t, ht, hsame⟩ := Option.map_eq_some_iff.1 hworks.symm
  rw [hlevel] at hwheel'
  obtain ⟨wheel, hwheel, hbare⟩ := Timer.wheel_of_works hsame.symm hwheel'
  have hticks : wheel.ticks = s.tick := h.turned hs ht hwheel
  have hsame : _ = wheel.ticks := congrArg (·.ticks) hbare
  exact hsame.trans (hticks.trans htick.symm)

/-- Steps of the clockwork keep a timer that is never stopped in step, unless it is closed and time
passes it by. -/
theorem clockworkStep {law : Law} (hm : m.Geared k) (h : m.ClockworkStep law m')
    (hwaits : ∀ {w us}, law.waits w us → Law.unstopped.waits w us) : m'.Geared k
    ∨ ∃ us, law.waits m.world us ∧ (∀ t, m.world.timer = some t → t.status = .closed)
      ∧ m' = ⟨{ m.world with clockUs := us }, none, none⟩ := by
  cases h with
  | still world sweep =>
    refine Or.inl (hm.of_works world.clockUs world.works (fun ht' => ?_) sweep)
    obtain ⟨t, ht, -, hstatus⟩ := world.timer_before ht'
    rw [hstatus]
    exact hm.unstopped ht
  -- these two need a stopped timer
  | resumes there stopped => exact absurd stopped (hm.unstopped there)
  | loses allowed there stopped known due => exact absurd stopped (hm.unstopped there)
  | @drains w level t wheel allowed there running known due waiting =>
    have hrunning : ∀ t', w.timer = some t' → t'.status = .running := by
      intro t' ht'
      rw [← Option.some.inj (there.symm.trans ht')]
      exact running
    -- the timer runs, so it is in step as it is, and the tick keeps it there
    have hstep : Moment.InStep ⟨w, none, none⟩ k :=
      hm.inStep_of_opened fun t' ht' => by rw [hrunning t' ht']; decide
    have hdrains : Moment.ClockworkStep (.steady fun _ => True) ⟨w, none, none⟩
        ⟨w.drained level wheel,
        some ⟨level, wheel.ticks + 1, w.nowMs, waiting, none⟩, none⟩ :=
      .drains trivial there running known due waiting
    have hstep' := hstep.clockworkStep hdrains id
    obtain ⟨journal, -, heq⟩ := w.drained_eq level wheel
    have htimer : (w.drained level wheel).timer = some (t.modifyWheel level Wheel.comeRound) := by
      rw [heq, there]
      rfl
    have hrunning' : ∀ t', (w.drained level wheel).timer = some t' → t'.status = .running := by
      intro t' ht'
      rw [← Option.some.inj (htimer.symm.trans ht')]
      exact running
    refine Or.inl ⟨?_, fun ht' => by rw [hrunning' _ ht']; decide, fun hs' ht' hget => ?_⟩
    · rw [World.asRunning_of_running hrunning']
      exact hstep'
    · obtain rfl := Option.some.inj hs'
      rw [← Option.some.inj (htimer.symm.trans ht')] at hget
      simp only [Timer.modifyWheel, Array.getElem?_modify, if_pos, known, Option.map_some,
        Option.some.injEq] at hget
      rw [← hget]
      rfl
  | @waits w us allowed =>
    obtain ⟨t, ht, -⟩ := hm.exists_timer
    have honly : ∀ t', w.timer = some t' → t'.status = t.status := by
      intro t' ht'
      rw [← Option.some.inj (ht.symm.trans ht')]
    by_cases hclosed : t.status = .closed
    · exact Or.inr ⟨us, allowed, fun t' ht' => (honly t' ht').trans hclosed, rfl⟩
    · have hopened : ∀ t', w.timer = some t' → t'.status ≠ .closed := by
        intro t' ht'
        rw [honly t' ht']
        exact hclosed
      obtain ⟨hclock, hnext⟩ := hwaits allowed
      have hstep : Moment.InStep ⟨w, none, none⟩ k := hm.inStep_of_opened hopened
      exact Or.inl (of_inStep (hstep.waits hclock fun t' ht' => hnext t' ht' (hopened t' ht')))

/-- An action that closes the timer leaves the wheels where they stand. -/
theorem closes (hm : m.Geared k) {w' : World} (h : m.world.Performed (.timer .close) w') :
    Moment.Geared { m with world := w' } k := by
  have hsweep : ∀ {s'}, m.sweep = some s' → ∃ s, m.sweep = some s ∧ s'.nowMs = s.nowMs
      ∧ s'.level = s.level ∧ s'.tick = s.tick := fun hs' => ⟨_, hs', rfl, rfl, rfl⟩
  cases h with
  | nothing => exact hm
  | handles => exact hm.of_works rfl rfl hm.unstopped hsweep
  | timer t c there =>
    unfold World.controlTimer
    simp only
    split
    · exact hm
    · refine hm.of_works ?_ ?_ (fun ht' => ?_) hsweep <;> rw [World.modifyTimer_eq, there] at *
      · rfl
      · rfl
      · rw [← Option.some.inj ht']
        simp

end Moment.Geared

/-- **A timer that is never stopped stays in step until it is over.** -/
theorem Move.geared {k : Clockwork} {m m' : Moment} (h : Move .unstopped m m')
    (hcustody : m.world.Custody m.hand) (hm : m.Geared k) :
    m'.Geared k ∨ m'.sweep = none ∧ m'.world.Over k.id := by
  obtain ⟨t, ht, hid, -⟩ := hm.exists_timer
  have hknown := hcustody.numbered ht
  rw [hid] at hknown
  cases h.timersStep with
  | clockworkStep hclockwork =>
    rcases hm.clockworkStep hclockwork id with hgeared | ⟨us, -, hclosed, rfl⟩
    · exact Or.inl hgeared
    · exact Or.inr ⟨rfl, hknown, fun ht' _ => hclosed _ ht'⟩
  | acts allowed unsteady performed =>
    rw [Action.Unstopped.eq_close allowed unsteady] at performed
    exact Or.inl (hm.closes performed)
  | @creates w c allowed valid =>
    obtain ⟨journal, -, heq⟩ := w.startTimer_eq c
    rw [heq]
    refine Or.inr ⟨rfl, Nat.lt_succ_of_lt hknown, fun ht' hid' => ?_⟩
    rw [← Option.some.inj ht'] at hid'
    exact absurd hid' (Nat.ne_of_gt hknown)
  | @drops w allowed =>
    have hover := hcustody.over_dropTimer ht
    rw [hid] at hover
    exact Or.inr ⟨rfl, hover⟩

/-! ## Commands

Whatever timer there is, commands find it in step or closed. -/

/-- No tick is in progress and the timer is closed or gone, or it is in step with a clockwork. -/
def Moment.Tended (m : Moment) : Prop :=
  (m.sweep = none ∧ ∀ t, m.world.timer = some t → t.status = .closed) ∨ ∃ k, m.Geared k

section

variable {k : Clockwork} {w w' : World} {m m' : Moment}

/-- Where no timer is stopped a move leaves it closed, gone or in gear. -/
theorem Move.tended (h : Move .unstopped m m') (hm : m.Tended) : m'.Tended := by
  cases h.timersStep with
  | clockworkStep hclockwork =>
    rcases hm with ⟨hsweep, hclosed⟩ | ⟨k, hm⟩
    · have hopened : ∀ {t : Timer} {status : TimerStatus}, m.world.timer = some t →
          t.status = status → status ≠ .closed → False :=
        fun ht hstatus hne => hne (hstatus.symm.trans (hclosed _ ht))
      cases hclockwork with
      | still world sweep =>
        refine Or.inl ⟨?_, fun t' ht' => ?_⟩
        · cases hs' : m'.sweep with
          | none => rfl
          | some s' =>
            obtain ⟨s, hs, -⟩ := sweep hs'
            rw [hsweep] at hs
            simp at hs
        · obtain ⟨t, ht, -, hstatus⟩ := world.timer_before ht'
          exact hstatus.trans (hclosed t ht)
      | resumes there stopped => exact (hopened there stopped (by decide)).elim
      | loses allowed there stopped known due => exact (hopened there stopped (by decide)).elim
      | drains allowed there running known due waiting =>
        exact (hopened there running (by decide)).elim
      | waits allowed => exact Or.inl ⟨rfl, hclosed⟩
    · rcases hm.clockworkStep hclockwork id with hgeared | ⟨us, -, hclosed, rfl⟩
      · exact Or.inr ⟨k, hgeared⟩
      · exact Or.inl ⟨rfl, hclosed⟩
  | acts allowed unsteady performed =>
    rw [Action.Unstopped.eq_close allowed unsteady] at performed
    rcases hm with ⟨hsweep, hclosed⟩ | ⟨k, hm⟩
    · refine Or.inl ⟨hsweep, fun t' ht' => ?_⟩
      cases performed with
      | nothing => exact hclosed t' ht'
      | handles => exact hclosed t' ht'
      | timer t c there =>
        rw [World.controlTimer_of_closed (hclosed t there)] at ht'
        exact hclosed t' ht'
    · exact Or.inr ⟨k, hm.closes performed⟩
  | creates allowed valid => exact Or.inr ⟨_, .of_inStep (World.startTimer_inStep _ valid).1⟩
  | @drops w allowed =>
    obtain ⟨journal, -, heq⟩ := w.dropTimer_eq
    rw [heq]
    exact Or.inl ⟨rfl, fun t ht => by simp at ht⟩

theorem Moves.tended (h : Moves .unstopped m m') (hm : m.Tended) : m'.Tended := by
  induction h with
  | refl => exact hm
  | tail _ hmove ih => exact hmove.tended ih

/-- What happens while the clock stands still and timers are not replaced. -/
def Law.unstopped.atOnce : Law :=
  { Law.unstopped with waits := fun _ _ => False, replaces := False }

/-- A run that takes no time keeps the wheels in gear and leaves the clock alone. -/
theorem Moves.atOnce (h : Moves Law.unstopped.atOnce m m') (hm : m.Geared k) :
    Moves .unstopped m m' ∧ m'.Geared k ∧ m'.world.clockUs = m.world.clockUs := by
  induction h with
  | refl => exact ⟨.refl, hm, rfl⟩
  | tail _ hmove ih =>
    obtain ⟨hmoves, hgeared, hclock⟩ := ih
    refine ⟨hmoves.tail (@Move.mono Law.unstopped.atOnce .unstopped (fun _ ha => ha) id
      (fun _ _ => False.elim) (fun _ ha => ha) (fun _ => trivial) _ _ hmove), ?_⟩
    cases hmove.timersStep with
    | clockworkStep hclockwork =>
      rcases hgeared.clockworkStep hclockwork False.elim with hgeared' | ⟨us, hwaits, -⟩
      · exact ⟨hgeared', (hclockwork.clockUs_eq fun _ _ => id).trans hclock⟩
      · exact hwaits.elim
    | acts allowed unsteady performed =>
      rw [Action.Unstopped.eq_close allowed unsteady] at performed
      refine ⟨hgeared.closes performed, Eq.trans ?_ hclock⟩
      cases performed with
      | nothing => rfl
      | handles => rfl
      | timer t c there =>
        obtain ⟨status, journal, -, heq⟩ := World.controlTimer_eq _ there .close
        rw [heq]
    | creates allowed valid => exact allowed.elim
    | drops allowed => exact allowed.elim

/-- Time passes where no timer is stopped. -/
theorem World.advance_unstopped (harises : Moment.Arises ⟨w, none, none⟩)
    (hbodies : w.AllBodies Action.Unstopped) (hw : Moment.Tended ⟨w, none, none⟩) (us : Nat) :
    Moves .unstopped ⟨w, none, none⟩ ⟨w.advance us, none, none⟩ := by
  have hclosed_moves : (∀ t, w.timer = some t → t.status = .closed) →
      Moves .unstopped ⟨w, none, none⟩ ⟨w.advance us, none, none⟩ := by
    intro hclosed
    rw [World.advance_of_closed hclosed]
    exact .single (.wait w _ ⟨Nat.le_add_right _ _,
      fun t ht hopened => absurd (hclosed t ht) hopened⟩)
  rcases hw with ⟨-, hclosed⟩ | ⟨k, hgeared⟩
  · exact hclosed_moves hclosed
  obtain ⟨t, ht, -⟩ := hgeared.exists_timer
  by_cases hstatus : t.status = .closed
  · refine hclosed_moves fun t' ht' => ?_
    rw [← Option.some.inj (ht.symm.trans ht')]
    exact hstatus
  -- a world that the advance settles is in step, and so is the timer after it unless it is closed
  let p : World → Prop := fun w => w.AllBodies Action.Unstopped ∧ w.Budgeted ∧ w.InStep k
  have hsettles : ∀ {w : World}, p w → Moves .unstopped ⟨w, none, none⟩ ⟨w.settle, none, none⟩
      ∧ Moment.Geared ⟨w.settle, none, none⟩ k ∧ w.settle.clockUs = w.clockUs := by
    intro w hw
    exact Moves.atOnce (@settle_moves Law.unstopped.atOnce trivial w hw.1) (.of_inStep hw.2.2)
  have hstart : w.InStep k := by
    refine (hgeared.inStep_of_opened fun t' ht' => ?_).world
    rw [← Option.some.inj (ht.symm.trans ht')]
    exact hstatus
  have hends : ∀ {w : World}, p w → (∀ t, w.settle.timer = some t → t.status = .closed)
      ∨ w.settle.OnTime k ∧ ∀ level, w.settle.overdue level = 0 := by
    intro w hw
    obtain ⟨-, hgeared, -⟩ := hsettles hw
    by_cases hclosed : ∀ t, w.settle.timer = some t → t.status = .closed
    · exact Or.inl hclosed
    · refine Or.inr ⟨World.InStep.onTime (hgeared.inStep_of_opened fun t ht heq => ?_).world,
        World.settle_idle hw.2.1⟩
      refine hclosed fun t' ht' => ?_
      rw [← Option.some.inj (ht.symm.trans ht')]
      exact heq
  have hwaits : ∀ {w : World} {us : Nat}, p w → w.settle.OnTime k → w.settle.clockUs ≤ us →
      (∀ t, w.settle.timer = some t → ∀ wheel ∈ t.wheels, us ≤ t.nextTickUs wheel) →
      Law.unstopped.waits w.settle us ∧ p { w.settle with clockUs := us } := by
    intro w us hw honTime hle hleast
    obtain ⟨hmoves, hgeared, -⟩ := hsettles hw
    refine ⟨⟨hle, fun t ht _ => hleast t ht⟩, Moves.allBodies hmoves hw.1,
      Moves.budgeted hmoves hw.2.1, ?_⟩
    have hopened : ∀ t, w.settle.timer = some t → t.status ≠ .closed :=
      fun t ht => (honTime.of_timer ht).opened
    exact (hgeared.inStep_of_opened hopened).waits hle hleast
  obtain ⟨hmoves, hclock, hend⟩ := World.advanceWithin_between
    (fun hw => ⟨(hsettles hw).1, (hsettles hw).2.2, hends hw⟩) hwaits _
    ⟨hbodies, harises.budgeted, hstart⟩ (Nat.le_add_right _ us)
    (hstart.onTime.enough us)
  refine hmoves.tail ?_
  unfold World.advance
  simp only
  rw [Nat.max_eq_right hclock]
  refine .wait _ _ ⟨hclock, fun t ht hopened wheel hwheel => ?_⟩
  rcases hend with hclosed | hclear
  · exact absurd (hclosed t ht) hopened
  · exact Nat.le_of_lt (hclear t ht wheel hwheel)

/-- **Commands that stop no timer** and leave the clock to the passing of time come about under the
law for timers that are never stopped. -/
theorem World.after_unstopped (harises : Moment.Arises ⟨w, none, none⟩)
    (hbodies : w.AllBodies Action.Unstopped) (hw : Moment.Tended ⟨w, none, none⟩)
    {commands : List Command} (hcommands : ∀ c ∈ commands, c.Allowed .unstopped) :
    Moves .unstopped ⟨w, none, none⟩ ⟨w.after commands, none, none⟩ := by
  induction commands generalizing w with
  | nil => exact .refl
  | cons c rest ih =>
    obtain ⟨hc, hrest⟩ := List.forall_mem_cons.1 hcommands
    have hfirst : Moves .unstopped ⟨w, none, none⟩ ⟨(w.step c).2, none, none⟩ :=
      step_moves (fun _ => trivial) hbodies (World.advance_unstopped harises hbodies hw) hc
    exact hfirst.trans (ih (harises.trans (Moves.free hfirst)) (Moves.allBodies hfirst hbodies)
      (Moves.tended hfirst hw) hrest)

end

end TimingWheel
