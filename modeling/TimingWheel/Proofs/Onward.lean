import TimingWheel.Proofs.Settling
import TimingWheel.Proofs.Timing

/-!
# The clock never goes back

Time passes from one due tick to the next one. The next one is still to come only if everything that
is due was dealt with before, and that is what settling comes to (`World.settle_idle`). So the clock
of the world never goes back, and neither does that of a timer as long as it is there.

* **`Move.clockStep`** — what a move does to the clock and to the timer.
* **`Law.onward`** — everything may happen, but the clock is not moved back.
* **`World.Reachable.unfolds`** — the worlds that commands lead to come about under this law.
* **`Move.nowMs_le`** — the clock of a timer never goes back.
-/

namespace TimingWheel

/-! ## Timers without what goes on in them -/

/-- What stays the same about a timer as long as it is there, but for its status. -/
def Timer.frame (t : Timer) : TimerId × Nat × Array (Nat × Nat × Nat) :=
  (t.id, t.epochUs, t.wheels.map fun wheel => (wheel.level, wheel.slotCount, wheel.resolutionMs))

/-- The clockwork determines what stays the same. -/
theorem Timer.frame_of_works {t t' : Timer} (h : t'.works = t.works) : t'.frame = t.frame := by
  have hframe : ∀ t : Timer, t.frame = (t.works.1, t.works.2.1, t.works.2.2.map
      fun wheel => (wheel.level, wheel.slotCount, wheel.resolutionMs)) := by
    intro t
    unfold Timer.frame Timer.works
    rw [Array.map_map]
    rfl
  rw [hframe, hframe, h]

/-- So does a wheel of which only counters and contents change. -/
theorem Timer.frame_modifyWheel (t : Timer) (level : Nat) {f : Wheel → Wheel}
    (hf : ∀ wheel : Wheel, ((f wheel).level, (f wheel).slotCount, (f wheel).resolutionMs)
      = (wheel.level, wheel.slotCount, wheel.resolutionMs)) :
    (t.modifyWheel level f).frame = t.frame := by
  unfold Timer.frame Timer.modifyWheel
  rw [map_modify_eq hf]

/-- What happens to the clock and to the timer. -/
inductive World.ClockStep (law : Law) (w : World) : World → Prop where
  /-- The clock stays or is moved on, and the timer is the same one. -/
  | onward {w' : World} (clock : w.clockUs ≤ w'.clockUs)
      (frame : w'.timer.map Timer.frame = w.timer.map Timer.frame) : ClockStep law w w'
  | waits (us : Nat) (allowed : law.waits w us) : ClockStep law w { w with clockUs := us }
  | creates (c : TimerConfig) (valid : c.validate = .ok ()) : ClockStep law w (w.startTimer c)
  | drops : ClockStep law w w.dropTimer

/-- What happens within a body leaves the timer the same one. -/
theorem World.Onward.clockStep {law : Law} {w w' : World} (h : w.Onward w') :
    w.ClockStep law w' := by
  refine .onward h.clockUs ?_
  cases ht : w'.timer with
  | none =>
    have hworks := h.works
    rw [ht] at hworks
    rw [Option.map_eq_none_iff.1 hworks.symm]
  | some t' =>
    have hworks := h.works
    rw [ht] at hworks
    obtain ⟨t, hw, hsame⟩ := Option.map_eq_some_iff.1 hworks.symm
    rw [hw, Option.map_some, Option.map_some, Timer.frame_of_works hsame.symm]

/-- **What a move does to the clock and to the timer.** -/
theorem Move.clockStep {law : Law} {m m' : Moment} (h : Move law m m') :
    m.world.ClockStep law m'.world := by
  cases h with
  | act m a runTask allowed plain =>
    exact (World.performed_perform plain runTask m.world).onward.clockStep
  | byHand m i known => exact (m.world.tell_aside _).onward.clockStep
  | begin m i job label known => exact .onward (Nat.le_refl _) rfl
  | conclude m i outcome known => exact (World.conclude_aside _ i outcome).onward.clockStep
  | enroll m i e r job known task there => exact (World.register_aside _ r _).onward.clockStep
  | complete m i inProgress => exact (World.complete_aside _ i).onward.clockStep
  | takeUp w n i allowed held => exact .onward (Nat.le_refl _) rfl
  | lose w level t wheel allowed there stopped known due =>
    rw [World.serve_eq, there]
    refine .onward (Nat.le_refl _) ?_
    rw [there]
    exact congrArg some (t.frame_modifyWheel level fun _ => by rfl)
  | drain w level t wheel allowed there running known due =>
    obtain ⟨journal, -, heq⟩ := w.drained_eq level wheel
    rw [heq, there]
    refine .onward (Nat.le_refl _) ?_
    rw [there]
    exact congrArg some (t.frame_modifyWheel level fun _ => by rfl)
  | look w s i rest e next free known rests =>
    exact (World.dispatch_aside known rests _ _).onward.clockStep
  | overlook w s i rest next free unknown => exact .onward (Nat.le_refl _) rfl
  | launch w s i rest e e' last next free known runs =>
    exact (w.launching_onward s i last e').clockStep
  | putBack w s i last current => exact (World.puttingBack_aside w _ i last).onward.clockStep
  | done w s empty free => exact .onward (Nat.le_refl _) rfl
  | wait w us allowed => exact .waits us allowed
  | create w c allowed valid => exact .creates c valid
  | drop w allowed => exact .drops
  | warn w reason rejected => exact .onward (Nat.le_refl _) rfl

/-! ## From one due tick to the next -/

/-- Every level of the timer takes time from one tick to the next. -/
def World.Paced (w : World) : Prop :=
  ∀ t, w.timer = some t → ∀ wheel ∈ t.wheels, 0 < wheel.resolutionMs

/-- Levels keep their periods, and those of a new timer are positive since its shape is accepted. -/
theorem World.ClockStep.paced {law : Law} {w w' : World} (h : w.ClockStep law w') (hw : w.Paced) :
    w'.Paced := by
  cases h with
  | onward clock frame =>
    -- a wheel of the timer has the resolution that it had
    intro t' ht' wheel' hwheel'
    rw [ht'] at frame
    obtain ⟨t, ht, hframe⟩ := Option.map_eq_some_iff.1 frame.symm
    have hmem : (wheel'.level, wheel'.slotCount, wheel'.resolutionMs) ∈ t'.frame.2.2 :=
      Array.mem_map.2 ⟨wheel', hwheel', rfl⟩
    rw [← hframe] at hmem
    obtain ⟨wheel, hwheel, hsame⟩ := Array.mem_map.1 hmem
    have hres : wheel.resolutionMs = wheel'.resolutionMs := congrArg (·.2.2) hsame
    rw [← hres]
    exact hw t ht wheel hwheel
  | waits us allowed => exact hw
  | creates c valid =>
    -- the resolutions of a new timer are positive since its shape was accepted
    obtain ⟨t₀, ht₀, hstep⟩ := (w.startTimer_inStep valid).1.timer
    intro t ht wheel hwheel
    obtain rfl : t₀ = t := Option.some.inj (ht₀.symm.trans ht)
    obtain ⟨level, hlevel⟩ := Array.mem_iff_getElem?.1 hwheel
    rw [(hstep.wheel hlevel).resolutionMs]
    exact Clockwork.resolutionMs_pos _ level
  | drops =>
    obtain ⟨journal, -, heq⟩ := w.dropTimer_eq
    intro t ht
    rw [heq] at ht
    simp at ht

theorem Moves.paced {law : Law} {m m' : Moment} (h : Moves law m m') (hm : m.world.Paced) :
    m'.world.Paced := by
  induction h with
  | refl => exact hm
  | tail _ hmove ih => exact hmove.clockStep.paced ih

/-- In everything that arises every level takes time from one tick to the next. -/
theorem Moment.Arises.paced {m : Moment} (h : m.Arises) : m.world.Paced := by
  obtain ⟨_, hmoves⟩ := h
  exact hmoves.paced fun t ht => by simp at ht

/-- Where nothing is due the next tick is still to come. -/
theorem World.clockUs_lt_of_earliest {w : World} (hw : w.Paced)
    (hnone : ∀ level, w.overdue level = 0) {due : Nat}
    (h : w.timer.bind (·.earliestTickUs?) = some due) : w.clockUs < due := by
  obtain ⟨t, ht, hearliest⟩ := Option.bind_eq_some_iff.1 h
  unfold Timer.earliestTickUs? at hearliest
  split at hearliest
  · simp at hearliest
  · next hopen =>
    have hmem := (List.min?_eq_some_iff.1 hearliest).1
    rw [Array.mem_toList_iff, Array.mem_map] at hmem
    obtain ⟨wheel, hwheel, rfl⟩ := hmem
    obtain ⟨level, hlevel⟩ := Array.mem_iff_getElem?.1 hwheel
    have hpos : 0 < Timer.periodUs wheel := Nat.mul_pos (hw t ht wheel hwheel) (by decide)
    have hzero := hnone level
    simp only [overdue, ht, Option.map_some, Option.getD_some, Timer.ticksBy, if_neg hopen,
      hlevel] at hzero
    have hlt : w.clockUs - t.epochUs < (wheel.served + 1) * Timer.periodUs wheel :=
      (Nat.div_lt_iff_lt_mul hpos).1 (by omega)
    unfold Timer.nextTickUs
    omega

/-- Everything may happen, but the clock is not moved back. -/
def Law.onward : Law := { Law.free with waits := fun w us => w.clockUs ≤ us }

theorem Law.onward_open : Law.onward.Open := ⟨fun _ => trivial, fun _ => trivial, trivial⟩

/-- As long as time passes it moves on. -/
theorem World.advanceWithin_onward {law : Law} (hticks : law.ticks)
    (hwaits : ∀ w us, w.clockUs ≤ us → law.waits w us) (targetUs n : Nat) : ∀ {w : World},
    w.AllBodies law.acts → w.Budgeted → w.Paced →
    Moves law ⟨w, none, none⟩ ⟨World.advanceWithin targetUs n w, none, none⟩ := by
  induction n with
  | zero => exact fun _ _ _ => .refl
  | succ n ih =>
    intro w hbodies hw hpaced
    have hsettle : Moves law ⟨w, none, none⟩ ⟨w.settle, none, none⟩ := settle_moves hticks hbodies
    unfold World.advanceWithin
    simp only
    split
    · exact hsettle
    · next due hdue =>
      split
      · have hnext := World.clockUs_lt_of_earliest (Moves.paced hsettle hpaced)
          (World.settle_idle hw) hdue
        have hfirst : Moves law ⟨w, none, none⟩
            ⟨{ w.settle with clockUs := due }, none, none⟩ :=
          hsettle.tail (.wait w.settle due (hwaits _ _ (Nat.le_of_lt hnext)))
        exact hfirst.trans (ih (Moves.allBodies hfirst hbodies) (Moves.budgeted hfirst hw)
          (Moves.paced hfirst hpaced))
      · exact hsettle

/-- **Time moves on** in a world that came about in whatever way. -/
theorem World.advance_onward {law : Law} (hticks : law.ticks)
    (hwaits : ∀ w us, w.clockUs ≤ us → law.waits w us) {w : World}
    (h : Moment.Arises ⟨w, none, none⟩) (hbodies : w.AllBodies law.acts) (us : Nat) :
    Moves law ⟨w, none, none⟩ ⟨w.advance us, none, none⟩ :=
  (World.advanceWithin_onward hticks hwaits (w.clockUs + us) (w.ticksBy (w.clockUs + us) + 1)
    hbodies h.budgeted h.paced).tail
    (.wait _ _ (hwaits _ _ (Nat.le_max_left _ _)))

theorem World.step_onward {w : World} (h : Moment.Arises ⟨w, none, none⟩) (c : Command) :
    Moves .onward ⟨w, none, none⟩ ⟨(w.step c).2, none, none⟩ :=
  step_moves_of_open Law.onward_open (World.advance_onward trivial (fun _ _ hle => hle) h
    (Law.onward_open.allBodies w)) c

/-- The worlds that commands lead to come about without moving the clock back. Induction on the
commands. -/
theorem World.after_onward {w : World} (h : Moment.Arises ⟨w, none, none⟩)
    (commands : List Command) :
    Moves .onward ⟨w, none, none⟩ ⟨w.after commands, none, none⟩ := by
  induction commands generalizing w with
  | nil => exact .refl
  | cons c rest ih =>
    have hfirst := World.step_onward h c
    exact hfirst.trans (ih (h.trans (Moves.free hfirst)))

/-- **The worlds that commands lead to come about without the clock going back.** -/
theorem World.Reachable.unfolds {w : World} (h : w.Reachable) :
    ∃ nesting, Moves .onward ⟨{ nesting }, none, none⟩ ⟨w, none, none⟩ := by
  induction h with
  | fresh nesting => exact ⟨nesting, .refl⟩
  | step c before ih =>
    obtain ⟨nesting, hbefore⟩ := ih
    exact ⟨nesting, hbefore.trans (World.step_onward before.arises c)⟩
  | stepShared loaded c before ih =>
    obtain ⟨nesting, hbefore⟩ := ih
    refine ⟨nesting, hbefore.trans
      (stepShared_moves Law.onward_open (fun us hmoves => ?_) loaded c)⟩
    exact World.advance_onward trivial (fun _ _ hle => hle)
      (before.arises.trans (Moves.free hmoves)) (Law.onward_open.allBodies _) us

/-! ## The clock of a timer -/

theorem Timer.nowMs_mono (t : Timer) {us us' : Nat} (h : us ≤ us') : t.nowMs us ≤ t.nowMs us' := by
  have hdiv := Nat.div_le_div_right (c := 1000) (Nat.sub_le_sub_right h t.epochUs)
  unfold Timer.nowMs
  omega

/-- The reading of a timer that is still there is no less than it was. -/
theorem World.ClockStep.nowMs_le {law : Law} {w w' : World} (h : w.ClockStep law w')
    (hwaits : ∀ w us, law.waits w us → w.clockUs ≤ us) {id : TimerId} (hold : id < w.timers)
    (hthere : w'.hasTimer id = true) : w.nowMs ≤ w'.nowMs := by
  have hsame : w.clockUs ≤ w'.clockUs → w'.timer.map (·.epochUs) = w.timer.map (·.epochUs) →
      w.nowMs ≤ w'.nowMs := by
    intro hclock hepoch
    unfold World.nowMs
    cases ht : w.timer with
    | none => exact Nat.zero_le _
    | some t =>
      rw [ht] at hepoch
      obtain ⟨t', ht', hsame⟩ := Option.map_eq_some_iff.1 hepoch
      have hread : t'.nowMs w'.clockUs = t.nowMs w'.clockUs := by
        unfold Timer.nowMs
        rw [hsame]
      rw [ht', Option.map_some, Option.map_some, Option.getD_some, Option.getD_some, hread]
      exact t.nowMs_mono hclock
  cases h with
  | onward clock frame =>
    refine hsame clock ?_
    have hepoch := congrArg (Option.map fun frame : TimerId × Nat × Array (Nat × Nat × Nat) =>
      frame.2.1) frame
    rw [Option.map_map, Option.map_map] at hepoch
    exact hepoch
  | waits us allowed => exact hsame (hwaits w us allowed) rfl
  | creates c valid =>
    -- a timer that is created has a number of its own
    obtain ⟨t, ht, hstep⟩ := (w.startTimer_inStep valid).1.timer
    have hid : t.id = w.timers := hstep.id_eq
    simp only [World.hasTimer, ht, Option.any_some, beq_iff_eq] at hthere
    exact absurd (hthere.symm.trans hid) (Nat.ne_of_lt hold)
  | drops =>
    obtain ⟨journal, -, heq⟩ := w.dropTimer_eq
    rw [heq] at hthere
    simp [World.hasTimer] at hthere

/-- **The clock of an entry's timer never goes back** as long as the timer is there. -/
theorem Move.nowMs_le {law : Law} {m m' : Moment} (h : Move law m m')
    (hwaits : ∀ w us, law.waits w us → w.clockUs ≤ us) (harises : m.Arises) {i : EntryId}
    {v v' : View} (hv : m.view i = some v) (hv' : m'.view i = some v')
    (hstepped : v.EntryStep law i v') (hthere : v'.there = true) : v.nowMs ≤ v'.nowMs := by
  obtain ⟨hentry, -, -, hnow, -⟩ := World.page_eq_some.1 (Moment.view_eq_some.1 hv).1
  obtain ⟨-, -, hthere', hnow', -⟩ := World.page_eq_some.1 (Moment.view_eq_some.1 hv').1
  rw [hnow, hnow']
  -- the timer of the entry is an old one
  refine h.clockStep.nowMs_le hwaits (harises.custody.owners hentry) ?_
  rw [← hstepped.timingStep.owner, ← hthere']
  exact hthere

end TimingWheel
