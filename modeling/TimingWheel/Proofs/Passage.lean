import TimingWheel.Proofs.Drift

/-!
# Time passes without a missed tick

On a steady course nobody moves the clock but the passing of time, and that goes from one due tick
to the next. So every command leaves a world in which nothing is due, and gets there by moves that a
steady law allows. For this it does not matter whether the timer runs. While it is stopped, due
ticks are dealt with by losing them.

* **`World.Timely.settle`** — one pass over the levels deals with everything that is due.
* **`World.Timely.advance`** — the steps that an advance is allowed are enough to get to its target.
* **`World.Course`** — courses of commands, and what they come to (`World.Course.moves`).
-/

namespace TimingWheel

/-- What may happen on a steady course. The clock is never moved past a tick that is still to
come. -/
def Law.steady (takes : EntryId → Prop) : Law where
  acts := Action.Steady
  ticks := True
  waits w us := w.clockUs ≤ us ∧ ∀ t, w.timer = some t → ∀ wheel ∈ t.wheels, us ≤ t.nextTickUs wheel
  takes
  replaces := False

/-- The timer missed no tick, and no body stops it or moves the clock. -/
structure World.Steady (w : World) (k : Clockwork) : Prop where
  inStep : w.InStep k
  bodies : w.AllBodies Action.Steady

/-- Every due tick was dealt with in time, and no body stops the timer or moves the clock. -/
structure World.Timely (w : World) (k : Clockwork) : Prop where
  onTime : w.OnTime k
  bodies : w.AllBodies Action.Steady

section

variable {takes : EntryId → Prop} {k : Clockwork} {m m' : Moment} {w w' : World}

theorem Move.onTime (h : Move (.steady takes) m m') (hm : m.world.OnTime k) : m'.world.OnTime k :=
  hm.clockworkStep (h.clockworkStep (fun _ ha => ha) id) id

/-- On a steady course every tick is dealt with when it falls due. -/
theorem Moves.onTime (h : Moves (.steady takes) m m') (hm : m.world.OnTime k) :
    m'.world.OnTime k := by
  induction h with
  | refl => exact hm
  | tail _ hmove ih => exact hmove.onTime ih

theorem Move.inStep (h : Move (.steady takes) m m') (hm : m.InStep k) : m'.InStep k :=
  hm.clockworkStep (h.clockworkStep (fun _ ha => ha) id) id

/-- A timer that is not stopped misses no tick on a steady course. Induction on the moves. -/
theorem Moves.inStep (h : Moves (.steady takes) m m') (hm : m.InStep k) : m'.InStep k := by
  induction h with
  | refl => exact hm
  | tail _ hmove ih => exact hmove.inStep ih

theorem World.InStep.moment (h : w.InStep k) (executing : Option EntryId) :
    Moment.InStep ⟨w, none, executing⟩ k := ⟨h, fun hs => by simp at hs⟩

theorem World.Timely.moves (hw : w.Timely k)
    (h : Moves (.steady takes) ⟨w, none, none⟩ ⟨w', none, none⟩) : w'.Timely k :=
  ⟨h.onTime hw.onTime, Moves.allBodies h hw.bodies⟩

theorem World.Steady.timely (hw : w.Steady k) : w.Timely k := ⟨hw.inStep.onTime, hw.bodies⟩

theorem World.Steady.moves (hw : w.Steady k)
    (h : Moves (.steady takes) ⟨w, none, none⟩ ⟨w', none, none⟩) : w'.Steady k :=
  ⟨(h.inStep (hw.inStep.moment none)).world, Moves.allBodies h hw.bodies⟩

theorem Move.runUs_le (h : Move (.steady takes) m m') (k : Clockwork) :
    m.world.runUs k ≤ m'.world.runUs k := by
  cases h.clockworkStep (fun _ ha => ha) id with
  | still world sweep => exact Nat.le_of_eq (world.runUs k).symm
  | @resumes w t sweep executing there stopped =>
    obtain ⟨journal, -, heq⟩ := w.controlTimer_start there stopped
    exact Nat.le_of_eq (by rw [heq]; rfl)
  | @loses w level t wheel allowed there stopped known due =>
    exact Nat.le_of_eq (by rw [World.serve_eq]; rfl)
  | @drains w level t wheel allowed there running known due waiting =>
    obtain ⟨journal, -, heq⟩ := w.drained_eq level wheel
    exact Nat.le_of_eq (by rw [heq]; rfl)
  | waits allowed => exact Nat.sub_le_sub_right allowed.1 _

/-- A steady course never moves the clock back. -/
theorem Moves.runUs_le (h : Moves (.steady takes) m m') (k : Clockwork) :
    m.world.runUs k ≤ m'.world.runUs k := by
  induction h with
  | refl => exact Nat.le_refl _
  | tail _ hmove ih => exact Nat.le_trans ih (hmove.runUs_le k)

/-- Where nobody waits the clock stands still. -/
theorem Moment.ClockworkStep.clockUs_eq {law : Law} (h : m.ClockworkStep law m')
    (hwaits : ∀ w us, ¬ law.waits w us) : m'.world.clockUs = m.world.clockUs := by
  cases h with
  | still world sweep => exact world.clockUs
  | @resumes w t sweep executing there stopped =>
    obtain ⟨journal, -, heq⟩ := w.controlTimer_start there stopped
    rw [heq]
  | loses allowed there stopped known due => rw [World.serve_eq]
  | @drains w level t wheel allowed there running known due waiting =>
    obtain ⟨journal, -, heq⟩ := w.drained_eq level wheel
    rw [heq]
  | waits allowed => exact absurd allowed (hwaits _ _)

/-- While a body runs the clock stands still. -/
theorem Move.clockUs_eq (h : Move (Law.steady takes).withinBody m m') :
    m'.world.clockUs = m.world.clockUs :=
  (h.clockworkStep (fun _ ha => ha) id).clockUs_eq fun _ _ => id

/-- A body on a steady course leaves the clock where it is. -/
theorem Moves.clockUs_eq (h : Moves (Law.steady takes).withinBody m m') :
    m'.world.clockUs = m.world.clockUs := by
  induction h with
  | refl => rfl
  | tail _ hmove ih => exact hmove.clockUs_eq.trans ih

end

/-! ## One tick -/

/-- What is due is a matter of the clockwork, unless the timer is closed. -/
theorem Timer.ticksBy_of_works {t t' : Timer} (hworks : t'.works = t.works)
    (hclosed : t'.status = .closed ↔ t.status = .closed) (us level : Nat) :
    t'.ticksBy us level = t.ticksBy us level := by
  have hepoch : t'.epochUs = t.epochUs := congrArg (·.2.1) hworks
  have hwheels : (t'.wheels.map Wheel.bare)[level]? = (t.wheels.map Wheel.bare)[level]? :=
    congrArg (fun works => works.2.2[level]?) hworks
  have hread : ∀ t : Timer, t.ticksBy us level = if t.status = .closed then 0
      else ((t.wheels.map Wheel.bare)[level]?.map fun wheel =>
        (us - t.epochUs) / Timer.periodUs wheel - wheel.served).getD 0 := by
    intro t
    unfold Timer.ticksBy
    rw [Array.getElem?_map]
    cases t.wheels[level]? <;> rfl
  rw [hread, hread, if_congr hclosed rfl rfl, hepoch, hwheels]

/-- Where the world stands still, the same ticks are due. -/
theorem World.Still.overdue {w w' : World} (h : w.Still w') (level : Nat) :
    w'.overdue level = w.overdue level := by
  unfold World.overdue
  rw [h.clockUs]
  exact congrArg (·.getD 0) (h.read fun hworks hstatus =>
    Timer.ticksBy_of_works hworks (by rw [hstatus]) _ _)

/-- As long as the clock and the clockwork are left alone, the same ticks are due. -/
theorem World.OnTime.overdue_eq {k : Clockwork} {w w' : World} (hw : w.OnTime k)
    (hw' : w'.OnTime k) (hclock : w'.clockUs = w.clockUs)
    (hworks : w'.timer.map Timer.works = w.timer.map Timer.works) (level : Nat) :
    w'.overdue level = w.overdue level := by
  obtain ⟨t, ht, honTime⟩ := hw.timer
  obtain ⟨t', ht', honTime'⟩ := hw'.timer
  rw [ht, ht', Option.map_some, Option.map_some, Option.some.injEq] at hworks
  unfold World.overdue
  rw [hclock, ht, ht', Option.map_some, Option.map_some,
    Timer.ticksBy_of_works hworks (iff_of_false honTime'.opened honTime.opened)]

/-- Whatever a body does, the same ticks are due afterwards. -/
theorem World.OnTime.overdue_body {takes : EntryId → Prop} {k : Clockwork} {m m' : Moment}
    (hm : m.world.OnTime k) (h : Moves (Law.steady takes).withinBody m m') (level : Nat) :
    m'.world.overdue level = m.world.overdue level :=
  hm.overdue_eq (Moves.onTime (Moves.of_withinBody h) hm) (Moves.clockUs_eq h)
    (Moves.onward h).works level

/-- What happens on one level makes no tick of another one due. -/
theorem Timer.ticksBy_modifyWheel_of_ne (t : Timer) {level other : Nat} (h : other ≠ level)
    (f : Wheel → Wheel) (us : Nat) :
    (t.modifyWheel level f).ticksBy us other = t.ticksBy us other := by
  unfold Timer.modifyWheel Timer.ticksBy
  simp only [Array.getElem?_modify, if_neg (Ne.symm h)]

/-- A slot that is drained leaves the due ticks of other levels. -/
theorem World.overdue_drained_of_ne (w : World) {level other : Nat} (wheel : Wheel)
    (h : other ≠ level) : (w.drained level wheel).overdue other = w.overdue other := by
  obtain ⟨journal, -, heq⟩ := w.drained_eq level wheel
  rw [heq]
  unfold World.overdue
  cases w.timer with
  | none => rfl
  | some t => exact t.ticksBy_modifyWheel_of_ne h _ w.clockUs

/-- So does a tick that is lost. -/
theorem World.overdue_serve_of_ne (w : World) {level other : Nat} (h : other ≠ level) :
    (w.serve level).overdue other = w.overdue other := by
  rw [World.serve_eq]
  unfold World.overdue
  cases w.timer with
  | none => rfl
  | some t => exact t.ticksBy_modifyWheel_of_ne h _ w.clockUs

/-- A number of due ticks of a level was dealt with, and none of another level. -/
structure World.Served (k : Clockwork) (level n : Nat) (w w' : World) : Prop where
  timely : w'.Timely k
  clockUs : w'.clockUs = w.clockUs
  overdue : w'.overdue level + n = w.overdue level
  others : ∀ other, other ≠ level → w'.overdue other = w.overdue other

section

variable {k : Clockwork} {w w' w'' : World} {level n : Nat}

theorem World.Served.refl (h : w.Timely k) (level : Nat) : w.Served k level 0 w :=
  ⟨h, rfl, rfl, fun _ _ => rfl⟩

/-- Ticks that are dealt with on two stretches add up. -/
theorem World.Served.trans {n' : Nat} (h : w.Served k level n w') (h' : w'.Served k level n' w'') :
    w.Served k level (n' + n) w'' := by
  refine ⟨h'.timely, h'.clockUs.trans h.clockUs, ?_, fun other hother => ?_⟩
  · rw [← Nat.add_assoc, h'.overdue, h.overdue]
  · rw [h'.others other hother, h.others other hother]

/-- A level that has a tick due is there. -/
theorem World.exists_wheel_of_due (due : 1 ≤ w.overdue level) :
    ∃ t wheel, w.timer = some t ∧ t.wheels[level]? = some wheel := by
  unfold World.overdue at due
  cases ht : w.timer with
  | none => simp [ht] at due
  | some t =>
    cases hwheel : t.wheels[level]? with
    | none => simp [ht, Timer.ticksBy, hwheel] at due
    | some wheel => exact ⟨t, wheel, rfl, hwheel⟩

/-- A due tick is dealt with in full, whether it drains its slot or is lost: its level has one
less due, and the others have as many as before. -/
theorem World.Timely.tick (h : w.Timely k) (due : 1 ≤ w.overdue level) :
    w.Served k level 1 (w.tick level) := by
  obtain ⟨t, wheel, ht, hwheel⟩ := World.exists_wheel_of_due due
  have htimely : (w.tick level).Timely k := h.moves
    (@tick_moves (Law.steady fun _ => True) trivial w h.bodies level 0 (Or.inl due)).1
  cases hs : t.status with
  | closed => exact absurd hs (h.onTime.of_timer ht).opened
  | stopped =>
    have htick : w.tick level = w.serve level := by simp only [World.tick, ht, hs, hwheel]
    rw [htick] at htimely ⊢
    refine ⟨htimely, ?_, ?_, fun other hother => w.overdue_serve_of_ne hother⟩
    · rw [World.serve_eq]
    · rw [World.overdue_serve]
      omega
  | running =>
    have htick : w.tick level = wheel.nextBatch.toList.foldl
        (World.dispatch level (wheel.ticks + 1) w.nowMs) (w.drained level wheel) := by
      rw [← World.turnWheel_eq]
      simp only [World.tick, ht, hs, hwheel]
    have hdrained := h.onTime.drained ht hwheel due
    obtain ⟨journal, -, heq⟩ := w.drained_eq level wheel
    have hbodies : (w.drained level wheel).AllBodies Action.Steady := by
      rw [heq]
      exact h.bodies
    -- the batch is dealt with while the clock stands still
    have hbatch := @batch_moves (Law.steady fun _ => True).withinBody level (wheel.ticks + 1)
      w.nowMs wheel.nextBatch.toList _ hbodies
    have hclock := Moves.clockUs_eq hbatch
    have hoverdue := hdrained.overdue_body hbatch
    rw [← htick] at hclock hoverdue
    refine ⟨htimely, hclock.trans (by rw [heq]), ?_, fun other hother => ?_⟩
    · rw [hoverdue, World.overdue_drained]
      omega
    · rw [hoverdue, World.overdue_drained_of_ne w wheel hother]

/-- Any number of due ticks of a level. Induction on the number. -/
theorem World.Timely.ticks (n : Nat) : ∀ {w : World}, w.Timely k → n ≤ w.overdue level →
    w.Served k level n (World.ticks level n w) := by
  induction n with
  | zero => exact fun h _ => .refl h level
  | succ n ih =>
    intro w h due
    have hfirst := h.tick (Nat.le_trans (Nat.le_add_left 1 n) due)
    have hcount := hfirst.overdue
    exact hfirst.trans (ih hfirst.timely (by omega))

/-! ## Everything that is due -/

/-- One round is enough for a level, since nothing becomes due meanwhile. -/
theorem World.Timely.catchUp (h : w.Timely k) (level rounds : Nat) :
    w.Served k level (w.overdue level) (World.catchUp level (rounds + 1) w) := by
  unfold World.catchUp
  split
  · next hnone =>
    rw [hnone]
    exact .refl h level
  · next n hdue =>
    have hserved := h.ticks (n + 1) (Nat.le_of_eq hdue.symm)
    have hnone : (World.ticks level (n + 1) w).overdue level = 0 := by
      have hcount := hserved.overdue
      omega
    have hsame : World.catchUp level rounds (World.ticks level (n + 1) w)
        = World.ticks level (n + 1) w := by
      cases rounds with
      | zero => rfl
      | succ rounds => simp only [World.catchUp, hnone]
    rw [hsame, hdue]
    exact hserved

/-- The levels one after the other: none that comes before has anything due again. Induction on
the levels. -/
theorem World.Timely.serveAll (levels : List Nat) : ∀ {w : World}, w.Timely k →
    (World.serveAll levels w).Timely k ∧ (World.serveAll levels w).clockUs = w.clockUs
      ∧ ∀ level, level ∈ levels ∨ w.overdue level = 0 →
          (World.serveAll levels w).overdue level = 0 := by
  unfold World.serveAll
  induction levels with
  | nil => exact fun h => ⟨h, rfl, fun level hlevel => hlevel.resolve_left (by simp)⟩
  | cons first rest ih =>
    intro w h
    have hserved := h.catchUp first w.jumpBound
    obtain ⟨htimely, hclock, hnone⟩ := ih hserved.timely
    refine ⟨htimely, hclock.trans hserved.clockUs, fun level hlevel => hnone level ?_⟩
    by_cases hfirst : level = first
    · -- the rest leaves the first level as it is, with nothing due
      have hcount := hserved.overdue
      rw [hfirst]
      exact Or.inr (by omega)
    · rcases hlevel with hmem | hzero
      · exact Or.inl ((List.mem_cons.1 hmem).resolve_left hfirst)
      · exact Or.inr ((hserved.others level hfirst).trans hzero)

theorem World.isDue_eq_false_iff : w.isDue = false ↔
    ∀ level ∈ w.servingOrder, w.overdue level = 0 := by
  unfold World.isDue
  simp

/-- A level that is not served is not there, so nothing of it is due. -/
theorem World.overdue_of_notMem (h : level ∉ w.servingOrder) : w.overdue level = 0 := by
  apply Nat.eq_zero_of_not_pos
  intro due
  obtain ⟨t, wheel, ht, hwheel⟩ := World.exists_wheel_of_due due
  have hlt := (Array.getElem?_eq_some_iff.1 hwheel).1
  apply h
  unfold World.servingOrder Timer.levels
  rw [ht]
  cases w.coarseFirst <;> simpa using hlt

/-- Whether anything is due does not depend on the order in which levels are served. -/
theorem World.isDue_iff : w.isDue = false ↔ ∀ level, w.overdue level = 0 := by
  rw [World.isDue_eq_false_iff]
  refine ⟨fun hnone level => ?_, fun hnone level _ => hnone level⟩
  by_cases hlevel : level ∈ w.servingOrder
  · exact hnone level hlevel
  · exact World.overdue_of_notMem hlevel

/-- Where nothing is due, nothing happens. -/
theorem World.settleWithin_of_idle (h : w.isDue = false) (passes : Nat) :
    World.settleWithin passes w = w := by
  cases passes with
  | zero => rfl
  | succ passes =>
    rw [World.settleWithin, h]
    rfl

/-- **One pass deals with everything that is due.** -/
theorem World.Timely.settle (h : w.Timely k) :
    w.settle.Timely k ∧ w.settle.clockUs = w.clockUs ∧ ∀ level, w.settle.overdue level = 0 := by
  by_cases hdue : w.isDue = false
  · have hsame : w.settle = w := World.settleWithin_of_idle hdue _
    rw [hsame]
    exact ⟨h, rfl, World.isDue_iff.1 hdue⟩
  · obtain ⟨htimely, hclock, hserved⟩ := World.Timely.serveAll w.servingOrder h
    have hnone : ∀ level, w.pass.overdue level = 0 := by
      intro level
      by_cases hlevel : level ∈ w.servingOrder
      · exact hserved level (Or.inl hlevel)
      · exact hserved level (Or.inr (World.overdue_of_notMem hlevel))
    have hpass : w.settle = w.pass := by
      rw [World.settle, World.settleWithin, if_pos (by simpa using hdue)]
      -- another pass, where one is allowed, finds nothing due
      exact World.settleWithin_of_idle (World.isDue_iff.2 hnone) _
    rw [hpass]
    exact ⟨htimely, hclock, hnone⟩

/-- Nothing is due exactly if every wheel stands at its last due tick. -/
theorem World.Lags.settled_iff (h : w.Lags k) : w.Settled k ↔ ∀ level, w.overdue level = 0 := by
  constructor
  · intro hsettled level
    apply Nat.eq_zero_of_not_pos
    intro due
    obtain ⟨t, wheel, ht, hwheel⟩ := World.exists_wheel_of_due due
    exact absurd ((h.due_iff ht hwheel).1 due) (Nat.not_le.2 (hsettled t ht level wheel hwheel))
  · intro hnone t ht level wheel hwheel
    apply Nat.lt_of_not_le
    intro hcome
    have hdue := (h.due_iff ht hwheel).2 hcome
    rw [hnone level] at hdue
    exact absurd hdue (Nat.not_succ_le_zero 0)

/-- Where nothing is due, the next tick of every level is still to come. -/
theorem World.OnTime.before_next {t : Timer} {wheel : Wheel} (h : w.OnTime k)
    (hidle : ∀ level, w.overdue level = 0) (ht : w.timer = some t)
    (hwheel : t.wheels[level]? = some wheel) :
    w.runUs k < k.tickMs level (wheel.served + 1) * 1000 := by
  apply Nat.lt_of_not_le
  intro hcome
  have hdue := (h.due_iff ht hwheel).2 hcome
  rw [hidle level] at hdue
  exact absurd hdue (Nat.not_succ_le_zero 0)

end

/-! ## From one due tick to the next

Every step of an advance goes to a due tick, so the steps are counted by the ticks that fall due. -/

theorem total_map_add {α : Type} (l : List α) (f g : α → Nat) :
    total (l.map fun a => f a + g a) = total (l.map f) + total (l.map g) := by
  induction l with
  | nil => rfl
  | cons a rest ih =>
    simp only [List.map_cons, total]
    omega

theorem total_map_le {α : Type} {l : List α} {f g : α → Nat} (h : ∀ a ∈ l, f a ≤ g a) :
    total (l.map f) ≤ total (l.map g) := by
  induction l with
  | nil => exact Nat.le_refl _
  | cons a rest ih =>
    have hfirst := h a List.mem_cons_self
    have hrest := ih fun b hb => h b (List.mem_cons_of_mem a hb)
    simp only [List.map_cons, total]
    omega

/-- A sum is less if one summand is and no other one is more. -/
theorem total_map_lt {α : Type} {l : List α} {f g : α → Nat} (h : ∀ a ∈ l, f a ≤ g a)
    {a : α} (ha : a ∈ l) (hlt : f a < g a) : total (l.map f) < total (l.map g) := by
  induction l with
  | nil => simp at ha
  | cons b rest ih =>
    have hfirst := h b List.mem_cons_self
    have hall : ∀ c ∈ rest, f c ≤ g c := fun c hc => h c (List.mem_cons_of_mem b hc)
    simp only [List.map_cons, total]
    rcases List.mem_cons.1 ha with rfl | hrest
    · have hle := total_map_le hall
      omega
    · have hless := ih hall hrest
      omega

/-- Ticks of all levels that fall due within a time. -/
def Clockwork.ticksWithin (k : Clockwork) (runUs : Nat) : Nat :=
  total ((List.range k.config.levels).map fun level => runUs / (k.config.resolutionMs level * 1000))

section

variable {k : Clockwork} {w : World}

theorem Clockwork.ticksWithin_mono {us us' : Nat} (h : us ≤ us') :
    k.ticksWithin us ≤ k.ticksWithin us' :=
  total_map_le fun _ _ => Nat.div_le_div_right h

/-- Between the last tick of a level and its next one a tick falls due. -/
theorem World.OnTime.ticksWithin_lt {t : Timer} (ht : w.timer = some t) {level : Nat}
    {wheel : Wheel} (hwheel : t.wheels[level]? = some wheel) (h : w.OnTime k)
    (hidle : ∀ level, w.overdue level = 0) :
    k.ticksWithin (w.runUs k) < k.ticksWithin (k.tickMs level (wheel.served + 1) * 1000) := by
  have hlt := h.before_next hidle ht hwheel
  have hlevel : level < k.config.levels := by
    rw [← (h.of_timer ht).size]
    exact (Array.getElem?_eq_some_iff.1 hwheel).1
  have hpos : 0 < k.config.resolutionMs level * 1000 := by
    have hres := k.resolutionMs_pos level
    omega
  refine total_map_lt (fun _ _ => Nat.div_le_div_right (Nat.le_of_lt hlt))
    (List.mem_range.2 hlevel) ?_
  rw [Clockwork.tickMs, Nat.mul_assoc] at hlt ⊢
  rw [Nat.mul_div_cancel _ hpos]
  exact (Nat.div_lt_iff_lt_mul hpos).2 hlt

/-- An advance is allowed as many steps as ticks fall due. -/
theorem World.OnTime.ticksWithin_le (h : w.OnTime k) (targetUs : Nat) :
    k.ticksWithin (targetUs - k.epochUs) ≤ w.ticksBy targetUs + k.ticksWithin (w.runUs k) := by
  obtain ⟨t, ht, honTime⟩ := h.timer
  unfold World.ticksBy Timer.levels Clockwork.ticksWithin
  simp only [ht]
  rw [honTime.size, ← total_map_add]
  refine total_map_le fun level hlevel => ?_
  obtain ⟨wheel, hwheel⟩ : ∃ wheel, t.wheels[level]? = some wheel := by
    rw [List.mem_range, ← honTime.size] at hlevel
    exact ⟨_, Array.getElem?_eq_getElem hlevel⟩
  have hw := honTime.wheel hwheel
  have hpos := k.resolutionMs_pos level
  have hreached : wheel.served ≤ w.runUs k / (k.config.resolutionMs level * 1000) := by
    rw [Nat.le_div_iff_mul_le (by omega), ← Nat.mul_assoc]
    exact hw.reached
  unfold Timer.ticksBy Timer.periodUs
  simp only [if_neg honTime.opened, hwheel, hw.resolutionMs, honTime.epochUs]
  omega

/-- No tick falls due up to a clock. -/
def World.ClearTo (w : World) (us : Nat) : Prop :=
  ∀ t, w.timer = some t → ∀ wheel ∈ t.wheels, us < t.nextTickUs wheel

/-- Where no tick falls due up to the clock, nothing is due. -/
theorem World.OnTime.idle_of_clearTo (h : w.OnTime k) (hw : w.ClearTo w.clockUs) (level : Nat) :
    w.overdue level = 0 := by
  apply Nat.eq_zero_of_not_pos
  intro due
  obtain ⟨t, wheel, ht, hwheel⟩ := World.exists_wheel_of_due due
  have hcome := (h.due_iff ht hwheel).1 due
  have hlt := hw t ht wheel (Array.mem_of_getElem? hwheel)
  have hbegun := h.begun
  rw [(h.of_timer ht).nextTickUs hwheel] at hlt
  rw [World.runUs] at hcome
  omega

/-- And the other way around. -/
theorem World.OnTime.clearTo (h : w.OnTime k) (hidle : ∀ level, w.overdue level = 0) :
    w.ClearTo w.clockUs := by
  intro t ht wheel hmem
  obtain ⟨level, hwheel⟩ := Array.mem_iff_getElem?.1 hmem
  have hlt := h.before_next hidle ht hwheel
  have hbegun := h.begun
  rw [(h.of_timer ht).nextTickUs hwheel]
  rw [World.runUs] at hlt
  omega

/-- The next stop of an advance is the earliest of the ticks to come, or there is none and no tick
will ever fall due. -/
theorem World.OnTime.earliestTickUs (h : w.OnTime k) :
    (w.timer.bind (·.earliestTickUs?) = none ∧ ∀ us, w.ClearTo us)
    ∨ ∃ (due : Nat) (t : Timer) (level : Nat) (wheel : Wheel),
        w.timer.bind (·.earliestTickUs?) = some due ∧ w.timer = some t
        ∧ t.wheels[level]? = some wheel ∧ t.nextTickUs wheel = due
        ∧ ∀ t, w.timer = some t → ∀ wheel ∈ t.wheels, due ≤ t.nextTickUs wheel := by
  obtain ⟨t, ht, honTime⟩ := h.timer
  have hearliest : w.timer.bind (·.earliestTickUs?) = (t.wheels.map t.nextTickUs).toList.min? := by
    rw [ht]
    show t.earliestTickUs? = _
    rw [Timer.earliestTickUs?, if_neg honTime.opened]
  have hmem : ∀ wheel ∈ t.wheels, t.nextTickUs wheel ∈ (t.wheels.map t.nextTickUs).toList := by
    intro wheel hwheel
    rw [Array.mem_toList_iff]
    exact Array.mem_map.2 ⟨wheel, hwheel, rfl⟩
  -- without wheels there is no next tick; otherwise the least of the next ticks is some wheel's
  rw [hearliest]
  cases hmin : (t.wheels.map t.nextTickUs).toList.min? with
  | none =>
    refine Or.inl ⟨rfl, fun us t' ht' wheel hwheel => ?_⟩
    obtain rfl : t = t' := Option.some.inj (ht.symm.trans ht')
    have hin := hmem wheel hwheel
    rw [List.min?_eq_none_iff.1 hmin] at hin
    simp at hin
  | some due =>
    obtain ⟨hin, hleast⟩ := List.min?_eq_some_iff.1 hmin
    rw [Array.mem_toList_iff, Array.mem_map] at hin
    obtain ⟨wheel, hwheel, hdue⟩ := hin
    obtain ⟨level, hlevel⟩ := Array.mem_iff_getElem?.1 hwheel
    refine Or.inr ⟨due, t, level, wheel, rfl, ht, hlevel, hdue, fun t' ht' wheel' hwheel' => ?_⟩
    obtain rfl : t = t' := Option.some.inj (ht.symm.trans ht')
    exact hleast _ (hmem wheel' hwheel')

/-- **From one due tick to the next**, where settling leaves nothing due or the timer closed. -/
theorem World.advanceWithin_between {law : Law} {p : World → Prop} {targetUs : Nat}
    (hsettle : ∀ {w : World}, p w → Moves law ⟨w, none, none⟩ ⟨w.settle, none, none⟩
      ∧ w.settle.clockUs = w.clockUs ∧ ((∀ t, w.settle.timer = some t → t.status = .closed)
        ∨ w.settle.OnTime k ∧ ∀ level, w.settle.overdue level = 0))
    (hwait : ∀ {w : World} {us : Nat}, p w → w.settle.OnTime k → w.settle.clockUs ≤ us →
      (∀ t, w.settle.timer = some t → ∀ wheel ∈ t.wheels, us ≤ t.nextTickUs wheel) →
      law.waits w.settle us ∧ p { w.settle with clockUs := us }) (n : Nat) : ∀ {w : World}, p w →
    w.clockUs ≤ targetUs → k.ticksWithin (targetUs - k.epochUs) < n + k.ticksWithin (w.runUs k) →
    Moves law ⟨w, none, none⟩ ⟨World.advanceWithin targetUs n w, none, none⟩
      ∧ (World.advanceWithin targetUs n w).clockUs ≤ targetUs
      ∧ ((∀ t, (World.advanceWithin targetUs n w).timer = some t → t.status = .closed)
        ∨ (World.advanceWithin targetUs n w).ClearTo targetUs) := by
  -- every step but the last moves the clock to a tick, so no more steps are needed than ticks fall
  -- due up to the target
  induction n with
  | zero =>
    intro w h hclock hfuel
    have hmono := k.ticksWithin_mono (Nat.sub_le_sub_right hclock k.epochUs)
    rw [Nat.zero_add] at hfuel
    exact absurd hfuel (Nat.not_lt.2 hmono)
  | succ n ih =>
    intro w h hclock hfuel
    obtain ⟨hmoves, hsame, hsettled⟩ := hsettle h
    have hstays : w.settle.timer.bind (·.earliestTickUs?) = none →
        World.advanceWithin targetUs (n + 1) w = w.settle := by
      intro hnone
      simp only [World.advanceWithin, hnone]
    rcases hsettled with hclosed | ⟨honTime, hidle⟩
    · rw [hstays (World.earliestTickUs_of_closed hclosed)]
      exact ⟨hmoves, by rw [hsame]; exact hclock, Or.inl hclosed⟩
    rcases honTime.earliestTickUs with
      ⟨hnone, hclear⟩ | ⟨due, t, level, wheel, hsome, ht, hwheel, hdue, hleast⟩
    · rw [hstays hnone]
      exact ⟨hmoves, by rw [hsame]; exact hclock, Or.inr (hclear targetUs)⟩
    · have heq : World.advanceWithin targetUs (n + 1) w = if due ≤ targetUs then
          World.advanceWithin targetUs n { w.settle with clockUs := due } else w.settle := by
        simp only [World.advanceWithin, hsome]
      rw [heq]
      split
      · next hle =>
        -- on to the next due tick
        have hbefore := honTime.clearTo hidle t ht wheel (Array.mem_of_getElem? hwheel)
        rw [hdue] at hbefore
        obtain ⟨hallowed, hnext⟩ := hwait h honTime (Nat.le_of_lt hbefore) hleast
        have hmore := honTime.ticksWithin_lt ht hwheel hidle
        have hrun : World.runUs { w.settle with clockUs := due } k
            = k.tickMs level (wheel.served + 1) * 1000 := by
          have htick := (honTime.of_timer ht).nextTickUs hwheel
          show due - k.epochUs = _
          omega
        have hrunSettle : w.settle.runUs k = w.runUs k := by
          rw [World.runUs, World.runUs, hsame]
        rw [hrunSettle, ← hrun] at hmore
        obtain ⟨hrest, hend⟩ := ih hnext hle (by omega)
        exact ⟨(hmoves.tail (.wait _ due hallowed)).trans hrest, hend⟩
      · next hgt =>
        refine ⟨hmoves, by rw [hsame]; exact hclock, Or.inr fun t ht wheel hwheel => ?_⟩
        exact Nat.lt_of_lt_of_le (Nat.lt_of_not_le hgt) (hleast t ht wheel hwheel)

/-- The stops of an advance, where there are enough for all ticks that fall due. They make a
steady course, and no tick is left up to the target. Induction on the stops. -/
theorem World.Timely.advanceWithin (takes : EntryId → Prop) (targetUs n : Nat) {w : World}
    (h : w.Timely k) (hclock : w.clockUs ≤ targetUs)
    (hfuel : k.ticksWithin (targetUs - k.epochUs) < n + k.ticksWithin (w.runUs k)) :
    Moves (.steady takes) ⟨w, none, none⟩ ⟨World.advanceWithin targetUs n w, none, none⟩
      ∧ (World.advanceWithin targetUs n w).clockUs ≤ targetUs
      ∧ (World.advanceWithin targetUs n w).ClearTo targetUs := by
  obtain ⟨hmoves, hend, hclear⟩ := @World.advanceWithin_between k (.steady takes) (·.Timely k)
    targetUs
    (fun hw => ⟨settle_moves trivial hw.bodies, hw.settle.2.1,
      Or.inr ⟨hw.settle.1.onTime, hw.settle.2.2⟩⟩)
    (fun hw honTime hle hleast => ⟨⟨hle, hleast⟩, honTime.wait hle hleast, hw.settle.1.bodies⟩)
    n w h hclock hfuel
  refine ⟨hmoves, hend, hclear.resolve_left fun hclosed => ?_⟩
  obtain ⟨t, ht, honTime⟩ := (h.moves hmoves).onTime.timer
  exact honTime.opened (hclosed t ht)

/-- An advance is allowed steps enough. -/
theorem World.OnTime.enough (h : w.OnTime k) (us : Nat) :
    k.ticksWithin (w.clockUs + us - k.epochUs)
      < w.ticksBy (w.clockUs + us) + 1 + k.ticksWithin (w.runUs k) := by
  have hsteps := h.ticksWithin_le (w.clockUs + us)
  omega

/-- An advance goes to its target and not past it. -/
theorem World.Timely.clockUs_advance (h : w.Timely k) (us : Nat) :
    (w.advance us).clockUs = w.clockUs + us :=
  Nat.max_eq_right (h.advanceWithin (fun _ => True) (w.clockUs + us) _ (Nat.le_add_right _ _)
    (h.onTime.enough us)).2.1

/-- **Time passes without a missed tick.** -/
theorem World.Timely.advance (h : w.Timely k) (takes : EntryId → Prop) (us : Nat) :
    Moves (.steady takes) ⟨w, none, none⟩ ⟨w.advance us, none, none⟩
      ∧ ∀ level, (w.advance us).overdue level = 0 := by
  obtain ⟨hmoves, hclock, hclear⟩ := h.advanceWithin takes (w.clockUs + us) _
    (Nat.le_add_right _ _) (h.onTime.enough us)
  have hmax := Nat.max_eq_right hclock
  have hall : Moves (.steady takes) ⟨w, none, none⟩ ⟨w.advance us, none, none⟩ := by
    refine hmoves.tail ?_
    unfold World.advance
    simp only
    rw [hmax]
    exact .wait _ _ ⟨hclock, fun t ht wheel hwheel => Nat.le_of_lt (hclear t ht wheel hwheel)⟩
  refine ⟨hall, (h.moves hall).onTime.idle_of_clearTo ?_⟩
  unfold World.advance
  simp only
  rw [hmax]
  exact hclear

end

/-! ## Commands -/

/-- Whether a command leaves the timer running and the clock to the passing of time. -/
def Command.Steady : Command → Prop
  | .act a => a.All Action.Steady
  | .create config => config.validate ≠ .ok ()
  | .dropTimer => False
  | _ => True

section

variable {k : Clockwork} {w : World} {takes : EntryId → Prop}

/-- A steady command is carried out by moves of a steady course, and nothing is due after it. -/
theorem World.Timely.step (h : w.Timely k) (hidle : ∀ level, w.overdue level = 0)
    (hheld : ∀ j ∈ w.held, takes j) {c : Command} (hc : c.Steady) :
    Moves (.steady takes) ⟨w, none, none⟩ ⟨(w.step c).2, none, none⟩
      ∧ ∀ level, (w.step c).2.overdue level = 0 := by
  cases c with
  | act a =>
    have hmoves := @perform_moves (Law.steady takes).withinBody _ (invoke_moves w.nesting) w
      h.bodies none none a hc
    exact ⟨Moves.of_withinBody hmoves,
      fun level => (h.onTime.overdue_body hmoves level).trans (hidle level)⟩
  | create config =>
    have hsame : (w.step (.create config)).2 = w := by
      simp only [World.step, World.create]
      split
      · rfl
      · next hvalid => exact absurd hvalid hc
    rw [hsame]
    exact ⟨.refl, hidle⟩
  | dropTimer => exact hc.elim
  | dumpTimer =>
    -- what is shown of the timer leaves the world alone
    simp only [World.step]
    split <;> exact ⟨.refl, hidle⟩
  | timerStats =>
    simp only [World.step]
    split <;> exact ⟨.refl, hidle⟩
  | touch => exact ⟨.refl, hidle⟩
  | advance us => exact h.advance takes us
  | finish n =>
    refine ⟨finish_moves h.bodies n fun j hj => hheld j (List.mem_of_getElem? hj), ?_⟩
    simp only [World.step, World.finish]
    split
    · exact hidle
    · next j hj =>
      have hexecute := @execute_moves (Law.steady takes).withinBody
        { w with held := w.held.eraseIdx n } none j h.bodies
      have htaken : World.OnTime { w with held := w.held.eraseIdx n } k :=
        ⟨h.onTime.begun, h.onTime.timer⟩
      -- an execution that is taken up takes no time, so no tick falls due meanwhile
      intro level
      have hoverdue := @World.OnTime.overdue_body takes k _ _ htaken hexecute level
      exact hoverdue.trans (hidle level)
  | unsupported => exact ⟨.refl, hidle⟩

/-- On a steady timer every wheel stands at its last due tick after a command. -/
theorem World.Steady.step (h : w.Steady k) (hw : w.Settled k) (hheld : ∀ j ∈ w.held, takes j)
    {c : Command} (hc : c.Steady) : Moves (.steady takes) ⟨w, none, none⟩ ⟨(w.step c).2, none, none⟩
      ∧ (w.step c).2.Settled k := by
  obtain ⟨hmoves, hidle⟩ := h.timely.step (h.inStep.lags.settled_iff.1 hw) hheld hc
  exact ⟨hmoves, (h.moves hmoves).inStep.lags.settled_iff.2 hidle⟩

/-- **Time passes on a steady course**, to an end where nothing is due. -/
theorem World.Steady.advance (h : w.Steady k) (takes : EntryId → Prop) (us : Nat) :
    Moves (.steady takes) ⟨w, none, none⟩ ⟨w.advance us, none, none⟩
      ∧ (w.advance us).Settled k := by
  obtain ⟨hmoves, hidle⟩ := h.timely.advance takes us
  exact ⟨hmoves, (h.moves hmoves).inStep.lags.settled_iff.2 hidle⟩

/-- In a scenario with a shared timer that is there, a command is carried out as in any other, or
does nothing. -/
theorem World.stepShared_of_timer (startup : Startup) (ht : w.timer.isSome = true) (c : Command) :
    (w.stepShared startup c).2 = w ∨ ((w.stepShared startup c).2 = (w.step c).2
      ∧ c ≠ .dropTimer ∧ ∀ config, c ≠ .create config) := by
  have hnone : w.timer.isNone = false := by
    rw [← Bool.not_eq_true, Option.isNone_iff_eq_none]
    intro hno
    simp [hno] at ht
  cases c with
  | create config => exact Or.inl rfl
  | dropTimer => exact Or.inl rfl
  | _ =>
    refine Or.inr ⟨?_, by simp, by simp⟩
    simp only [World.stepShared, hnone, Bool.and_false]
    rfl

/-- As long as the timer is there, a shared one or not, a command of a steady course is a steady
command or does nothing. -/
theorem World.OnTime.stepShared (h : w.OnTime k) (loaded : Except Failure TimerConfig) {c : Command}
    (steady : ∀ a, c = .act a → a.All Action.Steady) :
    (w.stepShared (.ofLoaded loaded) c).2 = w
      ∨ c.Steady ∧ (w.stepShared (.ofLoaded loaded) c).2 = (w.step c).2 := by
  obtain ⟨t, ht, -⟩ := h.timer
  rcases w.stepShared_of_timer (.ofLoaded loaded) (by rw [ht]; rfl) c with
    hsame | ⟨hsame, hdrop, hcreate⟩
  · exact Or.inl hsame
  · refine Or.inr ⟨?_, hsame⟩
    cases c with
    | act a => exact steady a rfl
    | create config => exact absurd rfl (hcreate config)
    | dropTimer => exact absurd rfl hdrop
    | _ => trivial

/-- A course of commands, in scenarios of both kinds, that leaves the timer running and the clock to
the passing of time. What is asked of the world holds after every command. -/
inductive World.Course (p : World → Prop) (w : World) : World → Prop where
  | start : Course p w w
  | step {w' : World} (c : Command) (before : Course p w w') (steady : c.Steady)
      (kept : p (w'.step c).2) : Course p w (w'.step c).2
  | stepShared {w' : World} (loaded : Except Failure TimerConfig) (c : Command)
      (before : Course p w w') (steady : ∀ a, c = .act a → a.All Action.Steady)
      (kept : p (w'.stepShared (.ofLoaded loaded) c).2) :
      Course p w (w'.stepShared (.ofLoaded loaded) c).2

/-- **Courses of commands are steady courses**, whether the timer runs or not. -/
theorem World.Course.moves_timely {p : World → Prop} {w' : World} (h : w.Course p w')
    (hp : ∀ {w : World}, p w → ∀ j ∈ w.held, takes j) (hw : w.Timely k)
    (hidle : ∀ level, w.overdue level = 0) (hstart : p w) :
    Moves (.steady takes) ⟨w, none, none⟩ ⟨w', none, none⟩
      ∧ (∀ level, w'.overdue level = 0) ∧ p w' := by
  induction h with
  | start => exact ⟨.refl, hidle, hstart⟩
  | step c _ steady kept ih =>
    obtain ⟨hmoves, hnone, hfree⟩ := ih
    obtain ⟨hstep, hafter⟩ := (hw.moves hmoves).step hnone (hp hfree) steady
    exact ⟨hmoves.trans hstep, hafter, kept⟩
  | @stepShared w₁ loaded c _ steady kept ih =>
    obtain ⟨hmoves, hnone, hfree⟩ := ih
    have htimely := hw.moves hmoves
    rcases htimely.onTime.stepShared loaded steady with hsame | ⟨hc, hsame⟩
    · rw [hsame] at kept ⊢
      exact ⟨hmoves, hnone, kept⟩
    · obtain ⟨hstep, hafter⟩ := htimely.step hnone (hp hfree) hc
      rw [hsame] at kept ⊢
      exact ⟨hmoves.trans hstep, hafter, kept⟩

/-- A course is a steady one, at the end of which nothing is due. Induction on its steps. -/
theorem World.Course.moves {p : World → Prop} {w' : World} (h : w.Course p w')
    (hp : ∀ {w : World}, p w → ∀ j ∈ w.held, takes j) (hw : w.Steady k) (hsettled : w.Settled k)
    (hstart : p w) :
    Moves (.steady takes) ⟨w, none, none⟩ ⟨w', none, none⟩ ∧ w'.Settled k ∧ p w' := by
  obtain ⟨hmoves, hidle, hend⟩ :=
    h.moves_timely hp hw.timely (hw.inStep.lags.settled_iff.1 hsettled) hstart
  exact ⟨hmoves, (hw.moves hmoves).inStep.lags.settled_iff.2 hidle, hend⟩

end

end TimingWheel
