import TimingWheel.Proofs.Passage

/-!
# Settling leaves nothing due

A body may move the clock while ticks are dealt with, so a level may fall behind again while it, or
another one, is served. Serving is repeated a bounded number of times, and the bound is enough:
a body moves the clock only where its script says so, and no start of a body comes twice.

* **`World.jumpsLeft`** — how often the bodies that are scheduled can still move the clock. It is
  what every move of the clock brings down (`World.JumpsSpent`).
* **`World.NoMoreOverdue`** — as long as the clock stands still, no more ticks are due than before.
* **`World.catchUp_served`**, **`World.settle_idle`** — so one level is caught up with, and settling
  leaves no tick due on any level, in whatever order the levels are served.
-/

namespace TimingWheel

/-! ## Jumps that are left -/

/-- How often the coming starts of a job can move the clock. -/
def Job.jumpsLeft (j : Job) : Nat := jumpsOfRounds (j.script.rounds.drop j.starts)

/-- How often the bodies that are scheduled can still move the clock. -/
def World.jumpsLeft (w : World) : Nat := total (w.jobs.toList.map Job.jumpsLeft)

theorem total_append (l l' : List Nat) : total (l ++ l') = total l + total l' := by
  induction l with
  | nil => exact (Nat.zero_add _).symm
  | cons n rest ih =>
    simp only [List.cons_append, total, ih]
    omega

/-- Changing one element changes the sum by as much. -/
theorem total_map_modify {α : Type} {l : List α} {k : Nat} {a : α} (ha : l[k]? = some a)
    (f : α → α) (g : α → Nat) :
    total ((l.modify k f).map g) + g a = total (l.map g) + g (f a) := by
  induction l generalizing k with
  | nil => simp at ha
  | cons b rest ih =>
    cases k with
    | zero =>
      obtain rfl : b = a := by simpa using ha
      simp only [List.modify_zero_cons, List.map_cons, total]
      omega
    | succ k =>
      have hrest := ih (k := k) (by simpa using ha)
      simp only [List.modify_succ_cons, List.map_cons, total]
      omega

/-- The jumps of the rounds from a start on are those of that start and those of the later ones. -/
theorem jumpsOfRounds_drop (rounds : List (List Action)) (start : Nat) :
    jumpsOfRounds (rounds.drop start)
      = jumpsOfRound (rounds.getD start []) + jumpsOfRounds (rounds.drop (start + 1)) := by
  induction rounds generalizing start with
  | nil => simp [jumpsOfRounds, jumpsOfRound]
  | cons round rest ih =>
    cases start with
    | zero => rfl
    | succ start => simpa using ih start

namespace World

variable {w w' w'' : World}

theorem jumpsLeft_of_jobs (h : w'.jobs = w.jobs) : w'.jumpsLeft = w.jumpsLeft := by
  rw [jumpsLeft, h, jumpsLeft]

/-- A start of a body takes the jumps of its round. -/
theorem jumpsLeft_beginBody {job : JobId} {j : Job} (hj : w.jobs[job]? = some j) (i : EntryId)
    (label : String) : (w.beginBody i job label).jumpsLeft + jumpsOfRound (j.script.round j.starts)
      = w.jumpsLeft := by
  have hmodify := total_map_modify (by simpa using hj : w.jobs.toList[job]? = some j)
    (fun j => { j with starts := j.starts + 1 }) Job.jumpsLeft
  have hjobs : (w.beginBody i job label).jumpsLeft
      = total ((w.jobs.toList.modify job fun j => { j with starts := j.starts + 1 }).map
        Job.jumpsLeft) := by
    rw [jumpsLeft, ← Array.toList_modify]
    rfl
  have hround : j.jumpsLeft = jumpsOfRound (j.script.round j.starts)
      + Job.jumpsLeft { j with starts := j.starts + 1 } := jumpsOfRounds_drop _ _
  rw [hjobs, jumpsLeft]
  omega

/-- A body that starts leaves no more jumps than before. -/
theorem jumpsLeft_beginBody_le (w : World) (i : EntryId) (job : JobId) (label : String) :
    (w.beginBody i job label).jumpsLeft ≤ w.jumpsLeft := by
  cases hj : w.jobs[job]? with
  | some j =>
    have htakes := jumpsLeft_beginBody hj i label
    omega
  | none =>
    refine Nat.le_of_eq (jumpsLeft_of_jobs (Array.ext_getElem? fun k => ?_))
    refine Array.getElem?_modify.trans ?_
    split
    · next hk =>
      rw [← hk, hj]
      rfl
    · rfl

/-- A job that is scheduled brings the jumps of its script. -/
theorem jumpsLeft_schedule (w : World) (handle : String) (r : Registration)
    (delayMs : Option Nat) (script : Script) :
    (w.schedule handle r delayMs script).jumpsLeft = w.jumpsLeft + script.jumps := by
  rw [jumpsLeft, schedule_jobs, Array.toList_push, List.map_append, total_append, jumpsLeft]
  rfl

/-! ## Whoever moves the clock spends a jump -/

/-- The clock was moved at most as often as jumps were used up, a number of them not counted among
those that were left. -/
structure JumpsSpent (w : World) (jumps : Nat) (w' : World) : Prop where
  left : w'.jumpsLeft ≤ w.jumpsLeft + jumps
  moved : w'.clockUs ≠ w.clockUs → w'.jumpsLeft < w.jumpsLeft + jumps

theorem JumpsSpent.of_jobs (hjobs : w'.jobs = w.jobs) (hclock : w'.clockUs = w.clockUs) :
    w.JumpsSpent 0 w' :=
  ⟨Nat.le_of_eq (jumpsLeft_of_jobs hjobs), fun hne => absurd hclock hne⟩

theorem Aside.jumpsSpent (h : w.Aside w') : w.JumpsSpent 0 w' := .of_jobs h.jobs h.clockUs

theorem JumpsSpent.mono {jumps more : Nat} (h : w.JumpsSpent jumps w') (hle : jumps ≤ more) :
    w.JumpsSpent more w' :=
  ⟨Nat.le_trans h.left (Nat.add_le_add_left hle _),
    fun hne => Nat.lt_of_lt_of_le (h.moved hne) (Nat.add_le_add_left hle _)⟩

/-- Jumps that are spent on two stretches are spent. -/
theorem JumpsSpent.trans {jumps more : Nat} (h : w.JumpsSpent jumps w')
    (h' : w'.JumpsSpent more w'') : w.JumpsSpent (jumps + more) w'' := by
  have hleft := h.left
  have hleft' := h'.left
  refine ⟨by omega, fun hne => ?_⟩
  by_cases hfirst : w'.clockUs = w.clockUs
  · have hmoved := h'.moved (by rwa [hfirst])
    omega
  · have hmoved := h.moved hfirst
    omega

/-- The start of a body takes the jumps of its round, for the actions of the round to spend. -/
theorem JumpsSpent.of_begin {job : JobId} {j : Job} (hj : w.jobs[job]? = some j) {i : EntryId}
    {label : String}
    (h : (w.beginBody i job label).JumpsSpent (jumpsOfRound (j.script.round j.starts)) w') :
    w.JumpsSpent 0 w' := by
  have htakes := jumpsLeft_beginBody hj i label
  have hleft := h.left
  refine ⟨by omega, fun hne => ?_⟩
  have hmoved := h.moved hne
  omega

/-- An action brings in the jumps of what it schedules, and moves the clock only if it is a jump
itself. -/
theorem Performed.jumpsSpent {a : Action} (h : Performed w a w') : w.JumpsSpent a.jumps w' := by
  cases h with
  | nothing => exact (JumpsSpent.of_jobs rfl rfl).mono (Nat.zero_le _)
  | control handle i e c runTask known plain =>
    exact (control_aside plain runTask w i e).jumpsSpent
  | handles a handles =>
    have hsame : w.JumpsSpent 0 { w with handles := handles } := .of_jobs rfl rfl
    exact hsame.mono (Nat.zero_le _)
  | schedule handle r delayMs outcomes rounds =>
    have hjumps := w.jumpsLeft_schedule handle r delayMs { outcomes, rounds }
    obtain ⟨r', task, handles, heq⟩ := w.schedule_eq handle r delayMs { outcomes, rounds }
    refine ⟨Nat.le_of_eq hjumps, fun hne => absurd ?_ hne⟩
    rw [heq]
    exact (register_aside (w.withJob handle { outcomes, rounds }) r' task).clockUs
  | timer t c there =>
    obtain ⟨status, journal, -, heq⟩ := controlTimer_eq w there c
    rw [heq]
    exact .of_jobs rfl rfl
  | jump us => exact ⟨Nat.le_succ _, fun _ => Nat.lt_succ_self _⟩
  | hold on => exact .of_jobs rfl rfl
  | coarseFirst on => exact .of_jobs rfl rfl

section

variable {runTask : EntryId → World → Outcome × World}

/-- So does one that may run a body by hand, if bodies move the clock only by jumps that they have
left. -/
theorem perform_jumpsSpent (hrun : ∀ i w, JumpsSpent w 0 (runTask i w).2) (w : World) (a : Action) :
    w.JumpsSpent a.jumps (w.perform runTask a).2 := by
  by_cases plain : ∀ handle, a ≠ .control handle .run
  · exact (performed_perform plain runTask w).jumpsSpent
  · obtain ⟨handle, hhandle⟩ := Classical.not_forall.1 plain
    rw [Classical.not_not.1 hhandle]
    simp only [perform, withEntry]
    cases w.lookup handle with
    | none => exact .of_jobs rfl rfl
    | some i =>
      cases he : w.entries[i]? with
      | none => simp only [he]; exact .of_jobs rfl rfl
      | some e =>
        simp only [he]
        exact (w.tell_aside (.controlled i .run)).jumpsSpent.trans (hrun i _)

/-- The actions of a round spend the jumps of the round. Induction on it. -/
theorem round_jumpsSpent (hrun : ∀ i w, JumpsSpent w 0 (runTask i w).2) (round : List Action) :
    ∀ w, JumpsSpent w (jumpsOfRound round)
      (round.foldl (fun w a => (w.perform runTask a).2) w) := by
  induction round with
  | nil => exact fun w => .of_jobs rfl rfl
  | cons a rest ih => exact fun w => (perform_jumpsSpent hrun w a).trans (ih _)

end

/-- The task of an entry spends jumps that were left, if its rounds do: a start takes the jumps of
its round from those that are left before the round spends them. -/
theorem invoke_jumpsSpent_of_round {nesting : Nat}
    (hround : ∀ (round : List Action) (w : World), JumpsSpent w (jumpsOfRound round)
      (match nesting with
        | 0 => w
        | n + 1 => round.foldl (fun w a => (w.perform (invoke n) a).2) w))
    (i : EntryId) (w : World) : JumpsSpent w 0 (invoke nesting i w).2 := by
  have hsame : JumpsSpent w 0 w := .of_jobs rfl rfl
  unfold invoke
  cases he : w.entries[i]? with
  | none => exact hsame
  | some e =>
    cases htask : e.task with
    | register r job =>
      simp only [htask]
      split
      · exact (w.register_aside r (.body job)).jumpsSpent
      · exact hsame
    | body job =>
      simp only [htask]
      cases hj : w.jobs[job]? with
      | none => exact hsame
      | some j =>
        have hacts := hround (j.script.round j.starts) (w.beginBody i job j.label)
        exact (JumpsSpent.of_begin hj hacts).trans (conclude_aside _ i _).jumpsSpent

/-- A body spends no jumps but those of its round, and the bodies that it runs by hand none of
theirs. -/
theorem invoke_jumpsSpent (nesting : Nat) : ∀ i w, JumpsSpent w 0 (invoke nesting i w).2 := by
  induction nesting with
  | zero =>
    exact invoke_jumpsSpent_of_round fun round w =>
      (JumpsSpent.of_jobs rfl rfl : w.JumpsSpent 0 w).mono (Nat.zero_le _)
  | succ n ih => exact invoke_jumpsSpent_of_round fun round w => round_jumpsSpent ih round w

theorem execute_jumpsSpent (w : World) (i : EntryId) : w.JumpsSpent 0 (w.execute i).2 :=
  (invoke_jumpsSpent w.nesting i w).trans (complete_aside _ i).jumpsSpent

theorem dispatch_jumpsSpent (level tick nowMs : Nat) (w : World) (i : EntryId) :
    w.JumpsSpent 0 (w.dispatch level tick nowMs i) := by
  cases he : w.entries[i]? with
  | none =>
    have hsame : w.dispatch level tick nowMs i = w := by simp only [dispatch, he]
    rw [hsame]
    exact .of_jobs rfl rfl
  | some e =>
    by_cases hruns : ∃ last e', e.evaluate nowMs = (.run last, e')
    · obtain ⟨last, e', hlast⟩ := hruns
      let s : Sweep := { level, tick, nowMs, waiting := [] }
      have hlaunch : w.JumpsSpent 0 (w.launching s i last e') := by
        unfold launching
        simp only
        split <;> exact .of_jobs rfl rfl
      rw [dispatch_of_run s he hlast]
      split
      · exact hlaunch.trans (puttingBack_aside _ nowMs i last).jumpsSpent
      · exact (hlaunch.trans (execute_jumpsSpent _ i)).trans
          (puttingBack_aside _ nowMs i last).jumpsSpent
    · refine (dispatch_aside he (fun last hlast => hruns ?_) level tick).jumpsSpent
      exact ⟨last, (e.evaluate nowMs).2, Prod.ext hlast rfl⟩

/-- A batch spends jumps that were left as well. Induction on the batch. -/
theorem batch_jumpsSpent (level tick nowMs : Nat) (batch : List EntryId) :
    ∀ w, JumpsSpent w 0 (batch.foldl (dispatch level tick nowMs) w) := by
  induction batch with
  | nil => exact fun w => .of_jobs rfl rfl
  | cons i rest ih => exact fun w => (dispatch_jumpsSpent level tick nowMs w i).trans (ih _)

/-! ## Nothing becomes due while the clock stands still -/

/-- The clock was not moved back, and unless it was moved no more ticks are due than before. -/
structure NoMoreOverdue (w w' : World) : Prop where
  clockUs : w.clockUs ≤ w'.clockUs
  overdue : w'.clockUs = w.clockUs → ∀ level, w'.overdue level ≤ w.overdue level

theorem NoMoreOverdue.refl (w : World) : w.NoMoreOverdue w :=
  ⟨Nat.le_refl _, fun _ _ => Nat.le_refl _⟩

/-- A clock that reads the same in the end read the same all along. -/
theorem NoMoreOverdue.between (h : w.NoMoreOverdue w') (h' : w'.NoMoreOverdue w'')
    (hsame : w''.clockUs = w.clockUs) : w'.clockUs = w.clockUs ∧ w''.clockUs = w'.clockUs := by
  have hfirst := h.clockUs
  have hsecond := h'.clockUs
  omega

/-- No tick becomes due on two stretches without a jump, since the clock never goes back. -/
theorem NoMoreOverdue.trans (h : w.NoMoreOverdue w') (h' : w'.NoMoreOverdue w'') :
    w.NoMoreOverdue w'' := by
  refine ⟨Nat.le_trans h.clockUs h'.clockUs, fun hsame level => ?_⟩
  obtain ⟨hfirst, hsecond⟩ := h.between h' hsame
  exact Nat.le_trans (h'.overdue hsecond level) (h.overdue hfirst level)

theorem Still.noMoreOverdue (h : w.Still w') : w.NoMoreOverdue w' :=
  ⟨Nat.le_of_eq h.clockUs.symm, fun _ level => Nat.le_of_eq (h.overdue level)⟩

/-- A closed timer stays closed, and whether one that is not runs makes no tick due. -/
theorem controlTimer_noMoreOverdue {t : Timer} (ht : w.timer = some t) (c : TimerControl) :
    w.NoMoreOverdue (w.controlTimer t c) := by
  obtain ⟨status, journal, -, heq⟩ := controlTimer_eq w ht c
  refine ⟨Nat.le_of_eq (congrArg (·.clockUs) heq).symm, fun _ level => ?_⟩
  cases c <;> simp only [controlTimer] <;> split <;>
    simp_all [overdue, modifyTimer_eq, log, tell, Timer.ticksBy]

/-- An action makes no tick due, unless it moves the clock. -/
theorem Performed.noMoreOverdue {a : Action} (h : Performed w a w') : w.NoMoreOverdue w' := by
  cases h with
  | nothing => exact .refl w
  | control handle i e c runTask known plain =>
    exact (control_aside plain runTask w i e).toStill.noMoreOverdue
  | handles => exact ⟨Nat.le_refl _, fun _ _ => Nat.le_refl _⟩
  | schedule handle r delayMs outcomes rounds =>
    obtain ⟨r', task, handles, heq⟩ := w.schedule_eq handle r delayMs { outcomes, rounds }
    rw [heq]
    have hregister := register_aside (w.withJob handle { outcomes, rounds }) r' task
    exact Still.noMoreOverdue ⟨hregister.clockUs, hregister.works, hregister.status⟩
  | timer t c there => exact controlTimer_noMoreOverdue there c
  | jump us =>
    refine ⟨Nat.le_add_right _ us, fun hsame level => ?_⟩
    show ((w.timer.map (·.ticksBy (w.clockUs + us) level)).getD 0) ≤ w.overdue level
    rw [show w.clockUs + us = w.clockUs from hsame]
    exact Nat.le_refl _
  | hold on => exact ⟨Nat.le_refl _, fun _ _ => Nat.le_refl _⟩
  | coarseFirst on => exact ⟨Nat.le_refl _, fun _ _ => Nat.le_refl _⟩

end World

/-- **Within a body no tick becomes due** while the clock stands still. -/
theorem Move.noMoreOverdue {law : Law} {m m' : Moment} (h : Move law.withinBody m m') :
    m.world.NoMoreOverdue m'.world := by
  cases h with
  | act m a runTask allowed plain =>
    exact (World.performed_perform plain runTask m.world).noMoreOverdue
  | byHand m i known => exact (m.world.tell_aside _).toStill.noMoreOverdue
  | begin m i job label known => exact World.Still.noMoreOverdue ⟨rfl, rfl, rfl⟩
  | conclude m i outcome known => exact (World.conclude_aside _ i outcome).toStill.noMoreOverdue
  | enroll m i e r job known task there => exact (World.register_aside _ r _).toStill.noMoreOverdue
  | complete m i inProgress => exact (World.complete_aside _ i).toStill.noMoreOverdue
  | takeUp w n i allowed held => exact World.Still.noMoreOverdue ⟨rfl, rfl, rfl⟩
  | lose w level t wheel allowed there stopped known due => exact allowed.elim
  | drain w level t wheel allowed there running known due => exact allowed.elim
  | look w s i rest e next free known rests =>
    exact (World.dispatch_aside known rests _ _).toStill.noMoreOverdue
  | overlook w s i rest next free unknown => exact .refl w
  | launch w s i rest e e' last next free known runs =>
    unfold World.launching
    simp only
    split <;> exact World.Still.noMoreOverdue ⟨rfl, rfl, rfl⟩
  | putBack w s i last current => exact (World.puttingBack_aside w _ i last).toStill.noMoreOverdue
  | done w s empty free => exact .refl w
  | wait w us allowed => exact allowed.elim
  | create w c allowed valid => exact allowed.elim
  | drop w allowed => exact allowed.elim
  | warn w reason rejected => exact (w.log_aside _).toStill.noMoreOverdue

/-- However long the body. Induction on its moves. -/
theorem Moves.noMoreOverdue {law : Law} {m m' : Moment} (h : Moves law.withinBody m m') :
    m.world.NoMoreOverdue m'.world := by
  induction h with
  | refl => exact .refl _
  | tail _ hmove ih => exact ih.trans hmove.noMoreOverdue

namespace World

variable {w w' w'' : World}

/-! ## One level -/

/-- Ticks were dealt with: no more are overdue than before unless the clock was moved, and whoever
moved it spent a jump. -/
structure TicksDealtWith (w w' : World) : Prop where
  noMoreOverdue : w.NoMoreOverdue w'
  jumpsSpent : w.JumpsSpent 0 w'

theorem TicksDealtWith.refl (w : World) : w.TicksDealtWith w := ⟨.refl w, .of_jobs rfl rfl⟩

theorem TicksDealtWith.trans (h : w.TicksDealtWith w') (h' : w'.TicksDealtWith w'') :
    w.TicksDealtWith w'' :=
  ⟨h.noMoreOverdue.trans h'.noMoreOverdue, h.jumpsSpent.trans h'.jumpsSpent⟩

/-- A due tick that is counted as dealt with is one tick less. -/
theorem overdue_le {level : Nat} (hthis : w'.overdue level = w.overdue level - 1)
    (hothers : ∀ other, other ≠ level → w'.overdue other = w.overdue other) (other : Nat) :
    w'.overdue other ≤ w.overdue other := by
  by_cases hother : other = level
  · rw [hother, hthis]
    exact Nat.sub_le _ 1
  · exact Nat.le_of_eq (hothers other hother)

/-- A tick that is lost is dealt with. -/
theorem serve_ticksDealtWith (w : World) (level : Nat) : w.TicksDealtWith (w.serve level) := by
  have heq := w.serve_eq level
  have hclock : (w.serve level).clockUs = w.clockUs := congrArg (·.clockUs) heq
  exact ⟨⟨Nat.le_of_eq hclock.symm,
      fun _ => overdue_le (w.overdue_serve level) fun _ => w.overdue_serve_of_ne⟩,
    .of_jobs (congrArg (·.jobs) heq) hclock⟩

/-- A tick that drains its slot is dealt with. -/
theorem drained_ticksDealtWith (w : World) (level : Nat) (wheel : Wheel) :
    w.TicksDealtWith (w.drained level wheel) := by
  obtain ⟨journal, -, heq⟩ := w.drained_eq level wheel
  have hclock : (w.drained level wheel).clockUs = w.clockUs := congrArg (·.clockUs) heq
  exact ⟨⟨Nat.le_of_eq hclock.symm, fun _ => overdue_le (w.overdue_drained level wheel)
      fun _ => w.overdue_drained_of_ne wheel⟩,
    .of_jobs (congrArg (·.jobs) heq) hclock⟩

/-- Dealing with the batch makes no further tick due unless the clock is moved. -/
theorem batch_ticksDealtWith (level tick nowMs : Nat) (batch : List EntryId) (w : World) :
    w.TicksDealtWith (batch.foldl (dispatch level tick nowMs) w) :=
  ⟨Moves.noMoreOverdue
      (@batch_moves Law.free.withinBody level tick nowMs batch w (allBodies_free w)),
    batch_jumpsSpent level tick nowMs batch w⟩

/-- A tick leaves one tick less due, unless the clock was moved. -/
theorem tick_ticksDealtWith (w : World) (level : Nat) : w.TicksDealtWith (w.tick level)
    ∧ ((w.tick level).clockUs = w.clockUs →
        (w.tick level).overdue level ≤ w.overdue level - 1) := by
  -- where nothing is due there is nothing to do
  have hnothing : w.tick level = w → w.overdue level = 0 → w.TicksDealtWith (w.tick level)
      ∧ ((w.tick level).clockUs = w.clockUs →
          (w.tick level).overdue level ≤ w.overdue level - 1) := by
    intro hsame hnone
    rw [hsame]
    exact ⟨.refl w, fun _ => by omega⟩
  cases ht : w.timer with
  | none =>
    refine hnothing ?_ ?_
    · simp only [tick, ht]
    · simp only [overdue, ht, Option.map_none, Option.getD_none]
  | some t =>
    cases hwheel : t.wheels[level]? with
    | none =>
      refine hnothing ?_ ?_
      · simp only [tick, ht, hwheel]
        cases t.status <;> rfl
      · simp only [overdue, ht, Option.map_some, Option.getD_some, Timer.ticksBy, hwheel, ite_self]
    | some wheel =>
      cases hs : t.status with
      | closed =>
        refine hnothing ?_ ?_
        · simp only [tick, ht, hs]
        · simp only [overdue, ht, Option.map_some, Option.getD_some, Timer.ticksBy, hs, if_true]
      | stopped =>
        have htick : w.tick level = w.serve level := by simp only [tick, ht, hs, hwheel]
        rw [htick]
        exact ⟨w.serve_ticksDealtWith level, fun _ => Nat.le_of_eq (w.overdue_serve level)⟩
      | running =>
        have htick : w.tick level = (w.serve level).turnWheel level wheel := by
          simp only [tick, ht, hs, hwheel]
        have hdrained := w.drained_ticksDealtWith level wheel
        have hbatch := batch_ticksDealtWith level (wheel.ticks + 1) w.nowMs wheel.nextBatch.toList
          (w.drained level wheel)
        rw [htick, turnWheel_eq]
        refine ⟨hdrained.trans hbatch, fun hsame => ?_⟩
        obtain ⟨-, hstill⟩ := hdrained.noMoreOverdue.between hbatch.noMoreOverdue hsame
        rw [← w.overdue_drained level wheel]
        exact hbatch.noMoreOverdue.overdue hstill level

/-- Any number of ticks of a level. As long as the clock stands still, as many fewer are due.
Induction on the number. -/
theorem ticks_ticksDealtWith (level n : Nat) : ∀ w, TicksDealtWith w (ticks level n w)
    ∧ ((ticks level n w).clockUs = w.clockUs →
        (ticks level n w).overdue level ≤ w.overdue level - n) := by
  induction n with
  | zero => exact fun w => ⟨.refl w, fun _ => Nat.le_refl _⟩
  | succ n ih =>
    intro w
    obtain ⟨hfirst, hone⟩ := w.tick_ticksDealtWith level
    obtain ⟨hrest, hmore⟩ := ih (w.tick level)
    refine ⟨hfirst.trans hrest, fun hsame => ?_⟩
    obtain ⟨hstill, hstill'⟩ := hfirst.noMoreOverdue.between hrest.noMoreOverdue hsame
    have hleft := hone hstill
    have hleft' := hmore hstill'
    show (ticks level n (w.tick level)).overdue level ≤ _
    omega

/-- **A level is caught up with.** Every round but the last one was followed by another because the
clock was moved meanwhile, so there are no more rounds than jumps. -/
theorem catchUp_served (level rounds : Nat) : ∀ {w : World}, w.jumpsLeft < rounds →
    w.TicksDealtWith (catchUp level rounds w) ∧ (catchUp level rounds w).overdue level = 0 := by
  induction rounds with
  | zero => exact fun hfuel => absurd hfuel (Nat.not_lt_zero _)
  | succ rounds ih =>
    intro w hfuel
    unfold catchUp
    split
    · next hnone => exact ⟨.refl w, hnone⟩
    · next n hdue =>
      obtain ⟨hserved, hleft⟩ := ticks_ticksDealtWith level (n + 1) w
      -- either the ticks took no time or some body moved the clock, which spends a jump
      by_cases hsame : (ticks level (n + 1) w).clockUs = w.clockUs
      · -- nothing is due any more, so there is no other round
        have hnone : (ticks level (n + 1) w).overdue level = 0 := by
          have hcount := hleft hsame
          omega
        have hstop : catchUp level rounds (ticks level (n + 1) w) = ticks level (n + 1) w := by
          cases rounds with
          | zero => rfl
          | succ rounds => simp only [catchUp, hnone]
        rw [hstop]
        exact ⟨hserved, hnone⟩
      · have hspent := hserved.jumpsSpent.moved hsame
        obtain ⟨hrest, hnone⟩ := ih (w := ticks level (n + 1) w) (by omega)
        exact ⟨hserved.trans hrest, hnone⟩

/-! ## All levels

The bound on the rounds is `jumpBound`, which counts the jumps of all bodies ever scheduled. -/

/-- The bodies that are scheduled have no more jumps left than the world says. -/
def Budgeted (w : World) : Prop := w.jumpsLeft ≤ w.jumpBound

theorem Aside.budgeted (h : w.Aside w') (hw : w.Budgeted) : w'.Budgeted := by
  unfold Budgeted
  rw [jumpsLeft_of_jobs h.jobs, h.jumpBound]
  exact hw

/-- An action keeps to the budget: what it schedules raises the bound by its jumps. -/
theorem Performed.budgeted {a : Action} (h : Performed w a w') (hw : w.Budgeted) :
    w'.Budgeted := by
  cases h with
  | control handle i e c runTask known plain =>
    exact (control_aside plain runTask w i e).budgeted hw
  | schedule handle r delayMs outcomes rounds =>
    have hbound : (w.schedule handle r delayMs { outcomes, rounds }).jumpBound
        = w.jumpBound + Script.jumps { outcomes, rounds } := by
      obtain ⟨r', task, handles, heq⟩ := w.schedule_eq handle r delayMs { outcomes, rounds }
      rw [heq]
      exact (register_aside (w.withJob handle { outcomes, rounds }) r' task).jumpBound
    unfold Budgeted
    rw [jumpsLeft_schedule, hbound]
    exact Nat.add_le_add_right hw _
  | timer t c there =>
    obtain ⟨status, journal, -, heq⟩ := controlTimer_eq w there c
    rw [heq]
    exact hw
  | _ => exact hw

end World

theorem Move.budgeted {law : Law} {m m' : Moment} (h : Move law m m')
    (hm : m.world.Budgeted) : m'.world.Budgeted := by
  cases h with
  | act m a runTask allowed plain =>
    exact (World.performed_perform plain runTask m.world).budgeted hm
  | begin m i job label known =>
    exact Nat.le_trans (m.world.jumpsLeft_beginBody_le i job label) hm
  | conclude m i outcome known => exact (World.conclude_aside _ i outcome).budgeted hm
  | enroll m i e r job known task there => exact (World.register_aside _ r _).budgeted hm
  | complete m i inProgress => exact (World.complete_aside _ i).budgeted hm
  | lose w level t wheel allowed there stopped known due =>
    rw [World.serve_eq]
    exact hm
  | drain w level t wheel allowed there running known due =>
    obtain ⟨journal, -, heq⟩ := w.drained_eq level wheel
    rw [heq]
    exact hm
  | look w s i rest e next free known rests =>
    exact (World.dispatch_aside known rests _ _).budgeted hm
  | launch w s i rest e e' last next free known runs =>
    unfold World.launching
    simp only
    split <;> exact hm
  | putBack w s i last current => exact (World.puttingBack_aside w _ i last).budgeted hm
  | create w c allowed valid =>
    obtain ⟨journal, -, heq⟩ := w.startTimer_eq c
    rw [heq]
    exact hm
  | drop w allowed =>
    obtain ⟨journal, -, heq⟩ := w.dropTimer_eq
    rw [heq]
    exact hm
  | _ => exact hm

/-- A run does, too. Induction on the moves. -/
theorem Moves.budgeted {law : Law} {m m' : Moment} (h : Moves law m m')
    (hm : m.world.Budgeted) : m'.world.Budgeted := by
  induction h with
  | refl => exact hm
  | tail _ hmove ih => exact hmove.budgeted ih

/-- At first nothing is scheduled, and no jump is left. -/
theorem Moment.Arises.budgeted {m : Moment} (h : m.Arises) : m.world.Budgeted := by
  obtain ⟨_, hmoves⟩ := h
  exact hmoves.budgeted (Nat.le_refl 0)

namespace World

variable {w w' : World}

/-- One pass over the levels. Unless the clock was moved meanwhile nothing of them is due any
more. Induction on the levels. -/
theorem serveAll_served (levels : List Nat) : ∀ {w : World}, w.Budgeted →
    w.TicksDealtWith (serveAll levels w)
      ∧ ((serveAll levels w).clockUs = w.clockUs →
          ∀ level ∈ levels, (serveAll levels w).overdue level = 0) := by
  induction levels with
  | nil => exact fun _ => ⟨.refl _, fun _ level hlevel => by simp at hlevel⟩
  | cons first rest ih =>
    intro w hw
    obtain ⟨hfirst, hnone⟩ := catchUp_served first (w.jumpBound + 1) (Nat.lt_succ_of_le hw)
    have hbudget : (catchUp first (w.jumpBound + 1) w).Budgeted :=
      Moves.budgeted (@catchUp_moves .free trivial first _ w (allBodies_free w)) hw
    obtain ⟨hrest, hothers⟩ := ih hbudget
    refine ⟨hfirst.trans hrest, fun hsame level hlevel => ?_⟩
    obtain ⟨-, hstill⟩ := hfirst.noMoreOverdue.between hrest.noMoreOverdue hsame
    rcases List.mem_cons.1 hlevel with rfl | hmem
    · -- the rest makes no tick of the first level due
      have hle := hrest.noMoreOverdue.overdue hstill level
      rw [hnone] at hle
      exact Nat.le_zero.1 hle
    · exact hothers hstill level hmem

/-- Every pass but the last one was followed by another because the clock was moved meanwhile. -/
theorem settleWithin_idle (passes : Nat) : ∀ {w : World}, w.Budgeted → w.jumpsLeft < passes →
    ∀ level, (settleWithin passes w).overdue level = 0 := by
  induction passes with
  | zero => exact fun _ hfuel => absurd hfuel (Nat.not_lt_zero _)
  | succ passes ih =>
    intro w hw hfuel
    unfold settleWithin
    split
    · obtain ⟨hpass, hserved⟩ : w.TicksDealtWith w.pass ∧ (w.pass.clockUs = w.clockUs →
          ∀ level ∈ w.servingOrder, w.pass.overdue level = 0) := serveAll_served w.servingOrder hw
      -- a pass that takes no time leaves nothing due; one that took time has spent a jump
      by_cases hsame : w.pass.clockUs = w.clockUs
      · have hnone : ∀ level, w.pass.overdue level = 0 := by
          intro level
          by_cases hlevel : level ∈ w.servingOrder
          · exact hserved hsame level hlevel
          · have hle := hpass.noMoreOverdue.overdue hsame level
            rw [overdue_of_notMem hlevel] at hle
            exact Nat.le_zero.1 hle
        rw [settleWithin_of_idle (isDue_iff.2 hnone)]
        exact hnone
      · have hspent := hpass.jumpsSpent.moved hsame
        have hbudget : w.pass.Budgeted :=
          Moves.budgeted (@serveAll_moves .free trivial _ w (allBodies_free w)) hw
        exact ih hbudget (by omega)
    · next hnone => exact isDue_iff.1 (by simpa using hnone)

/-- **After settling no tick is due**, on no level and in whatever order the levels are served. -/
theorem settle_idle (h : w.Budgeted) (level : Nat) : w.settle.overdue level = 0 :=
  settleWithin_idle _ h (Nat.lt_succ_of_le h) level

end World
end TimingWheel
