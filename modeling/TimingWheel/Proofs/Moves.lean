import TimingWheel.Proofs.Effects

/-!
# Commands are runs of moves

Every operation of the simulated world takes a moment to another one by moves, so whatever moves
keep holds at the end of a command and in the middle of it.

* **`invoke_moves`** — the body of a job, down to any nesting, by induction on the nesting.
* **`dispatch_moves`**, **`batch_moves`** — one entry of a batch, and the whole batch.
* **`tick_moves`**, **`settle_moves`**, **`advance_moves`** — the passing of time.
* **`World.Reachable.arises`** — the worlds that commands lead to.

While one body runs only actions happen, and these leave the clockwork of the timer alone and never
move the clock back (`Move.onward`). That is why a level that has `n` ticks due still has as many
due after one body as before.
-/

namespace TimingWheel

namespace World

/-! ## Bodies stay within the law

A body performs the actions of its script, so the law has to hold of every script that is
scheduled. Moves keep that up: an action that schedules a body is asked about the body, too. -/

/-- An action of a kind brings in no body of another kind: what it schedules is part of it. -/
theorem Performed.allBodies {p : Action → Prop} {w w' : World} {a : Action}
    (h : Performed w a w') (ha : a.All p) (hw : w.AllBodies p) : w'.AllBodies p := by
  cases h with
  | nothing => exact hw
  | control handle i e c runTask known plain =>
    intro j hj
    rw [(control_aside plain runTask w i e).jobs] at hj
    exact hw j hj
  | handles => exact hw
  | schedule handle r delayMs outcomes rounds =>
    have hrounds : allOfRounds p rounds := (by simpa [Action.All] using ha : _ ∧ _).2
    intro j hj
    rw [schedule_jobs] at hj
    rcases Array.mem_push.1 hj with hold | rfl
    · exact hw j hold
    · exact hrounds
  | timer t c there =>
    obtain ⟨status, journal, -, heq⟩ := controlTimer_eq w there c
    rw [heq]
    exact hw
  | jump us => exact hw
  | hold on => exact hw
  | coarseFirst on => exact hw

theorem beginBody_allBodies {p : Action → Prop} {w : World} (h : w.AllBodies p) (i : EntryId)
    (job : JobId) (label : String) : (w.beginBody i job label).AllBodies p := by
  intro j hj
  obtain ⟨n, hn⟩ := Array.mem_iff_getElem?.1 hj
  have hget : (w.beginBody i job label).jobs[n]?
      = if job = n then w.jobs[n]?.map fun j => { j with starts := j.starts + 1 }
        else w.jobs[n]? := Array.getElem?_modify
  rw [hget] at hn
  split at hn
  · obtain ⟨j', hj', rfl⟩ := Option.map_eq_some_iff.1 hn
    exact h j' (Array.mem_of_getElem? hj')
  · exact h j (Array.mem_of_getElem? hn)

/-- What happens aside from the jobs brings in no body. -/
theorem Aside.allBodies {p : Action → Prop} {w w' : World} (h : w.Aside w')
    (hw : w.AllBodies p) : w'.AllBodies p := by
  intro j hj
  rw [h.jobs] at hj
  exact hw j hj

end World

/-- Moves under a law bring in no body that the law forbids. -/
theorem Move.allBodies {law : Law} {m m' : Moment} (h : Move law m m')
    (hm : m.world.AllBodies law.acts) : m'.world.AllBodies law.acts := by
  cases h with
  -- an action brings no bodies but those that the law allows of it; nothing else brings any
  | act m a runTask allowed plain =>
    exact (World.performed_perform plain runTask m.world).allBodies allowed hm
  | byHand m i known => exact hm
  | begin m i job label known => exact World.beginBody_allBodies hm i job label
  | conclude m i outcome known => exact (World.conclude_aside _ i outcome).allBodies hm
  | enroll m i e r job known task there => exact (World.register_aside _ r _).allBodies hm
  | complete m i inProgress => exact (World.complete_aside _ i).allBodies hm
  | takeUp w n i allowed held => exact hm
  | lose w level t wheel allowed there stopped known due =>
    rw [World.serve_eq]
    exact hm
  | drain w level t wheel allowed there running known due =>
    obtain ⟨journal, -, heq⟩ := w.drained_eq level wheel
    rw [heq]
    exact hm
  | look w s i rest e next free known rests =>
    exact (World.dispatch_aside known rests _ _).allBodies hm
  | overlook w s i rest next free unknown => exact hm
  | launch w s i rest e e' last next free known runs =>
    unfold World.launching
    simp only
    split <;> exact hm
  | putBack w s i last current => exact (World.puttingBack_aside w _ i last).allBodies hm
  | done w s empty free => exact hm
  | wait w us allowed => exact hm
  | create w c allowed valid =>
    obtain ⟨journal, -, heq⟩ := w.startTimer_eq c
    rw [heq]
    exact hm
  | drop w allowed =>
    obtain ⟨journal, -, heq⟩ := w.dropTimer_eq
    rw [heq]
    exact hm
  | warn w reason rejected => exact hm

theorem Moves.allBodies {law : Law} {m m' : Moment} (h : Moves law m m')
    (hm : m.world.AllBodies law.acts) : m'.world.AllBodies law.acts := by
  induction h with
  | refl => exact hm
  | tail _ hmove ih => exact hmove.allBodies ih

theorem Move.size_le {law : Law} {m m' : Moment} (h : Move law m m') :
    m.world.entries.size ≤ m'.world.entries.size := by
  cases h with
  | act m a runTask allowed plain => exact (World.performed_perform plain runTask m.world).size_le
  | conclude m i outcome known => exact (World.conclude_aside _ i outcome).size_le
  | enroll m i e r job known task there => exact (World.register_aside _ r _).size_le
  | complete m i inProgress => exact (World.complete_aside _ i).size_le
  | lose w level t wheel allowed there stopped known due =>
    exact Nat.le_of_eq (by rw [World.serve_eq])
  | drain w level t wheel allowed there running known due =>
    obtain ⟨journal, -, heq⟩ := w.drained_eq level wheel
    exact Nat.le_of_eq (by rw [heq])
  | look w s i rest e next free known rests => exact (World.dispatch_aside known rests _ _).size_le
  | launch w s i rest e e' last next free known runs =>
    unfold World.launching
    simp only
    split <;> exact Nat.le_of_eq Array.size_modify.symm
  | putBack w s i last current => exact (World.puttingBack_aside w _ i last).size_le
  | create w c allowed valid =>
    obtain ⟨journal, -, heq⟩ := w.startTimer_eq c
    exact Nat.le_of_eq (by rw [heq])
  | drop w allowed =>
    obtain ⟨journal, -, heq⟩ := w.dropTimer_eq
    exact Nat.le_of_eq (by rw [heq])
  | _ => exact Nat.le_refl _

theorem Moves.size_le {law : Law} {m m' : Moment} (h : Moves law m m') :
    m.world.entries.size ≤ m'.world.entries.size := by
  induction h with
  | refl => exact Nat.le_refl _
  | tail _ hmove ih => exact Nat.le_trans ih hmove.size_le

theorem Move.of_withinBody {law : Law} {m m' : Moment} (h : Move law.withinBody m m') :
    Move law m m' :=
  @Move.mono law.withinBody law (fun _ ha => ha) False.elim (fun _ _ => False.elim)
    (fun _ => False.elim) False.elim m m' h

/-- What may happen within a body may happen outside of one. -/
theorem Moves.of_withinBody {law : Law} {m m' : Moment} (h : Moves law.withinBody m m') :
    Moves law m m' := by
  induction h with
  | refl => exact .refl
  | tail _ hmove ih => exact ih.tail hmove.of_withinBody

/-- Whatever a law allows may happen where everything may. -/
theorem Moves.free {law : Law} {m m' : Moment} (h : Moves law m m') : Moves .free m m' := by
  induction h with
  | refl => exact .refl
  | tail _ hmove ih =>
    exact ih.tail (hmove.mono (fun _ _ => trivial) (fun _ => trivial) (fun _ _ _ => trivial)
      (fun _ _ => trivial) fun _ => trivial)

/-! ## One execution

A body performs actions; the one action that is no move of its own, running a body by hand, is a
note in the journal and then that body. Induction on the nesting, and within a body on the actions
that are left. -/

/-- A run by hand is told of, and then its task is run, where running a task is a run of moves. -/
theorem perform_run_moves {law : Law} {runTask : EntryId → World → Outcome × World}
    (hrun : ∀ i w sweep executing, w.AllBodies law.acts →
      Moves law ⟨w, sweep, executing⟩ ⟨(runTask i w).2, sweep, executing⟩)
    {w : World} (hw : w.AllBodies law.acts) (sweep : Option Sweep) (executing : Option EntryId)
    (handle : String) :
    Moves law ⟨w, sweep, executing⟩
      ⟨(w.perform runTask (.control handle .run)).2, sweep, executing⟩ := by
  simp only [World.perform, World.withEntry]
  cases w.lookup handle with
  | none => exact .refl
  | some i =>
    cases he : w.entries[i]? with
    | none => simp only [he]; exact .refl
    | some e =>
      simp only [he]
      have hknown : i < w.entries.size := (Array.getElem?_eq_some_iff.1 he).1
      exact .head (.byHand ⟨w, sweep, executing⟩ i hknown)
        (hrun i (w.tell (.controlled i .run)) sweep executing hw)

/-- An action is a run of moves, if running a task is one. -/
theorem perform_moves {law : Law} {runTask : EntryId → World → Outcome × World}
    (hrun : ∀ i w sweep executing, w.AllBodies law.acts →
      Moves law ⟨w, sweep, executing⟩ ⟨(runTask i w).2, sweep, executing⟩)
    {w : World} (hw : w.AllBodies law.acts) (sweep : Option Sweep) (executing : Option EntryId)
    {a : Action} (ha : a.All law.acts) :
    Moves law ⟨w, sweep, executing⟩ ⟨(w.perform runTask a).2, sweep, executing⟩ := by
  by_cases plain : ∀ handle, a ≠ .control handle .run
  · exact .single (.act ⟨w, sweep, executing⟩ a runTask ha plain)
  · obtain ⟨handle, hhandle⟩ := Classical.not_forall.1 plain
    rw [Classical.not_not.1 hhandle]
    exact perform_run_moves hrun hw sweep executing handle

/-- So are the actions of a round. Induction on the round. -/
theorem round_moves {law : Law} {runTask : EntryId → World → Outcome × World}
    (hrun : ∀ i w sweep executing, w.AllBodies law.acts →
      Moves law ⟨w, sweep, executing⟩ ⟨(runTask i w).2, sweep, executing⟩)
    (sweep : Option Sweep) (executing : Option EntryId) (round : List Action)
    (hround : ∀ a ∈ round, a.All law.acts) : ∀ {w : World}, w.AllBodies law.acts →
    Moves law ⟨w, sweep, executing⟩
      ⟨round.foldl (fun w a => (w.perform runTask a).2) w, sweep, executing⟩ := by
  induction round with
  | nil => exact fun _ => .refl
  | cons a rest ih =>
    intro w hw
    have hfirst := perform_moves hrun hw sweep executing (hround a List.mem_cons_self)
    exact hfirst.trans (ih (fun b hb => hround b (List.mem_cons_of_mem a hb)) (hfirst.allBodies hw))

/-- The task of an entry, once it is known of the actions of a start. -/
theorem invoke_moves_of_round {law : Law} {nesting : Nat}
    (hround : ∀ (round : List Action) (w : World) (sweep : Option Sweep)
      (executing : Option EntryId), (∀ a ∈ round, a.All law.acts) → w.AllBodies law.acts →
      Moves law ⟨w, sweep, executing⟩
        ⟨match nesting with
          | 0 => w
          | n + 1 => round.foldl (fun w a => (w.perform (World.invoke n) a).2) w,
        sweep, executing⟩)
    (i : EntryId) (w : World) (sweep : Option Sweep) (executing : Option EntryId)
    (hw : w.AllBodies law.acts) :
    Moves law ⟨w, sweep, executing⟩ ⟨(World.invoke nesting i w).2, sweep, executing⟩ := by
  unfold World.invoke
  cases he : w.entries[i]? with
  | none => exact .refl
  | some e =>
    have hknown : i < w.entries.size := (Array.getElem?_eq_some_iff.1 he).1
    cases htask : e.task with
    | register r job =>
      simp only [htask]
      split
      · next hthere => exact .single (.enroll ⟨w, sweep, executing⟩ i e r job he htask hthere)
      · exact .refl
    | body job =>
      simp only [htask]
      cases hj : w.jobs[job]? with
      | none => exact .refl
      | some j =>
        have hscript : j.script.All law.acts := hw j (Array.mem_of_getElem? hj)
        have hbegin : Move law ⟨w, sweep, executing⟩
            ⟨w.beginBody i job j.label, sweep, executing⟩ :=
          .begin ⟨w, sweep, executing⟩ i job j.label hknown
        -- the body starts, performs the actions of this start, and ends
        have hacts := hround (j.script.round j.starts) (w.beginBody i job j.label) sweep executing
          (hscript.round j.starts) (hbegin.allBodies hw)
        have hrun : Moves law _ _ := .head hbegin hacts
        have hstill := Nat.lt_of_lt_of_le hknown (Moves.size_le hrun)
        exact hrun.tail (.conclude ⟨_, sweep, executing⟩ i _ hstill)

/-- **Running a task is a run of moves**, at every depth of nesting. Induction on the depth; the
innermost bodies perform no actions. -/
theorem invoke_moves {law : Law} (nesting : Nat) : ∀ (i : EntryId) (w : World)
    (sweep : Option Sweep) (executing : Option EntryId), w.AllBodies law.acts →
    Moves law ⟨w, sweep, executing⟩ ⟨(World.invoke nesting i w).2, sweep, executing⟩ := by
  -- the actions of a body run other bodies one level deeper only
  induction nesting with
  | zero => exact invoke_moves_of_round fun _ _ _ _ _ _ => .refl
  | succ n ih =>
    exact invoke_moves_of_round fun round w sweep executing hround hw =>
      round_moves ih sweep executing round hround hw

/-! ## A batch

The tick takes the entries of its batch one after another. Within the sweep nothing but the bodies
of the launched entries runs, so all of it may happen within a body. -/

/-- An execution is a run of moves: its task, and its end. -/
theorem execute_moves {law : Law} {w : World} {sweep : Option Sweep} {i : EntryId}
    (hw : w.AllBodies law.acts) :
    Moves law ⟨w, sweep, some i⟩ ⟨(w.execute i).2, sweep, none⟩ :=
  (invoke_moves w.nesting i w sweep (some i) hw).tail (.complete ⟨_, sweep, some i⟩ i rfl)

/-- Dealing with an entry that is launched: the launch, its execution unless that is held back,
and the entry's way back. -/
theorem World.dispatch_of_run {w : World} {i : EntryId} {e e' : Entry} {last : Bool} (s : Sweep)
    (he : w.entries[i]? = some e) (hruns : e.evaluate s.nowMs = (.run last, e')) :
    w.dispatch s.level s.tick s.nowMs i
      = if w.holding then (w.launching s i last e').puttingBack s.nowMs i last
        else ((w.launching s i last e').execute i).2.puttingBack s.nowMs i last := by
  unfold World.dispatch World.launching World.puttingBack World.launch
  simp only [he, hruns]
  have hholding : ((w.modifyEntry i fun _ => e').tell
      (.evaluated i s.level s.tick s.nowMs (.run last))).holding = w.holding := rfl
  rw [hholding]
  cases w.holding <;> rfl

/-- A launch that is not held counts nothing but what the entry itself counts. -/
theorem World.launching_aside {w : World} {s : Sweep} {i : EntryId} {last : Bool} {e : Entry}
    (h : w.holding = false) : w.Aside (w.launching s i last e) := by
  unfold World.launching
  simp only [h]
  exact (w.modifyEntry_aside i _).trans (tell_aside _ _)

/-- What a tick does with one entry is a run of moves, with its launch, its execution and its way
back. -/
theorem dispatch_moves {law : Law} {w : World} {s : Sweep} {i : EntryId} {rest : List EntryId}
    (next : s.waiting = i :: rest) (free : s.launched = none) (hw : w.AllBodies law.acts) :
    Moves law ⟨w, some s, none⟩
      ⟨w.dispatch s.level s.tick s.nowMs i, some { s with waiting := rest }, none⟩ := by
  cases he : w.entries[i]? with
  | none =>
    have hsame : w.dispatch s.level s.tick s.nowMs i = w := by simp only [World.dispatch, he]
    rw [hsame]
    exact .single (.overlook w s i rest next free he)
  | some e =>
    -- a look that launches nothing is one move; a launch is followed by what the body does and by
    -- the way back
    by_cases hruns : ∃ last e', e.evaluate s.nowMs = (.run last, e')
    · obtain ⟨last, e', hlast⟩ := hruns
      rw [World.dispatch_of_run s he hlast]
      have hlaunch : Move law _ _ := .launch w s i rest e e' last next free he hlast
      have hback : { s with waiting := rest }
          = { { s with waiting := rest, launched := some (i, last) } with launched := none } := by
        rw [← free]
      rw [hback]
      cases hholding : w.holding with
      | true =>
        rw [hholding] at hlaunch
        exact (Relation.ReflTransGen.single hlaunch).tail
          (.putBack _ { s with waiting := rest, launched := some (i, last) } i last rfl)
      | false =>
        rw [hholding] at hlaunch
        have hexecute : Moves law _ _ := (Relation.ReflTransGen.single hlaunch).trans
          (execute_moves ((World.launching_aside hholding).allBodies hw))
        exact hexecute.tail
          (.putBack _ { s with waiting := rest, launched := some (i, last) } i last rfl)
    · refine .single (.look w s i rest e next free he fun last hlast => hruns ?_)
      exact ⟨last, (e.evaluate s.nowMs).2, Prod.ext hlast rfl⟩

/-- So is what it does with the batch. Induction on the batch. -/
theorem batch_moves {law : Law} (level tick nowMs : Nat) (batch : List EntryId) :
    ∀ {w : World}, w.AllBodies law.acts →
    Moves law ⟨w, some ⟨level, tick, nowMs, batch, none⟩, none⟩
      ⟨batch.foldl (World.dispatch level tick nowMs) w, some ⟨level, tick, nowMs, [], none⟩,
        none⟩ := by
  -- on what is left of the batch
  induction batch with
  | nil => exact fun _ => .refl
  | cons i rest ih =>
    intro w hw
    have hfirst : Moves law ⟨w, some ⟨level, tick, nowMs, i :: rest, none⟩, none⟩
        ⟨w.dispatch level tick nowMs i, some ⟨level, tick, nowMs, rest, none⟩, none⟩ :=
      dispatch_moves rfl rfl hw
    exact hfirst.trans (ih (Moves.allBodies hfirst hw))

/-! ## The clockwork goes on

Within one body the clock may be moved on and the timer may be stopped or closed, but no tick is
served, so no level has fewer ticks due afterwards, unless the timer was closed. -/

/-- The clock was not moved back and the clockwork of the timer was left alone. -/
structure World.Onward (w w' : World) : Prop where
  clockUs : w.clockUs ≤ w'.clockUs
  works : w'.timer.map Timer.works = w.timer.map Timer.works

theorem World.Onward.refl (w : World) : w.Onward w := ⟨Nat.le_refl _, rfl⟩

theorem World.Onward.trans {w w' w'' : World} (h : w.Onward w') (h' : w'.Onward w'') :
    w.Onward w'' :=
  ⟨Nat.le_trans h.clockUs h'.clockUs, h'.works.trans h.works⟩

theorem World.Aside.onward {w w' : World} (h : w.Aside w') : w.Onward w' :=
  ⟨Nat.le_of_eq h.clockUs.symm, h.works⟩

/-- An action may move the clock on, but it leaves the clockwork as it is. -/
theorem World.Performed.onward {w w' : World} {a : Action} (h : Performed w a w') :
    w.Onward w' := by
  cases h with
  | nothing => exact .refl w
  | control handle i e c runTask known plain => exact (control_aside plain runTask w i e).onward
  | handles => exact ⟨Nat.le_refl _, rfl⟩
  | schedule handle r delayMs outcomes rounds =>
    obtain ⟨r', task, handles, heq⟩ := w.schedule_eq handle r delayMs { outcomes, rounds }
    rw [heq]
    have hregister := (register_aside (w.withJob handle { outcomes, rounds }) r' task).onward
    exact ⟨hregister.clockUs, hregister.works⟩
  | timer t c there =>
    obtain ⟨status, journal, -, heq⟩ := controlTimer_eq w there c
    rw [heq]
    exact ⟨Nat.le_refl _, by rw [there]; rfl⟩
  | jump us => exact ⟨Nat.le_add_right _ us, rfl⟩
  | hold on => exact ⟨Nat.le_refl _, rfl⟩
  | coarseFirst on => exact ⟨Nat.le_refl _, rfl⟩

theorem World.launching_onward (w : World) (s : Sweep) (i : EntryId) (last : Bool) (e : Entry) :
    w.Onward (w.launching s i last e) := by
  unfold World.launching
  simp only
  split <;> exact ⟨Nat.le_refl _, rfl⟩

/-- A move within a body does not move the clock back, and leaves the clockwork as it was. -/
theorem Move.onward {law : Law} {m m' : Moment} (h : Move law.withinBody m m') :
    m.world.Onward m'.world := by
  cases h with
  | act m a runTask allowed plain => exact (World.performed_perform plain runTask m.world).onward
  | byHand m i known => exact ⟨Nat.le_refl _, rfl⟩
  | begin m i job label known => exact ⟨Nat.le_refl _, rfl⟩
  | conclude m i outcome known => exact (World.conclude_aside _ i outcome).onward
  | enroll m i e r job known task there => exact (World.register_aside _ r _).onward
  | complete m i inProgress => exact (World.complete_aside _ i).onward
  | takeUp w n i allowed held => exact ⟨Nat.le_refl _, rfl⟩
  | lose w level t wheel allowed there stopped known due => exact allowed.elim
  | drain w level t wheel allowed there running known due => exact allowed.elim
  | look w s i rest e next free known rests => exact (World.dispatch_aside known rests _ _).onward
  | overlook w s i rest next free unknown => exact ⟨Nat.le_refl _, rfl⟩
  | launch w s i rest e e' last next free known runs => exact w.launching_onward s i last e'
  | putBack w s i last current => exact (World.puttingBack_aside w _ i last).onward
  | done w s empty free => exact ⟨Nat.le_refl _, rfl⟩
  | wait w us allowed => exact allowed.elim
  | create w c allowed valid => exact allowed.elim
  | drop w allowed => exact allowed.elim
  | warn w reason rejected => exact ⟨Nat.le_refl _, rfl⟩

/-- However long a body, no tick is served in it. -/
theorem Moves.onward {law : Law} {m m' : Moment} (h : Moves law.withinBody m m') :
    m.world.Onward m'.world := by
  induction h with
  | refl => exact .refl _
  | tail _ hmove ih => exact ih.trans hmove.onward

/-- Ticks that are due stay due, unless the timer is closed. -/
theorem Timer.ticksBy_le {t t' : Timer} (hworks : t'.works = t.works) {us us' : Nat}
    (hus : us ≤ us') (hopen : t'.status ≠ .closed) (level : Nat) :
    t.ticksBy us level ≤ t'.ticksBy us' level := by
  have hepoch : t'.epochUs = t.epochUs := congrArg (·.2.1) hworks
  have hwheels : (t'.wheels.map Wheel.bare)[level]? = (t.wheels.map Wheel.bare)[level]? :=
    congrArg (fun works => works.2.2[level]?) hworks
  rw [Array.getElem?_map, Array.getElem?_map] at hwheels
  unfold Timer.ticksBy
  rw [if_neg hopen]
  split
  · exact Nat.zero_le _
  · cases hw : t.wheels[level]? with
    | none => exact Nat.zero_le _
    | some wheel =>
      rw [hw] at hwheels
      obtain ⟨wheel', hw', hbare⟩ := Option.map_eq_some_iff.1 hwheels
      have hserved : wheel'.bare.served = wheel.bare.served := by rw [hbare]
      have hres : wheel'.bare.resolutionMs = wheel.bare.resolutionMs := by rw [hbare]
      replace hserved : wheel'.served = wheel.served := hserved
      replace hres : wheel'.resolutionMs = wheel.resolutionMs := hres
      simp only [hw', hepoch, hserved, periodUs, hres]
      -- quotients by one period, less one count of served ticks
      have := Nat.div_le_div_right (c := wheel.resolutionMs * 1000)
        (Nat.sub_le_sub_right hus t.epochUs)
      omega

/-- The world has the given number of ticks of a level due, or no ticks any more. -/
def World.OwesTicks (w : World) (level n : Nat) : Prop :=
  n ≤ w.overdue level ∨ ∀ t, w.timer = some t → t.status = .closed

/-- Ticks that are due stay due within a body, unless the timer is closed there. -/
theorem World.OwesTicks.onward {w w' : World} (h : w.Onward w') {level n : Nat}
    (hn : n ≤ w.overdue level) : w'.OwesTicks level n := by
  by_cases hclosed : ∀ t, w'.timer = some t → t.status = .closed
  · exact Or.inr hclosed
  · obtain ⟨t', ht'⟩ := Classical.not_forall.1 hclosed
    obtain ⟨hthere, hopen⟩ := Classical.not_imp.1 ht'
    have hworks := h.works
    rw [hthere] at hworks
    obtain ⟨t, ht, hsame⟩ := Option.map_eq_some_iff.1 hworks.symm
    refine Or.inl (Nat.le_trans hn ?_)
    simp only [World.overdue, ht, hthere, Option.map_some, Option.getD_some]
    exact Timer.ticksBy_le hsame.symm h.clockUs hopen level

/-- A level that has dealt with one more tick has one less due. -/
theorem Timer.ticksBy_modifyWheel (t : Timer) (level : Nat) {f : Wheel → Wheel}
    (hserved : ∀ wheel, (f wheel).served = wheel.served + 1)
    (hres : ∀ wheel, (f wheel).resolutionMs = wheel.resolutionMs) (us : Nat) :
    (t.modifyWheel level f).ticksBy us level = t.ticksBy us level - 1 := by
  unfold Timer.ticksBy Timer.modifyWheel
  simp only [Array.getElem?_modify, if_true]
  split
  · rfl
  · cases t.wheels[level]? with
    | none => rfl
    | some wheel =>
      simp only [Option.map_some, periodUs, hserved, hres]
      omega

/-- A tick that is lost is due no more. -/
theorem World.overdue_serve (w : World) (level : Nat) :
    (w.serve level).overdue level = w.overdue level - 1 := by
  rw [World.serve_eq]
  unfold World.overdue
  cases w.timer with
  | none => rfl
  | some t => exact t.ticksBy_modifyWheel level (fun _ => by rfl) (fun _ => by rfl) w.clockUs

/-- A tick that drained its slot is due no more. -/
theorem World.overdue_drained (w : World) (level : Nat) (wheel : Wheel) :
    (w.drained level wheel).overdue level = w.overdue level - 1 := by
  obtain ⟨journal, -, heq⟩ := w.drained_eq level wheel
  rw [heq]
  unfold World.overdue
  cases w.timer with
  | none => rfl
  | some t => exact t.ticksBy_modifyWheel level (fun _ => by rfl) (fun _ => by rfl) w.clockUs

/-! ## The passing of time -/

/-- To turn a wheel is to drain the slot and to deal with the batch. -/
theorem World.turnWheel_eq (w : World) (level : Nat) (wheel : Wheel) :
    (w.serve level).turnWheel level wheel
      = wheel.nextBatch.toList.foldl (World.dispatch level (wheel.ticks + 1) w.nowMs)
          (w.drained level wheel) := by
  -- counting and turning a wheel leave the time of the tick as it is
  have hnow : ∀ journal, ({ (w.serve level).modifyTimer (·.modifyWheel level (·.turn)) with
      journal := journal } : World).nowMs = w.nowMs := by
    intro journal
    rw [World.serve_eq, World.modifyTimer_eq]
    unfold World.nowMs
    cases w.timer <;> rfl
  unfold World.turnWheel World.drained
  simp only
  split
  · next hempty =>
    rw [Array.isEmpty_iff] at hempty
    rw [hempty]
    rfl
  · rw [← Array.foldl_toList]
    congr 2
    exact hnow _

/-- One due tick. After it the level owes one tick less. -/
theorem tick_moves {law : Law} (hticks : law.ticks) {w : World} (hw : w.AllBodies law.acts)
    {level n : Nat} (howes : w.OwesTicks level (n + 1)) :
    Moves law ⟨w, none, none⟩ ⟨w.tick level, none, none⟩ ∧ (w.tick level).OwesTicks level n := by
  -- without a timer, or with a closed one, a tick is nothing at all
  have hclosed : (∀ t, w.timer = some t → t.status = .closed) →
      Moves law ⟨w, none, none⟩ ⟨w.tick level, none, none⟩ ∧ (w.tick level).OwesTicks level n := by
    intro hclosed
    have hsame : w.tick level = w := by
      unfold World.tick
      split
      · rfl
      · next t ht => simp only [hclosed t ht]
    rw [hsame]
    exact ⟨.refl, Or.inr hclosed⟩
  rcases howes with hdue | hc
  · cases ht : w.timer with
    | none => exact hclosed fun t h => by simp [ht] at h
    | some t =>
      cases hwheel : t.wheels[level]? with
      | none =>
        have hnone : w.overdue level = 0 := by
          simp only [World.overdue, ht, Option.map_some, Option.getD_some, Timer.ticksBy, hwheel]
          split <;> rfl
        omega
      | some wheel =>
        have h1 : 1 ≤ w.overdue level := by omega
        cases hs : t.status with
        | closed =>
          exact hclosed fun t' h => by
            rw [ht, Option.some.injEq] at h
            rw [← h, hs]
        | stopped =>
          have htick : w.tick level = w.serve level := by
            simp only [World.tick, ht, hs, hwheel]
          rw [htick]
          refine ⟨.single (.lose w level t wheel hticks ht hs hwheel h1), Or.inl ?_⟩
          rw [World.overdue_serve]
          omega
        | running =>
          have htick : w.tick level = (w.serve level).turnWheel level wheel := by
            simp only [World.tick, ht, hs, hwheel]
          rw [htick, World.turnWheel_eq]
          have hdrain : Move law _ _ := .drain w level t wheel hticks ht hs hwheel h1
          have hbodies : (w.drained level wheel).AllBodies law.acts := hdrain.allBodies hw
          -- nobody but the bodies of the batch acts, so no other tick comes in between
          have hbatch := @batch_moves law.withinBody level (wheel.ticks + 1) w.nowMs
            wheel.nextBatch.toList _ hbodies
          have hall : Moves law _ _ := .head hdrain (Moves.of_withinBody hbatch)
          refine ⟨hall.tail (.done _ _ rfl rfl), .onward (Moves.onward hbatch) ?_⟩
          rw [World.overdue_drained]
          omega
  · exact hclosed hc

/-- Any number of due ticks is a run of moves. Induction on the number; a tick that closes the
timer ends it. -/
theorem ticks_moves {law : Law} (hticks : law.ticks) (level n : Nat) : ∀ {w : World},
    w.AllBodies law.acts → w.OwesTicks level n →
    Moves law ⟨w, none, none⟩ ⟨World.ticks level n w, none, none⟩ := by
  induction n with
  | zero => exact fun _ _ => .refl
  | succ n ih =>
    intro w hw howes
    obtain ⟨hfirst, hrest⟩ := tick_moves hticks hw howes
    exact hfirst.trans (ih (Moves.allBodies hfirst hw) hrest)

/-- The rounds of one level are a run of moves. Induction on the rounds. -/
theorem catchUp_moves {law : Law} (hticks : law.ticks) (level rounds : Nat) : ∀ {w : World},
    w.AllBodies law.acts →
    Moves law ⟨w, none, none⟩ ⟨World.catchUp level rounds w, none, none⟩ := by
  induction rounds with
  | zero => exact fun _ => .refl
  | succ rounds ih =>
    intro w hw
    unfold World.catchUp
    split
    · exact .refl
    · next n hn =>
      have hfirst := ticks_moves hticks level (n + 1) hw (Or.inl (Nat.le_of_eq hn.symm))
      exact hfirst.trans (ih (Moves.allBodies hfirst hw))

/-- The levels one after the other are a run of moves. Induction on the levels. -/
theorem serveAll_moves {law : Law} (hticks : law.ticks) (levels : List Nat) : ∀ {w : World},
    w.AllBodies law.acts →
    Moves law ⟨w, none, none⟩ ⟨World.serveAll levels w, none, none⟩ := by
  unfold World.serveAll
  induction levels with
  | nil => exact fun _ => .refl
  | cons level rest ih =>
    intro w hw
    have hfirst := catchUp_moves hticks level (w.jumpBound + 1) hw
    exact hfirst.trans (ih (Moves.allBodies hfirst hw))

/-- The passes over the levels are a run of moves. Induction on the passes. -/
theorem settleWithin_moves {law : Law} (hticks : law.ticks) (passes : Nat) : ∀ {w : World},
    w.AllBodies law.acts →
    Moves law ⟨w, none, none⟩ ⟨World.settleWithin passes w, none, none⟩ := by
  induction passes with
  | zero => exact fun _ => .refl
  | succ passes ih =>
    intro w hw
    unfold World.settleWithin
    split
    · have hfirst := serveAll_moves hticks w.servingOrder hw
      exact hfirst.trans (ih (Moves.allBodies hfirst hw))
    · exact .refl

theorem settle_moves {law : Law} (hticks : law.ticks) {w : World} (hw : w.AllBodies law.acts) :
    Moves law ⟨w, none, none⟩ ⟨w.settle, none, none⟩ :=
  settleWithin_moves hticks (w.jumpBound + 1) hw

/-- The stops on the way of an advance are a run of moves, if the clock may be moved. Induction on
the stops. -/
theorem advanceWithin_moves {law : Law} (hticks : law.ticks) (hwaits : ∀ w us, law.waits w us)
    (target n : Nat) : ∀ {w : World}, w.AllBodies law.acts →
    Moves law ⟨w, none, none⟩ ⟨World.advanceWithin target n w, none, none⟩ := by
  induction n with
  | zero => exact fun _ => .refl
  | succ n ih =>
    intro w hw
    have hsettle := settle_moves hticks hw
    unfold World.advanceWithin
    simp only
    split
    · exact hsettle
    · next due _ =>
      split
      · have hfirst : Moves law ⟨w, none, none⟩ ⟨{ w.settle with clockUs := due }, none, none⟩ :=
          hsettle.tail (.wait w.settle due (hwaits _ _))
        exact hfirst.trans (ih (Moves.allBodies hfirst hw))
      · exact hsettle

theorem advance_moves {law : Law} (hticks : law.ticks) (hwaits : ∀ w us, law.waits w us)
    {w : World} (hw : w.AllBodies law.acts) (us : Nat) :
    Moves law ⟨w, none, none⟩ ⟨w.advance us, none, none⟩ :=
  (advanceWithin_moves hticks hwaits (w.clockUs + us) (w.ticksBy (w.clockUs + us) + 1) hw).tail
    (.wait _ _ (hwaits _ _))

/-! ## Commands -/

/-- A held execution that is finished is taken up and ends. -/
theorem finish_moves {law : Law} {w : World} (hw : w.AllBodies law.acts) (n : Nat)
    (htakes : ∀ i, w.held[n]? = some i → law.takes i) :
    Moves law ⟨w, none, none⟩ ⟨(w.finish n).2, none, none⟩ := by
  unfold World.finish
  split
  · exact .refl
  · next i hi =>
    have htake : Move law _ _ := .takeUp w n i (htakes i hi) hi
    exact .head htake (execute_moves (htake.allBodies hw))

/-- A law under which everything may happen but what moves the clock. -/
structure Law.Open (law : Law) : Prop where
  acts : ∀ a, law.acts a
  takes : ∀ i, law.takes i
  replaces : law.replaces

theorem Law.free_open : Law.free.Open := ⟨fun _ => trivial, fun _ => trivial, trivial⟩

theorem Law.Open.allBodies {law : Law} (h : law.Open) (w : World) : w.AllBodies law.acts :=
  fun _ _ => allOfRounds_of_forall h.acts _

theorem allBodies_free (w : World) : w.AllBodies Law.free.acts := Law.free_open.allBodies w

/-- Whether a law allows a command, but for the moving of the clock. -/
def Command.Allowed (law : Law) : Command → Prop
  | .act a => a.All law.acts
  | .create config => config.validate = .ok () → law.replaces
  | .dropTimer => law.replaces
  | _ => True

theorem Law.Open.allowed {law : Law} (h : law.Open) (c : Command) : c.Allowed law := by
  cases c with
  | act a => exact Action.all_of_forall h.acts a
  | create config => exact fun _ => h.replaces
  | dropTimer => exact h.replaces
  | _ => trivial

/-- **A command is a run of moves** under a law that allows what the command does, given that time
passing is one. -/
theorem step_moves {law : Law} (htakes : ∀ i, law.takes i) {w : World} (hw : w.AllBodies law.acts)
    (hadvance : ∀ us, Moves law ⟨w, none, none⟩ ⟨w.advance us, none, none⟩) {c : Command}
    (hc : c.Allowed law) : Moves law ⟨w, none, none⟩ ⟨(w.step c).2, none, none⟩ := by
  cases c with
  | act a => exact perform_moves (invoke_moves w.nesting) hw none none hc
  | create config =>
    simp only [World.step, World.create]
    split
    · exact .refl
    · next hvalid => exact .single (.create w config (hc hvalid) hvalid)
  | dropTimer => exact .single (.drop w hc)
  | dumpTimer =>
    simp only [World.step]
    split <;> exact .refl
  | timerStats =>
    simp only [World.step]
    split <;> exact .refl
  | touch => exact .refl
  | advance us => exact hadvance us
  | finish n => exact finish_moves hw n fun i _ => htakes i
  | unsupported => exact .refl

theorem step_moves_of_open {law : Law} (hlaw : law.Open) {w : World}
    (hadvance : ∀ us, Moves law ⟨w, none, none⟩ ⟨w.advance us, none, none⟩) (c : Command) :
    Moves law ⟨w, none, none⟩ ⟨(w.step c).2, none, none⟩ :=
  step_moves hlaw.takes (hlaw.allBodies w) hadvance (hlaw.allowed c)

/-- A shared timer comes into being with an accepted shape, whatever was loaded. -/
theorem Startup.valid_ofLoaded (loaded : Except Failure TimerConfig) :
    (Startup.ofLoaded loaded).config.validate = .ok () := by
  have hdefault : ({} : TimerConfig).validate = .ok () := rfl
  unfold Startup.ofLoaded
  split
  · exact hdefault
  · next config =>
    split
    · next hvalid => exact hvalid
    · exact hdefault

/-- Its coming into being warns at most once, of a shape that was not accepted or not loaded. -/
theorem Startup.warnings_ofLoaded (loaded : Except Failure TimerConfig) :
    (Startup.ofLoaded loaded).warnings = [] ∨ ∃ (reason : String) (rejected : Bool),
      (Startup.ofLoaded loaded).warnings
        = [if rejected then .configRejected reason else .configNotLoaded reason] := by
  unfold Startup.ofLoaded
  split
  · next failure => exact Or.inr ⟨failure.message, false, rfl⟩
  · next config =>
    split
    · exact Or.inl rfl
    · next fault _ => exact Or.inr ⟨fault.failure.message, true, rfl⟩

/-- A shared timer that comes into being does so by moves, with its warning. -/
theorem wake_moves {law : Law} (hlaw : law.Open) (w : World) (loaded : Except Failure TimerConfig) :
    Moves law ⟨w, none, none⟩ ⟨w.wake (.ofLoaded loaded), none, none⟩ := by
  have hstart : ∀ w' : World, Move law ⟨w', none, none⟩
      ⟨w'.startTimer (Startup.ofLoaded loaded).config, none, none⟩ :=
    fun w' => .create w' _ hlaw.replaces (Startup.valid_ofLoaded loaded)
  unfold World.wake
  rcases Startup.warnings_ofLoaded loaded with hnone | ⟨reason, rejected, hone⟩
  · rw [hnone]
    exact .single (hstart w)
  · rw [hone]
    exact .head (.warn w reason rejected) (.single (hstart _))

/-- A command on a shared timer is a run of moves, with the timer brought into being where it is
needed. -/
theorem stepShared_moves {law : Law} (hlaw : law.Open) {w : World}
    (hadvance : ∀ {w'} us, Moves law ⟨w, none, none⟩ ⟨w', none, none⟩ →
      Moves law ⟨w', none, none⟩ ⟨w'.advance us, none, none⟩)
    (loaded : Except Failure TimerConfig) (c : Command) :
    Moves law ⟨w, none, none⟩ ⟨(w.stepShared (.ofLoaded loaded) c).2, none, none⟩ := by
  have hrest : Moves law ⟨w, none, none⟩
      ⟨(if c.needsTimer && w.timer.isNone then (w.wake (.ofLoaded loaded)).step c
        else w.step c).2, none, none⟩ := by
    split
    · have hwake := wake_moves hlaw w loaded
      exact hwake.trans (step_moves_of_open hlaw (fun us => hadvance us hwake) c)
    · exact step_moves_of_open hlaw (fun us => hadvance us .refl) c
  cases c with
  | create config => exact .refl
  | dropTimer => exact .refl
  -- everything else is done as in any scenario, the timer brought into being where it is needed
  | _ => exact hrest

/-- The worlds that commands lead to, in scenarios that create their timers themselves and in
scenarios that work on one shared timer, however deep bodies are nested. -/
inductive World.Reachable : World → Prop where
  | fresh (nesting : Nat) : Reachable { nesting }
  | step {w : World} (c : Command) : Reachable w → Reachable (w.step c).2
  | stepShared {w : World} (loaded : Except Failure TimerConfig) (c : Command) :
      Reachable w → Reachable (w.stepShared (.ofLoaded loaded) c).2

/-- **Every world that commands lead to is a moment that arises.** -/
theorem World.Reachable.arises {w : World} (h : w.Reachable) : Moment.Arises ⟨w, none, none⟩ := by
  have hadvance : ∀ (w : World) us,
      Moves .free ⟨w, none, none⟩ ⟨w.advance us, none, none⟩ :=
    fun w us => advance_moves trivial (fun _ _ => trivial) (allBodies_free w) us
  induction h with
  | fresh nesting => exact .start nesting
  | step c _ ih => exact ih.trans (step_moves_of_open Law.free_open (hadvance _) c)
  | stepShared loaded c _ ih =>
    exact ih.trans (stepShared_moves Law.free_open (fun us _ => hadvance _ us) loaded c)

/-- The world after some commands. -/
def World.after (w : World) (commands : List Command) : World :=
  commands.foldl (fun w c => (w.step c).2) w

/-- Commands lead from a world that can be reached to another one. -/
theorem World.Reachable.after {w : World} (h : w.Reachable) (commands : List Command) :
    (w.after commands).Reachable := by
  induction commands generalizing w with
  | nil => exact h
  | cons c rest ih => exact ih (h.step c)

end TimingWheel
