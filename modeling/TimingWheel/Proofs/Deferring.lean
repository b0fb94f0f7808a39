import TimingWheel.Proofs.Enrolling
import TimingWheel.Proofs.Instants
import TimingWheel.Proofs.Pursuit
import TimingWheel.Proofs.Silence

/-!
# What comes of a delay

A job that is scheduled after a delay comes into being while a tick is in progress. The tick may be
one of a coarse level, which comes to the instant before or after the finest level does, and the
entry that schedules the job may have come there through several levels. What is known of that entry
between two instants settles all of this: the entry is launched at an instant of its plan and at no
other, so the job comes into being when the clock of the timer reads that time.

* **`World.Untouched`** — nobody has interfered with an entry so far.
* **`World.Registrar.birth`** — an entry that comes into being while the clock stands still takes up
  the plan that a naive scheduler makes at that time.
* **`World.Awaits`**, **`World.Deferred`** — what is known of the delay, and of the job as well, at
  every instant.
* **`World.Deferred.moves`** — what happens at an instant keeps it, and so does time that passes.
* **`World.Course.deferred`** — so a course of commands keeps it.
-/

namespace TimingWheel

/-! ## What is told of an entry that nobody interferes with -/

/-- A launch time is told for every launch. -/
theorem length_launchTimes (history : List Event) :
    (launchTimes history).length = launchCount history := by
  rw [launchTimes, List.length_reverse, List.length_filterMap_eq_countP]
  refine List.countP_congr fun ev _ => ?_
  cases ev with
  | evaluated i level tick nowMs verdict => cases verdict <;> simp [Event.launchMs?, Event.isLaunch]
  | _ => simp [Event.launchMs?, Event.isLaunch]

/-- Every launch is told as what a tick made of the entry at that time. -/
theorem World.exists_evaluated_of_launched {w : World} {i : EntryId} {ms : Nat}
    (h : ms ∈ launchTimes (w.history i)) :
    ∃ level tick last, .evaluated i level tick ms (.run last) ∈ w.history i := by
  rw [launchTimes, List.mem_reverse, List.mem_filterMap] at h
  obtain ⟨ev, hev, hms⟩ := h
  have habout : ev.about = some i := World.about_of_mem_history hev
  cases ev with
  | evaluated j level tick nowMs verdict =>
    obtain rfl : j = i := Option.some.inj habout
    cases verdict with
    | run last =>
      obtain rfl : nowMs = ms := Option.some.inj hms
      exact ⟨level, tick, last, hev⟩
    | _ => simp [Event.launchMs?] at hms
  | _ => simp [Event.launchMs?] at hms

section

variable {law : Law} {m m' : Moment} {i : EntryId} {w w' : World}

/-- Nothing that is told is taken back, and held executions stay held. -/
theorem Moves.told_and_held (h : Moves law m m') (harises : m.Arises) (htakes : ¬ law.takes i)
    (hi : i < m.world.entries.size) : m.world.history i <:+ m'.world.history i
      ∧ m.world.held.count i ≤ m'.world.held.count i := by
  induction h with
  | refl => exact ⟨List.suffix_rfl, Nat.le_refl _⟩
  | tail hmoves hmove ih =>
    obtain ⟨hhistory, hheld⟩ := ih
    have hknown := Nat.lt_of_lt_of_le hi (Moves.size_le hmoves)
    have hcustody := Moment.Arises.custody (harises.trans (Moves.free hmoves))
    obtain ⟨v, hv, -⟩ := Moment.exists_view (Array.getElem?_eq_getElem hknown)
    obtain ⟨v', hv', hstepped⟩ := (hmove.lives hcustody i).step hv
    obtain ⟨hpage, -, hflight⟩ := Moment.view_eq_some.1 hv
    obtain ⟨hpage', -, hflight'⟩ := Moment.view_eq_some.1 hv'
    have htold := hstepped.suffix
    have hmore := hstepped.held_le htakes
    rw [(World.page_eq_some.1 hpage).2.1, (World.page_eq_some.1 hpage').2.1] at htold
    rw [hflight, hflight'] at hmore
    exact ⟨hhistory.trans htold, Nat.le_trans hheld hmore⟩

/-- Nobody has controlled the entry, no body of it has exited, and no execution of it is held. -/
structure World.Untouched (w : World) (i : EntryId) : Prop where
  free : i ∉ w.held
  calm : ∀ ev ∈ w.history i, ev.interferes = false

/-- What nobody interferes with nobody interfered with before. -/
theorem World.Untouched.before (h : w'.Untouched i)
    (hmoves : Moves law ⟨w, none, none⟩ ⟨w', none, none⟩)
    (harises : Moment.Arises ⟨w, none, none⟩) (htakes : ¬ law.takes i)
    (hi : i < w.entries.size) : w.Untouched i := by
  obtain ⟨hhistory, hheld⟩ := Moves.told_and_held hmoves harises htakes hi
  refine ⟨fun hin => h.free ?_, fun ev hev => h.calm ev (hhistory.subset hev)⟩
  exact List.count_pos_iff.1 (Nat.lt_of_lt_of_le (List.count_pos_iff.2 hin) hheld)

/-- Between commands every launch of such an entry has run its task. -/
theorem World.Untouched.taskRuns_eq (h : w.Untouched i) (harises : Moment.Arises ⟨w, none, none⟩) :
    taskRuns (w.history i) = (launchTimes (w.history i)).length := by
  have hbalance := (harises.exclusive i).1
  have hnone : Moment.unfinished ⟨w, none, none⟩ i = 0 := by
    simp [Moment.unfinished, List.count_eq_zero.2 h.free]
  rw [length_launchTimes, hbalance, hnone, Nat.add_zero]
  refine taskRuns_eq_completionCount fun ev hev j hrun => ?_
  have hcalm := h.calm ev hev
  rw [hrun] at hcalm
  simp [Event.interferes] at hcalm

/-- No execution is held of an entry that is still to come. -/
theorem Moment.Arises.notMem_held (h : m.Arises) (hi : m.world.entries.size ≤ i) :
    i ∉ m.world.held := by
  rcases h.lives i with hblank | ⟨v, hv, -⟩
  · exact List.count_eq_zero.1 (congrArg Flight.held hblank.flight)
  · have hentry := (World.page_eq_some.1 (Moment.view_eq_some.1 hv).1).1
    rw [Array.getElem?_eq_none hi] at hentry
    simp at hentry

variable {a : Assignment}

/-- An entry that waits for the first launch of a plan takes up the plan with all that is told of
it. -/
theorem View.AtStart.pursues_all {v : View} (hv : m.view i = some v) (h : v.AtStart a) :
    m.Pursues a i [] := by
  have hready : v.entry.status ≠ .reset := by
    rw [h.ready]
    decide
  have hsince : (v.since v.history).AtStart a := by
    rw [View.since_of_ne hready]
    exact h
  exact hsince.pursues hv (List.append_nil _).symm

/-- An entry that nobody interferes with is on course, with as many launches behind it as its task
was run. -/
theorem Moment.Pursues.course (h : Moment.Pursues a i [] ⟨w, none, none⟩)
    (harises : Moment.Arises ⟨w, none, none⟩) (huntouched : w.Untouched i) :
    ∃ v, w.Seats i v ∧ v.OnCourse a (taskRuns (w.history i))
      ∧ ∀ p < taskRuns (w.history i), a.plan.launchMs p * 1000 ≤ w.runUs a.clockwork := by
  obtain ⟨v, n, seen, onCourse, past⟩ :=
    h.undisturbed huntouched.free (List.append_nil _).symm huntouched.calm
  obtain ⟨hpage, hstage, -⟩ := Moment.view_eq_some.1 seen
  have hseats : w.Seats i (v.since (w.history i)) :=
    ⟨⟨v.entry, (World.page_eq_some.1 hpage).1, v.entry.seat_settleReset.symm⟩, hstage⟩
  have hlaunched : launchTimes (w.history i) = (List.range n).map a.plan.readingMs :=
    View.OnCourse.told onCourse
  have hruns : taskRuns (w.history i) = n := by
    rw [huntouched.taskRuns_eq harises, hlaunched, List.length_map, List.length_range]
  rw [hruns]
  exact ⟨_, hseats, onCourse, past⟩

end

/-! ## An entry that comes into being -/

/-- One launch of an entry schedules a job, and the other assignment is what a naive scheduler makes
of the job from then on. -/
structure Assignment.Leads (a b : Assignment) (r : Registration) : Prop where
  once : a.plan.runs = .left 1
  clockwork : b.clockwork = a.clockwork
  plan : b.plan = ⟨a.clockwork.config.intervalMs, a.plan.launchMs 0, r.intervalMs, r.runs⟩
  ready : r.initialStatus = .ready

section

variable {a b : Assignment} {takes : EntryId → Prop} {id : TimerId} {i j : EntryId}
  {r : Registration} {job : JobId} {w w' : World}

/-- **An entry that comes into being while the clock stands still** takes up the plan that a naive
scheduler makes at that time, whatever is in progress then. -/
theorem World.Registrar.birth (hregistrar : w'.Registrar id i r job) (hleads : a.Leads b r)
    (harises : Moment.Arises ⟨w, none, none⟩) (hw : w.InStep a.clockwork)
    (hmoves : Moves (.steady takes) ⟨w, none, none⟩ ⟨w', none, none⟩)
    (htakes : ∀ k, takes k → k ∈ w.held) (hclock : w'.clockUs = w.clockUs)
    (hnow : w'.runUs a.clockwork = a.plan.launchMs 0 * 1000) (hcount : w'.nowMs < ceiling)
    (hknown : job < w.jobs.size) (hnew : j ∉ w.bearers job) (hj : j ∈ w'.bearers job) :
    Moment.Pursues b j [] ⟨w', none, none⟩ := by
  obtain ⟨m₁, i₁, e, r₁, hbefore, he, htask, howner, rfl, hafter⟩ :=
    Moves.enrolled hmoves hknown hnew hj
  have harises₁ : m₁.Arises := harises.trans (Moves.free hbefore)
  have henroll : Move (.steady takes) m₁ _ := .enroll m₁ i₁ e r₁ job he htask howner
  have hrest := (Relation.ReflTransGen.single henroll).trans hafter
  -- nobody but the registrar schedules the job
  obtain rfl : r₁ = r := by
    obtain ⟨e', he', hpost⟩ := Moves.post (Moves.free hrest) harises₁ he
    have hpost' : w'.posts[i₁]? = some (.register r₁ job, e.owner) :=
      posts_eq_some.2 ⟨e', he', by rw [hpost, Entry.post, htask]⟩
    obtain rfl := hregistrar.sole hpost'
    have hsame := Option.some.inj (hpost'.symm.trans hregistrar.own)
    exact (Task.register.inj (congrArg (·.1) hsame)).1
  -- the clock reads the time of the launch
  have hin₁ := Moves.inStep hbefore (hw.moment none)
  have hrun : m₁.world.runUs a.clockwork = a.plan.launchMs 0 * 1000 := by
    refine Nat.le_antisymm ?_ ?_
    · rw [← hnow]
      exact Moves.runUs_le hrest a.clockwork
    · rw [← hnow, World.runUs, hclock]
      exact Moves.runUs_le hbefore a.clockwork
  have hin' := Moves.inStep hmoves (hw.moment none)
  have hms : m₁.world.nowMs = a.plan.launchMs 0 := by
    have hread : w'.nowMs = min (w'.runUs a.clockwork / 1000) ceiling := hin'.world.nowMs
    rw [hnow, Nat.mul_div_cancel _ (by decide)] at hread
    rw [hin₁.world.nowMs, hrun, Nat.mul_div_cancel _ (by decide)]
    omega
  have hfree : m₁.stage m₁.world.entries.size = .free := by
    refine Moment.stage_of_notMem fun hin => ?_
    obtain ⟨t, e', -, he', -⟩ := harises₁.custody.in_hand hin
    simp at he'
  obtain ⟨v, hv, hstart⟩ := World.register_atStart (a := b) harises₁.blank hfree
    (by rw [hleads.clockwork]; exact hin₁.world) hleads.ready
    (by rw [hleads.plan, hleads.clockwork, hms]) (.body job)
  -- none of its executions was held before, so none is taken up
  have hheld : m₁.world.entries.size ∉ w.held := harises.notMem_held (Moves.size_le hbefore)
  refine Moves.pursues (Moves.of_takes hafter fun k hk heq => hheld (heq ▸ htakes k hk))
    (harises₁.trans (Moves.free (.single henroll))) ?_ hcount (hstart.pursues_all hv)
  rw [hleads.clockwork]
  exact henroll.inStep hin₁

/-! ## The delay and the job at every instant -/

/-- What is known at an instant of an entry that schedules a job when it is launched for the only
time. As long as the clock has not come to the last count and nobody has interfered, it keeps to its
plan. -/
structure World.Awaits (a : Assignment) (i : EntryId) (r : Registration) (job : JobId) (w : World) :
    Prop where
  arises : Moment.Arises ⟨w, none, none⟩
  registrar : w.Registrar a.clockwork.id i r job
  count : (w.bearers job).length = taskRuns (w.history i)
  idle : w.bearers job = [] → w.startsOf job = some 0
  followed : w.nowMs < ceiling → Moment.Pursues a i [] ⟨w, none, none⟩

/-- What is known of the job as well: its entry keeps to the plan that the launch leads to. -/
structure World.Deferred (a b : Assignment) (i : EntryId) (r : Registration) (job : JobId)
    (w : World) : Prop extends World.Awaits a i r job w where
  born : w.nowMs < ceiling → w.Untouched i →
    ∀ j ∈ w.bearers job, Moment.Pursues b j [] ⟨w, none, none⟩

/-- The only run schedules one job at most. -/
theorem Assignment.Leads.le_one (hleads : a.Leads b r) {v : View} {n : Nat}
    (h : v.OnCourse a n) : n ≤ 1 := by
  apply Nat.le_of_not_lt
  intro htwo
  have hallowed := h.allowed 1 htwo
  rw [hleads.once] at hallowed
  exact absurd hallowed (Nat.lt_irrefl 1)

theorem Assignment.Leads.allows_zero (hleads : a.Leads b r) : a.plan.runs.Allows 0 := by
  rw [hleads.once]
  exact Nat.zero_lt_one

/-- An entry with the body of a job keeps it. -/
theorem Moves.bearers_subset {law : Law} {w w' : World}
    (h : Moves law ⟨w, none, none⟩ ⟨w', none, none⟩) (harises : Moment.Arises ⟨w, none, none⟩)
    (hj : j ∈ w.bearers job) : j ∈ w'.bearers job := by
  obtain ⟨e, he, htask⟩ := World.mem_bearers.1 hj
  obtain ⟨e', he', hpost⟩ := Moves.post (Moves.free h) harises he
  exact World.mem_bearers.2 ⟨e', he', (congrArg (·.1) hpost).trans htask⟩

/-- Whatever happens keeps what is known of the entry, as long as no held execution of it is taken
up. -/
theorem World.Awaits.moves (h : w.Awaits a i r job) (hw : w.InStep a.clockwork)
    (hmoves : Moves (.steady takes) ⟨w, none, none⟩ ⟨w', none, none⟩)
    (htakes : ∀ k, takes k → k ≠ i) (henrols : Enrols a.clockwork.id i r job 0 w w') :
    w'.Awaits a i r job := by
  refine ⟨h.arises.trans (Moves.free hmoves), henrols.registrar, ?_, fun hnone => ?_,
    fun hclock => ?_⟩
  · have hsame := henrols.count
    have hown := h.count
    omega
  · obtain ⟨hbefore, hsame⟩ := henrols.idle hnone
    exact hsame.trans (h.idle hbefore)
  · have hin := hw.moment none
    have hbefore : w.nowMs < ceiling := Nat.lt_of_le_of_lt (Moves.clock_le hmoves hin) hclock
    exact Moves.pursues (Moves.of_takes hmoves htakes) h.arises hin hclock (h.followed hbefore)

/-- The entry is launched at the time of its plan, if the job comes into being while the clock
stands still. -/
theorem World.Awaits.launches_now (h : w.Awaits a i r job) (h' : w'.Awaits a i r job)
    (hleads : a.Leads b r) (hw : w.InStep a.clockwork)
    (hmoves : Moves (.steady takes) ⟨w, none, none⟩ ⟨w', none, none⟩)
    (hclock : w'.clockUs = w.clockUs) (hcount : w'.nowMs < ceiling) (huntouched : w.Untouched i)
    (huntouched' : w'.Untouched i) (hnew : j ∉ w.bearers job) (hj : j ∈ w'.bearers job) :
    w'.runUs a.clockwork = a.plan.launchMs 0 * 1000 := by
  have hbefore : w.nowMs < ceiling :=
    Nat.lt_of_le_of_lt (Moves.clock_le hmoves (hw.moment none)) hcount
  obtain ⟨v, hseats, hcourse, -⟩ := (h.followed hbefore).course h.arises huntouched
  obtain ⟨v', -, hcourse', hpast'⟩ := (h'.followed hcount).course h'.arises huntouched'
  -- one entry has the body of the job now, and none had it before
  have hone : taskRuns (w'.history i) = 1 := by
    have hsome := List.length_pos_of_mem hj
    have hmost := hleads.le_one hcourse'
    have hown := h'.count
    omega
  have hnone : taskRuns (w.history i) = 0 := by
    rw [← h.count, List.length_eq_zero_iff, List.eq_nil_iff_forall_not_mem]
    intro k hk
    obtain ⟨only, honly⟩ := List.length_eq_one_iff.1 (h'.count.trans hone)
    have hk' := Moves.bearers_subset hmoves h.arises hk
    rw [honly, List.mem_singleton] at hk' hj
    exact hnew (hj.trans hk'.symm ▸ hk)
  rw [hnone] at hcourse
  refine Nat.le_antisymm ?_ (hpast' 0 (by omega))
  have huntil := hcourse.until_launch hseats hw h.arises.custody hbefore hleads.allows_zero
  rwa [World.runUs, hclock]

/-- **What happens at an instant keeps what is known of the delay and of the job**, and so does time
that passes. -/
theorem World.Deferred.moves (h : w.Deferred a b i r job) (hleads : a.Leads b r)
    (hw : w.InStep a.clockwork) (hmoves : Moves (.steady takes) ⟨w, none, none⟩ ⟨w', none, none⟩)
    (htakes : ∀ k, takes k → k ∈ w.held ∧ k ≠ i ∧ k ∉ w.bearers job)
    (henrols : Enrols a.clockwork.id i r job 0 w w')
    (hinstant : w'.clockUs = w.clockUs ∨ w'.bearers job = w.bearers job) :
    w'.Deferred a b i r job := by
  have hafter := h.toAwaits.moves hw hmoves (fun k hk => (htakes k hk).2.1) henrols
  have hin := hw.moment none
  refine ⟨hafter, fun hclock' huntouched' j hj => ?_⟩
  have hbefore : w.nowMs < ceiling := Nat.lt_of_le_of_lt (Moves.clock_le hmoves hin) hclock'
  have huntouched := huntouched'.before hmoves h.arises (fun hi => (htakes i hi).2.1 rfl)
    h.registrar.lt_size
  by_cases hold : j ∈ w.bearers job
  · refine Moves.pursues (Moves.of_takes hmoves fun k hk heq => (htakes k hk).2.2 (heq ▸ hold))
      h.arises ?_ hclock' (h.born hbefore huntouched j hold)
    rw [hleads.clockwork]
    exact hin
  · rcases hinstant with hclock | hbearers
    · have hnow := h.toAwaits.launches_now hafter hleads hw hmoves hclock hclock' huntouched
        huntouched' hold hj
      exact henrols.registrar.birth hleads h.arises hw hmoves (fun k hk => (htakes k hk).1)
        hclock hnow hclock' h.registrar.known hold hj
    · exact absurd (hbearers ▸ hj) hold

/-- No execution of an entry is held, nor of an entry with the body of a job. -/
def World.Unheld (w : World) (i : EntryId) (job : JobId) : Prop :=
  i ∉ w.held ∧ ∀ j ∈ w.bearers job, j ∉ w.held

instance (w : World) (i : EntryId) (job : JobId) : Decidable (w.Unheld i job) :=
  inferInstanceAs (Decidable (_ ∧ _))

/-- **A course of commands keeps what is known of the delay and of the job.** -/
theorem World.Course.deferred (h : w.Course (·.Unheld i job) w') (hleads : a.Leads b r)
    (hw : w.Steady a.clockwork) (hsettled : w.Settled a.clockwork) (hunheld : w.Unheld i job)
    (hdeferred : w.Deferred a b i r job) : w'.Steady a.clockwork ∧ w'.Settled a.clockwork
      ∧ w'.Unheld i job ∧ w'.Deferred a b i r job := by
  refine h.instants (fun {w} hw hd => ?_) (fun {w us} hw hd hus => ?_) hw hsettled hunheld hdeferred
    fun {w c} hw hsettled hunheld hd hc honce => ?_
  · exact hd.moves hleads hw.inStep (@settle_moves (.steady fun _ => False) trivial w hw.bodies)
      (fun _ hk => hk.elim) (settle_enrols hd.registrar) (Or.inl hw.timely.settle.2.1)
  · exact hd.moves hleads hw.inStep (.single (@Move.wait (.steady fun _ => False) w us hus))
      (fun _ hk => hk.elim) ((kept_enrols w).clock us (.refl hd.registrar)) (Or.inr rfl)
  · have hmoves := (@World.Steady.step _ w (· ∈ w.held) hw hsettled (fun _ hj => hj) c hc).1
    refine hd.moves hleads hw.inStep hmoves (fun k hk => ⟨hk, ?_, ?_⟩) (step_enrols hd.registrar hc)
      (Or.inl (hw.timely.clockUs_step hc honce))
    · rintro rfl
      exact hunheld.1 hk
    · exact fun hin => hunheld.2 k hin hk

end

end TimingWheel
