import TimingWheel.Proofs.Refinement

/-!
# Plans that are taken up later

A plan need not begin when its entry is added. An entry may be armed anew after a history of any
kind, and what follows is what a naive scheduler would do from then on. Until the next look such an
entry is marked as reset, which the look settles before it asks anything else.

* **`View.since`** — a view without what was told before a point, and with a reset settled.
  Whatever happens to the entry happens to this view as well (`View.EntryStep.since`).
* **`View.OnCourse`** — on the plan, or waiting for the last count because the plan has no count
  for what comes next.
* **`Moves.pursues`** — a steady course keeps an entry on the plan that it took up.
* **`Moment.Pursues.outcome`** — what that comes to between commands.
-/

namespace TimingWheel

/-! ## Settled resets -/

namespace Entry

variable {e : Entry}

theorem settleReset_of_ne (h : e.status ≠ .reset) : e.settleReset = e := if_neg h

theorem settleReset_idem (e : Entry) : e.settleReset.settleReset = e.settleReset := by
  by_cases h : e.status = .reset
  · simp [settleReset, h]
  · rw [settleReset_of_ne h, settleReset_of_ne h]

/-- A look settles a reset before it asks anything else. -/
theorem evaluate_settleReset (e : Entry) (nowMs : Nat) :
    e.settleReset.evaluate nowMs = e.evaluate nowMs := by
  unfold evaluate
  rw [settleReset_idem]

/-- A look leaves no reset to be settled. -/
theorem status_evaluate_ne_reset (e : Entry) (nowMs : Nat) :
    (e.evaluate nowMs).2.status ≠ .reset := by
  have hsettled : e.settleReset.status ≠ .reset := by
    unfold settleReset
    split
    · simp
    · next h => exact h
  have hlook := e.evaluated nowMs
  generalize e.evaluate nowMs = look at hlook
  cases hlook with
  | ended closed => simp [closed]
  | early alive wait => exact hsettled
  | suspended stopped due => simp [stopped]
  | busy alive due active singleton inFlight => exact hsettled
  | spent alive due active none => simp
  | launched alive due active free rest left => simp

/-- The end of an execution does not touch a reset. -/
theorem complete_settleReset (e : Entry) : e.settleReset.complete = e.complete.settleReset := by
  by_cases h : e.status = .reset
  · simp [settleReset, complete, h]
  · have hcomplete : e.complete.status ≠ .reset := by
      unfold complete
      simp only
      split
      · simp
      · split
        · simp
        · exact h
    rw [settleReset_of_ne h, settleReset_of_ne hcomplete]

/-- To settle a reset neither closes an entry nor opens one. -/
theorem settleReset_closed : e.settleReset.status = .closed ↔ e.status = .closed := by
  unfold settleReset
  split
  · next h => simp [h]
  · exact Iff.rfl

end Entry

/-! ## What is told since a point -/

/-- The view without what was told before a point, and with a reset settled. -/
def View.since (v : View) (told : List Event) : View :=
  { v with entry := v.entry.settleReset, history := told }

/-- Where no reset is to be settled, only what was told before is left out. -/
theorem View.since_of_ne {v : View} (h : v.entry.status ≠ .reset) (told : List Event) :
    v.since told = { v with history := told } := by
  simp only [since, Entry.settleReset_of_ne h]

/-- A reset that was not settled yet came before the look of a tick. -/
def View.Unlooked (v : View) : Prop :=
  v.entry.status = .reset → ∀ nowMs last, v.stage ≠ .launched nowMs last

/-- What happens to the view since a point. -/
inductive View.EntryStepSince (law : Law) (i : EntryId) (before told : List Event) (v v' : View) :
    Prop where
  | step (told' : List Event) (history : v'.history = told' ++ before) (unlooked : v'.Unlooked)
      (step : (v.since told).EntryStep law i (v'.since told'))
  /-- Somebody controls the entry, or its body exits. -/
  | interferes (told' : List Event) (history : v'.history = told' ++ before)
      (h : ∃ e ∈ told', e.interferes = true)

section

variable {law : Law} {i : EntryId} {v v' : View} {before told : List Event}

/-- Something that interferes is told. -/
theorem View.EntryStepSince.of_suffix {ev : Event} (hhistory : v.history = told ++ before)
    (hsuffix : ev :: v.history <:+ v'.history) (hev : ev.interferes = true) :
    v.EntryStepSince law i before told v' := by
  obtain ⟨more, hmore⟩ := hsuffix
  refine .interferes (more ++ ev :: told) ?_ ⟨ev, by simp, hev⟩
  rw [← hmore, hhistory]
  simp

/-- Something is told of the entry, and nothing else happens. -/
theorem View.EntryStepSince.of_tell {ev : Event} (hhistory : v.history = told ++ before)
    (hunlooked : v.Unlooked)
    (step : (v.since told).EntryStep law i
      { v.since told with toPage := (v.since told).toPage.tell ev }) :
    v.EntryStepSince law i before told { v with toPage := v.toPage.tell ev } :=
  .step (ev :: told) (congrArg (ev :: ·) hhistory) hunlooked step

/-- An execution ends, and ends in the same way since the point: its end does not touch a reset.
-/
theorem View.EntryStepSince.of_complete (hhistory : v.history = told ++ before)
    (hunlooked : v.Unlooked) (executing : v.flight.executing = true) :
    v.EntryStepSince law i before told { v with
      toPage := v.toPage.complete i
      flight := { v.flight with executing := false } } := by
  have hstep : (v.since told).EntryStep law i _ := .completes _ executing
  have hunlooked' (p : Page) (hp : p.entry = v.entry.complete) :
      View.Unlooked { v with toPage := p, flight := { v.flight with executing := false } } := by
    intro hreset
    refine hunlooked ?_
    replace hreset : p.entry.status = .reset := hreset
    rw [hp] at hreset
    unfold Entry.complete at hreset
    simp only at hreset
    split at hreset
    · simp at hreset
    · split at hreset
      · simp at hreset
      · exact hreset
  -- both views ask the same about the runs that are left
  have hsame : ((v.since told).entry.complete.status = .closed
      ∧ (v.since told).entry.status ≠ .closed)
      ↔ (v.entry.complete.status = .closed ∧ v.entry.status ≠ .closed) := by
    show (v.entry.settleReset.complete.status = _ ∧ v.entry.settleReset.status ≠ _) ↔ _
    rw [Entry.complete_settleReset, Entry.settleReset_closed, ne_eq, Entry.settleReset_closed]
  have hentry : (v.since told).entry.complete = v.entry.complete.settleReset :=
    v.entry.complete_settleReset
  simp only [Page.complete] at hstep ⊢
  rw [if_congr hsame rfl rfl] at hstep
  split at hstep
  · next hover =>
    rw [if_pos hover]
    refine .step (.logged (.runsUsedUp i) :: .completed i :: told) ?_ (hunlooked' _ rfl) ?_
    · show _ :: _ :: v.history = _
      rw [hhistory]
      rfl
    · have hview := hstep
      simp only [Page.log, Page.tell, Page.modify, hentry] at hview
      exact hview
  · next hopen =>
    rw [if_neg hopen]
    refine .step (.completed i :: told) (congrArg (_ :: ·) hhistory) (hunlooked' _ rfl) ?_
    have hview := hstep
    simp only [Page.tell, Page.modify, hentry] at hview
    exact hview

/-- The look of a tick settles the reset, so both views show the same after it. -/
theorem View.look_since (v : View) (told : List Event) (i : EntryId) (level tick nowMs : Nat) :
    (v.since told).toPage.look i level tick nowMs = { v.toPage.look i level tick nowMs with
      history := .evaluated i level tick nowMs (v.entry.evaluate nowMs).1 :: told } := by
  simp only [Page.look, Page.modify, Page.tell, View.since, Entry.evaluate_settleReset]

/-- A look is told on top of what was told since the point. -/
theorem View.history_look (hhistory : v.history = told ++ before) (level tick nowMs : Nat) :
    (v.toPage.look i level tick nowMs).history
      = .evaluated i level tick nowMs (v.entry.evaluate nowMs).1 :: told ++ before := by
  rw [List.cons_append, ← hhistory]
  rfl

/-- What follows a look has nothing to do with what was told, and tells nothing itself. -/
theorem Page.rest_of_ne {p : Page} (h : p.entry.status ≠ .reset) (history : List Event)
    (i : EntryId) (nowMs : Nat) (verdict : Verdict) :
    ({ p with history := history } : Page).rest i nowMs verdict
        = { p.rest i nowMs verdict with history := history }
      ∧ (p.rest i nowMs verdict).history = p.history
      ∧ (p.rest i nowMs verdict).entry.status ≠ .reset := by
  cases verdict with
  | drop =>
    simp only [rest, release, if_neg h]
    exact ⟨rfl, rfl, h⟩
  | wait => exact ⟨rfl, rfl, h⟩
  | skip => exact ⟨rfl, rfl, h⟩
  | run last => exact ⟨rfl, rfl, h⟩

/-- What follows a launch has nothing to do with what was told, either: it is what follows a look
that drops or skips the entry. -/
theorem Page.putBack_of_ne {p : Page} (h : p.entry.status ≠ .reset) (history : List Event)
    (i : EntryId) (nowMs : Nat) (last : Bool) :
    ({ p with history := history } : Page).putBack i nowMs last
        = { p.putBack i nowMs last with history := history }
      ∧ (p.putBack i nowMs last).history = p.history
      ∧ (p.putBack i nowMs last).entry.status ≠ .reset := by
  cases last with
  | true => exact Page.rest_of_ne h history i nowMs .drop
  | false => exact Page.rest_of_ne h history i nowMs .skip

/-- **Whatever happens to an entry happens to it since a point**, unless it is interfered with. -/
theorem View.EntryStep.since (h : v.EntryStep law i v') (hhistory : v.history = told ++ before)
    (hunlooked : v.Unlooked) : v.EntryStepSince law i before told v' := by
  cases h with
  | passes there nowMs aim gone =>
    exact .step told hhistory hunlooked (.passes (v.since told) there nowMs aim gone)
  | byHand => exact .of_suffix hhistory List.suffix_rfl rfl
  | begins job label clockUs => exact .of_tell hhistory hunlooked (.begins _ job label clockUs)
  | concludes outcome =>
    cases outcome with
    | exit => exact .of_suffix hhistory List.suffix_rfl rfl
    | failed reason =>
      exact .of_tell hhistory hunlooked (.concludes (v.since told) (.failed reason))
    | done => exact .step told hhistory hunlooked (.concludes (v.since told) .done)
    | crashed => exact .step told hhistory hunlooked (.concludes (v.since told) .crashed)
  | controls c plain => exact .of_suffix hhistory (v.toPage.suffix_control i c) rfl
  | completes executing => exact .of_complete hhistory hunlooked executing
  | takesUp allowed held idle =>
    exact .step told hhistory hunlooked (.takesUp (v.since told) allowed held idle)
  | drains aim free owned =>
    -- a reset that has not been looked at moves neither seat nor record
    have hlevel : (v.since told).entry.level = v.entry.level :=
      congrArg (·.2.2.1) v.entry.seat_settleReset
    have htick : (v.since told).entry.installedTick = v.entry.installedTick :=
      congrArg (·.2.2.2) v.entry.seat_settleReset
    have howned : (v.since told).entry.installed = v.entry.installed :=
      congrArg (·.2.1) v.entry.seat_settleReset
    have hstep : (v.since told).EntryStep law i _ := .drains _ aim free (howned.trans owned)
    rw [hlevel, htick] at hstep
    exact .step told hhistory (fun _ _ _ => by simp) hstep
  | rests level tick nowMs drained idle =>
    -- the look settles the reset, and what it sees of the entry is what it would see after that
    have hlook : (v.since told).entry.evaluate nowMs = v.entry.evaluate nowMs :=
      v.entry.evaluate_settleReset nowMs
    have hstep : (v.since told).EntryStep law i _ :=
      .rests _ level tick nowMs drained (by rw [hlook]; exact idle)
    obtain ⟨hrest, htold, hreset⟩ := Page.rest_of_ne
      (p := v.toPage.look i level tick nowMs) (v.entry.status_evaluate_ne_reset nowMs)
      (.evaluated i level tick nowMs (v.entry.evaluate nowMs).1 :: told) i nowMs
      (v.entry.evaluate nowMs).1
    rw [View.look_since, hlook, hrest] at hstep
    have htold' := htold.trans (View.history_look hhistory level tick nowMs)
    refine .step _ htold' (fun h => absurd h hreset) ?_
    rw [View.since_of_ne (v := { v with
      toPage := (v.toPage.look i level tick nowMs).rest i nowMs (v.entry.evaluate nowMs).1
      stage := .free }) hreset]
    exact hstep
  | launches level tick nowMs last holding drained idle runs =>
    have hlook : (v.since told).entry.evaluate nowMs = v.entry.evaluate nowMs :=
      v.entry.evaluate_settleReset nowMs
    have hstep : (v.since told).EntryStep law i _ :=
      .launches _ level tick nowMs last holding drained idle (by rw [hlook]; exact runs)
    have hreset := v.entry.status_evaluate_ne_reset nowMs
    rw [View.look_since] at hstep
    refine .step _ (View.history_look hhistory level tick nowMs) (fun h => absurd h hreset) ?_
    rw [View.since_of_ne (v := { v with
      toPage := v.toPage.look i level tick nowMs
      stage := .launched nowMs last
      flight := ⟨v.flight.held + holding.toNat, !holding⟩ }) hreset]
    exact hstep
  -- a launched entry has been looked at since its last reset
  | putsBack nowMs last launched idle =>
    have hreset : v.entry.status ≠ .reset := fun h => hunlooked h nowMs last launched
    have hstep : (v.since told).EntryStep law i _ := .putsBack _ nowMs last launched idle
    obtain ⟨hback, htold, hreset'⟩ := Page.putBack_of_ne hreset told i nowMs last
    rw [View.since_of_ne hreset] at hstep
    simp only [hback] at hstep
    refine .step told (htold.trans hhistory) (fun h => absurd h hreset') ?_
    rw [View.since_of_ne hreset, View.since_of_ne hreset']
    exact hstep

end

/-! ## Waiting for the last count -/

section

variable {a : Assignment} {law : Law} {i : EntryId} {v v' : View} {n : Nat}

/-- What is told besides launches leaves the entry waiting for the last count. -/
theorem View.Beyond.tell (h : v.Beyond a n) {e : Event} (he : e.launchMs? = none) :
    View.Beyond a { v with toPage := v.toPage.tell e } n :=
  ⟨h.owner, h.allowed, h.late, h.prompt, h.idle, (launchTimes_cons_of_none he _).trans h.told,
    h.place, h.ready, h.owned, h.due⟩

/-- Before the clock comes to the last count, the entry that waits for it is only interrupted. -/
theorem View.Beyond.step (h : v.Beyond a n) (hstepped : v.EntryStep law i v')
    (hclock : v.nowMs < ceiling) (ht : v.Timed a) : v'.Beyond a n ∨ v'.Interrupted := by
  cases hstepped with
  | passes there nowMs aim gone =>
    exact .inl ⟨h.owner, h.allowed, h.late, h.prompt, h.idle, h.told, h.place, h.ready, h.owned,
      h.due⟩
  | byHand => exact .inr (Or.inr ⟨.controlled i .run, List.mem_cons_self, rfl⟩)
  | begins job label clockUs => exact .inl (h.tell rfl)
  | concludes outcome =>
    cases outcome with
    | exit => exact .inr (Or.inr ⟨.logged (.jobExited i), List.mem_cons_self, rfl⟩)
    | failed reason => exact .inl (h.tell rfl)
    | done => exact .inl h
    | crashed => exact .inl h
  | controls c plain =>
    refine .inr (Or.inr ⟨.controlled i c, ?_, rfl⟩)
    exact (v.toPage.suffix_control i c).subset List.mem_cons_self
  | completes executing => exact absurd (executing.symm.trans h.idle) nofun
  | takesUp allowed held idle =>
    have hnone := h.prompt
    omega
  | drains aim free owned =>
    exact .inl ⟨h.owner, h.allowed, h.late, h.prompt, h.idle, h.told, Or.inr ⟨v.nowMs, rfl⟩,
      h.ready, h.owned, h.due⟩
  | rests level tick nowMs drained idle =>
    obtain ⟨rfl, -⟩ := ht.drained drained
    have hlook := Entry.evaluate_early h.ready (by rw [h.due]; exact hclock)
    have hpage : (v.toPage.look i level tick v.nowMs).rest i v.nowMs (v.entry.evaluate v.nowMs).1
        = (v.toPage.tell (.evaluated i level tick v.nowMs .wait)).place := by
      rw [Page.look_eq hlook, hlook]
      rfl
    rw [hpage]
    exact .inl ⟨h.owner, h.allowed, h.late, h.prompt, h.idle,
      (launchTimes_cons_of_none rfl _).trans h.told, Or.inl rfl, h.ready, h.owned, h.due⟩
  | launches level tick nowMs last holding drained idle runs =>
    -- the look says that it is too early
    obtain ⟨rfl, -⟩ := ht.drained drained
    rw [Entry.evaluate_early h.ready (by rw [h.due]; exact hclock)] at runs
    exact absurd runs nofun
  | putsBack nowMs last launched idle =>
    rcases h.place with hfree | ⟨ms, hdrained⟩
    · exact absurd (launched.symm.trans hfree) nofun
    · exact absurd (launched.symm.trans hdrained) nofun

/-! ## On course -/

/-- The entry is on its plan, or it waits for the last count as its plan goes beyond that. -/
def View.OnCourse (a : Assignment) (v : View) (n : Nat) : Prop := v.OnPlan a n ∨ v.Beyond a n

/-- What becomes of an entry on course before the clock comes to the last count. -/
inductive View.CourseStep (a : Assignment) (v v' : View) (n : Nat) : Prop where
  | stays (onCourse : v'.OnCourse a n)
  /-- It is launched at the tick that its plan says. -/
  | next (onCourse : v'.OnCourse a (n + 1)) (level tick nowMs : Nat)
      (drained : v.stage = .drained level tick nowMs)
      (now : a.clockwork.tickMs level tick = a.plan.launchMs n)
  | interrupted (h : v'.Interrupted)

/-- **Whatever happens to an entry on course**, it stays so, is launched when its plan says, or is
interrupted. -/
theorem View.OnCourse.step (h : v.OnCourse a n) (hstepped : v.EntryStep law i v')
    (hclock : v.nowMs < ceiling) (ht : v.Timed a) : v.CourseStep a v' n := by
  rcases h with hplan | hbeyond
  · cases hplan.step hstepped ht with
    | stays h' => exact .stays (.inl h')
    | next h' level tick nowMs drained now => exact .next (.inl h') level tick nowMs drained now
    | interrupted h' => exact .interrupted h'
    | tooLate more late beyond => exact .stays (.inr (beyond hclock))
  · rcases hbeyond.step hstepped hclock ht with h' | h'
    · exact .stays (.inr h')
    · exact .interrupted h'

/-- The launches so far are ones that the grant allows. -/
theorem View.OnCourse.allowed (h : v.OnCourse a n) : ∀ p < n, a.plan.runs.Allows p := by
  rcases h with hplan | hbeyond
  · exact hplan.allowed
  · exact fun p hp => hbeyond.allowed p (Nat.le_of_lt hp)

theorem View.OnCourse.owner (h : v.OnCourse a n) : v.entry.owner = a.clockwork.id :=
  h.elim (·.owner) (·.owner)

/-- The launches so far are told at the times of the plan. -/
theorem View.OnCourse.told (h : v.OnCourse a n) :
    launchTimes v.history = (List.range n).map a.plan.readingMs := h.elim (·.told) (·.told)

/-- Between commands an entry on course that has a run left is in a slot, and its next launch is
still to come. -/
theorem View.OnCourse.before_launch {w : World} (h : v.OnCourse a n) (hv : w.Seats i v)
    (hw : w.InStep a.clockwork) (hsettled : w.Settled a.clockwork) (hcustody : w.Custody [])
    (hclock : w.nowMs < ceiling) (more : a.plan.runs.Allows n) :
    w.runUs a.clockwork < a.plan.launchMs n * 1000 ∧ v.entry.installed = true := by
  rcases h with hplan | hbeyond
  · exact hplan.before_launch hv hw hsettled hcustody more
  · refine ⟨?_, hbeyond.owned⟩
    have hlaunch := a.plan.dueMs_le_launchMs a.period_pos n
    have hlate := hbeyond.late
    rw [hw.nowMs] at hclock
    omega

/-- At any instant the next launch of an entry on course falls due now or is still to come. -/
theorem View.OnCourse.until_launch {w : World} (h : v.OnCourse a n) (hv : w.Seats i v)
    (hw : w.InStep a.clockwork) (hcustody : w.Custody []) (hclock : w.nowMs < ceiling)
    (more : a.plan.runs.Allows n) : w.runUs a.clockwork ≤ a.plan.launchMs n * 1000 := by
  rcases h with hplan | hbeyond
  · cases hplan.phase with
    | waiting _ more' fits place idle ready owned due inTime =>
      have htick := hv.until_tick hw hcustody hplan.owner owned
      exact Nat.le_trans htick (Nat.mul_le_mul_right 1000 inTime)
    | launched m last isLast place status owned due => exact absurd (place.symm.trans hv.free) nofun
    | ended _ none place idle closed out => exact absurd more none
  · have hlaunch := a.plan.dueMs_le_launchMs a.period_pos n
    have hlate := hbeyond.late
    rw [hw.nowMs] at hclock
    omega

/-- Between commands an entry on course without a run left is closed, and in no slot. -/
theorem View.OnCourse.over {w : World} (h : v.OnCourse a n) (hv : w.Seats i v)
    (hcustody : w.Custody []) (none : ¬ a.plan.runs.Allows n) :
    v.entry.status = .closed ∧ ∀ t level slot, w.timer = some t → ¬ t.SlotHas level slot i := by
  rcases h with hplan | hbeyond
  · exact hplan.over hv hcustody none
  · exact absurd (hbeyond.allowed n (Nat.le_refl n)) none

/-- An entry at its start is on course. -/
theorem View.AtStart.onCourse (h : v.AtStart a) : v.OnCourse a 0 := by
  by_cases hfits : a.plan.dueMs 0 ≤ ceiling
  · exact .inl (h.onPlan hfits)
  · exact .inr (h.beyond (Nat.lt_of_not_le hfits))

/-! ## Steady courses -/

/-- Since a point of its history an entry has kept to its plan, or something came in between. -/
inductive Moment.Pursues (a : Assignment) (i : EntryId) (before : List Event) (m : Moment) :
    Prop where
  | onCourse (v : View) (n : Nat) (told : List Event) (seen : m.view i = some v)
      (history : v.history = told ++ before) (unlooked : v.Unlooked)
      (onCourse : (v.since told).OnCourse a n)
      (past : ∀ p < n, a.plan.launchMs p * 1000 ≤ m.world.runUs a.clockwork)
  | interrupted (v : View) (told : List Event) (seen : m.view i = some v)
      (history : v.history = told ++ before) (h : (v.since told).Interrupted)

variable {m m' : Moment} {before : List Event}

/-- An entry that waits for the first launch of a plan takes up the plan. -/
theorem View.AtStart.pursues {told : List Event} (hv : m.view i = some v)
    (hhistory : v.history = told ++ before) (h : (v.since told).AtStart a) :
    m.Pursues a i before := by
  have hfree : v.stage = .free := h.free
  refine .onCourse v 0 told hv hhistory (fun _ nowMs last hlaunched => ?_) h.onCourse
    fun p hp => absurd hp (Nat.not_lt_zero p)
  exact absurd (hlaunched.symm.trans hfree) nofun

/-- The timer and its clock are the same since a point. -/
theorem View.Timed.since (h : v.Timed a) (told : List Event) : (v.since told).Timed a :=
  ⟨h.aim, h.drained, h.launched⟩

/-- The launch happens at the tick in progress, which falls due now. -/
theorem Moment.InStep.launch_time (hm : m.InStep a.clockwork) (hv : m.view i = some v)
    {level tick nowMs : Nat} (drained : v.stage = .drained level tick nowMs)
    (now : a.clockwork.tickMs level tick = a.plan.launchMs n) :
    a.plan.launchMs n * 1000 = m.world.runUs a.clockwork := by
  obtain ⟨-, hstage, -⟩ := Moment.view_eq_some.1 hv
  obtain ⟨s, hs, rfl, rfl, -⟩ := Moment.sweep_of_drained (hstage.symm.trans drained)
  obtain ⟨-, hrun⟩ := hm.sweep hs
  rw [hrun, now]

theorem Move.clock_le {takes : EntryId → Prop} (h : Move (.steady takes) m m') {k : Clockwork}
    (hm : m.InStep k) : m.world.nowMs ≤ m'.world.nowMs := by
  have hrun := h.runUs_le k
  rw [hm.world.nowMs, (h.inStep hm).world.nowMs]
  omega

/-- The clock of the timer never goes back over a run. Induction on the moves. -/
theorem Moves.clock_le {takes : EntryId → Prop} (h : Moves (.steady takes) m m') {k : Clockwork}
    (hm : m.InStep k) : m.world.nowMs ≤ m'.world.nowMs := by
  induction h with
  | refl => exact Nat.le_refl _
  | tail hmoves hmove ih => exact Nat.le_trans ih (hmove.clock_le (Moves.inStep hmoves hm))

/-- **Every move of a steady course keeps an entry on a plan that it took up**, unless something
comes in between. -/
theorem Move.pursues (h : Move (.steady (· ≠ i)) m m') (hm : m.InStep a.clockwork)
    (hcustody : m.world.Custody m.hand) (hclock : m.world.nowMs < ceiling)
    (hp : m.Pursues a i before) : m'.Pursues a i before := by
  have hrun := h.runUs_le a.clockwork
  have hlives := h.lives hcustody i
  cases hp with
  | interrupted v told seen history hv =>
    -- once interrupted, always interrupted: what was told stays told
    obtain ⟨v', hv', hstepped⟩ := hlives.step seen
    obtain ⟨more, hmore⟩ := hstepped.suffix
    refine .interrupted v' (more ++ told) hv' (by rw [← hmore, history, List.append_assoc]) ?_
    rcases hv with hheld | ⟨e, he, hinterferes⟩
    · exact Or.inl (Nat.le_trans hheld (hstepped.held_le fun hne => hne rfl))
    · exact Or.inr ⟨e, List.mem_append_right _ he, hinterferes⟩
  | onCourse v n told seen history unlooked onCourse past =>
    -- launches that fell due have done so for ever, as the clock does not go back
    have hpast : ∀ p < n, a.plan.launchMs p * 1000 ≤ m'.world.runUs a.clockwork :=
      fun p hp => Nat.le_trans (past p hp) hrun
    obtain ⟨v', hv', hstepped⟩ := hlives.step seen
    cases hstepped.since history unlooked with
    | interferes told' history' hinterferes =>
      exact .interrupted v' told' hv' history' (Or.inr hinterferes)
    | step told' history' unlooked' step =>
      have hnow : v.nowMs = m.world.nowMs :=
        (World.page_eq_some.1 (Moment.view_eq_some.1 seen).1).2.2.2.1
      have ht := (hm.timed seen).since told
      rw [← hnow] at hclock
      cases onCourse.step step hclock ht with
      | stays onCourse' => exact .onCourse v' n told' hv' history' unlooked' onCourse' hpast
      | next onCourse' level tick nowMs drained now =>
        refine .onCourse v' (n + 1) told' hv' history' unlooked' onCourse' fun p hp => ?_
        rcases Nat.lt_succ_iff_lt_or_eq.1 hp with hbefore | rfl
        · exact hpast p hbefore
        · exact Nat.le_trans (Nat.le_of_eq (hm.launch_time seen drained now)) hrun
      | interrupted h' => exact .interrupted v' told' hv' history' h'

/-- **A steady course keeps an entry on a plan that it took up.** Induction on the moves; each of
them is before the last count, since the clock does not go back. -/
theorem Moves.pursues (h : Moves (.steady (· ≠ i)) m m') (harises : m.Arises)
    (hm : m.InStep a.clockwork) (hclock : m'.world.nowMs < ceiling)
    (hp : m.Pursues a i before) : m'.Pursues a i before := by
  induction h with
  | refl => exact hp
  | tail hmoves hmove ih =>
    have hbefore : Moment.Arises _ := harises.trans (Moves.free hmoves)
    have hstep := Moves.inStep hmoves hm
    have hclock' := Nat.lt_of_le_of_lt (hmove.clock_le hstep) hclock
    exact hmove.pursues hstep hbefore.custody hclock' (ih hclock')

/-- An entry that nobody interferes with is on course. -/
theorem Moment.Pursues.undisturbed (h : m.Pursues a i before) (hheld : i ∉ m.world.held)
    {new : List Event} (hhistory : m.world.history i = new ++ before)
    (hcalm : ∀ e ∈ new, e.interferes = false) :
    ∃ v n, m.view i = some v ∧ (v.since new).OnCourse a n
      ∧ ∀ p < n, a.plan.launchMs p * 1000 ≤ m.world.runUs a.clockwork := by
  -- what the view tells since the point is what the world tells
  have hnew : ∀ {v : View} {told : List Event}, m.view i = some v →
      v.history = told ++ before → told = new := by
    intro v told seen history
    have hsame := (World.page_eq_some.1 (Moment.view_eq_some.1 seen).1).2.1
    exact List.append_cancel_right (history.symm.trans (hsame.trans hhistory))
  cases h with
  | interrupted v told seen history hv =>
    obtain rfl := hnew seen history
    rcases hv with hone | ⟨e, he, hinterferes⟩
    · have hflight : v.flight.held = m.world.held.count i :=
        congrArg Flight.held (Moment.view_eq_some.1 seen).2.2
      exact absurd (List.count_pos_iff.1 (hflight ▸ hone)) hheld
    · exact absurd (hinterferes.symm.trans (hcalm e he)) nofun
  | onCourse v n told seen history unlooked onCourse past =>
    obtain rfl := hnew seen history
    exact ⟨v, n, seen, onCourse, past⟩

/-- **What becomes of an entry that keeps to a plan.** Between commands the launches that have come
were made, and no other one. With a run left the entry waits in a slot, and without one it is over
and in no slot. -/
theorem Moment.Pursues.outcome {w : World} (h : Moment.Pursues a i before ⟨w, none, none⟩)
    (hw : w.InStep a.clockwork) (hsettled : w.Settled a.clockwork) (hcustody : w.Custody [])
    (hclock : w.nowMs < ceiling) (hheld : i ∉ w.held) {new : List Event}
    (hhistory : w.history i = new ++ before) (hcalm : ∀ e ∈ new, e.interferes = false) :
    ∃ e n, w.entries[i]? = some e ∧ e.owner = a.clockwork.id
      ∧ launchTimes new = (List.range n).map a.plan.launchMs
      ∧ (∀ p, p < n ↔ a.plan.runs.Allows p
          ∧ a.plan.launchMs p * 1000 ≤ w.runUs a.clockwork)
      ∧ (a.plan.runs.Allows n → e.installed = true)
      ∧ (¬ a.plan.runs.Allows n → e.status = .closed
          ∧ ∀ t level slot, w.timer = some t → ¬ t.SlotHas level slot i) := by
  obtain ⟨v, n, seen, onCourse, past⟩ := h.undisturbed hheld hhistory hcalm
  have hentry := (World.page_eq_some.1 (Moment.view_eq_some.1 seen).1).1
  -- the entry lies where it would lie if the reset had been looked at
  have hseats : w.Seats i (v.since new) :=
    ⟨⟨v.entry, hentry, v.entry.seat_settleReset.symm⟩, (Moment.view_eq_some.1 seen).2.1⟩
  have hnext := onCourse.before_launch hseats hw hsettled hcustody hclock
  have hiff := a.launched_iff onCourse.allowed past fun more => (hnext more).1
  have howner : v.entry.owner = a.clockwork.id :=
    (congrArg (·.1) v.entry.seat_settleReset).symm.trans onCourse.owner
  refine ⟨v.entry, n, hentry, howner, ?_, hiff, fun more => ?_, fun none => ?_⟩
  · -- the clock has not come to the last count, so it reads what it should
    rw [hw.nowMs] at hclock
    have htold : launchTimes new = (List.range n).map a.plan.readingMs :=
      View.OnCourse.told onCourse
    rw [htold]
    apply List.map_congr_left
    intro p hp
    have hcome : a.plan.launchMs p * 1000 ≤ w.runUs a.clockwork := past p (List.mem_range.1 hp)
    unfold Plan.readingMs
    omega
  · exact (congrArg (·.2.1) v.entry.seat_settleReset).symm.trans (hnext more).2
  · obtain ⟨hclosed, hout⟩ := onCourse.over hseats hcustody none
    exact ⟨Entry.settleReset_closed.1 hclosed, hout⟩

end

end TimingWheel
