import TimingWheel.Proofs.Clockwork
import TimingWheel.Proofs.Life

/-!
# Entries on their plan

An entry may be put on any level at any phase of that level's ticks, be drained long before it is
due, be handed down through several levels, and be looked at by a coarse level before or after the
finest one comes to the same instant. What all of this has in common is that the wheels look at the
entry no later than at the launch that is next on its plan, and at no other launch time before.

* **`View.OnPlan`** — the invariant: how many launches there were, and where the entry waits for the
  next one.
* **`View.OnPlan.step`** — whatever happens to the entry keeps it, or somebody interferes, or the
  next due time is no count any more.
-/

namespace TimingWheel

/-! ## What a history tells of launches -/

namespace Event

/-- The time of a launch, if the event is one. -/
def launchMs? : Event → Option Nat
  | .evaluated _ _ _ nowMs (.run _) => some nowMs
  | _ => none

/-- Whether somebody controls the entry or its body exits. -/
def interferes : Event → Bool
  | .controlled .. => true
  | .logged (.jobExited _) => true
  | _ => false

end Event

/-- The times of the launches that a history tells of, the earliest first. A launch is a verdict of
a tick. That the body starts with it, or is held back, is `World.dispatch_starts`. -/
def launchTimes (history : List Event) : List Nat := (history.filterMap Event.launchMs?).reverse

theorem launchTimes_cons_of_none {e : Event} (h : e.launchMs? = none) (history : List Event) :
    launchTimes (e :: history) = launchTimes history := by
  rw [launchTimes, List.filterMap_cons_none h, launchTimes]

/-- A launch adds its time to those told. -/
theorem launchTimes_cons_of_some {e : Event} {ms : Nat} (h : e.launchMs? = some ms)
    (history : List Event) : launchTimes (e :: history) = launchTimes history ++ [ms] := by
  rw [launchTimes, List.filterMap_cons_some h, List.reverse_cons, launchTimes]

/-! ## The invariant -/

/-- A job on a timer, and what a naive scheduler with the same base period makes of it. -/
structure Assignment where
  clockwork : Clockwork
  plan : Plan
  period_eq : plan.periodMs = clockwork.config.intervalMs
  interval_pos : 0 < plan.intervalMs

/-- The reading of the timer's clock at a launch. -/
def Plan.readingMs (p : Plan) (n : Nat) : Nat := min (p.launchMs n) ceiling

/-- What the wheels do with an entry of which a number of executions were launched. -/
inductive Entry.Phase (a : Assignment) (e : Entry) (stage : Stage) (executing : Bool) :
    Nat → Prop where
  /-- A slot holds the entry, or the tick that drained the slot has not looked at it yet. -/
  | waiting (n : Nat) (more : a.plan.runs.Allows n) (fits : a.plan.dueMs n ≤ ceiling)
      (place : stage = .free ∨ ∃ nowMs, stage = .drained e.level e.installedTick nowMs)
      (idle : executing = false) (ready : e.status = .ready) (owned : e.installed = true)
      (due : e.dueMs = a.plan.dueMs n)
      (inTime : a.clockwork.tickMs e.level e.installedTick ≤ a.plan.launchMs n) :
      Phase a e stage executing n
  /-- The tick launched an execution and has not dealt with the entry yet. -/
  | launched (n : Nat) (last : Bool) (isLast : last = true ↔ ¬ a.plan.runs.Allows (n + 1))
      (place : stage = .launched (a.plan.readingMs n) last)
      (status : e.status = if executing then .running else if last then .closed else .ready)
      (owned : e.installed = true) (due : e.dueMs = a.plan.dueMs n) :
      Phase a e stage executing (n + 1)
  /-- The wheels gave the entry up, since no run is left. -/
  | ended (n : Nat) (none : ¬ a.plan.runs.Allows n) (place : stage = .free)
      (idle : executing = false) (closed : e.status = .closed) (out : e.installed = false) :
      Phase a e stage executing n

/-- The entry was launched when its plan says, and the wheels deal with it in time for what the plan
says next. -/
structure View.OnPlan (a : Assignment) (v : View) (n : Nat) : Prop where
  intervalMs : v.entry.intervalMs = a.plan.intervalMs
  owner : v.entry.owner = a.clockwork.id
  remaining : v.entry.remaining = a.plan.runs.after n
  allowed : ∀ p < n, a.plan.runs.Allows p
  prompt : v.flight.held = 0
  inFlight : v.entry.inFlight = v.flight.executing.toNat
  told : launchTimes v.history = (List.range n).map a.plan.readingMs
  phase : v.entry.Phase a v.stage v.flight.executing n

/-- Somebody controlled the entry, its body exited, or an execution was held back. -/
def View.Interrupted (v : View) : Prop := 1 ≤ v.flight.held ∨ ∃ e ∈ v.history, e.interferes = true

/-- No held execution is given up, as long as the held executions of the entry stay held. -/
theorem View.EntryStep.held_le {law : Law} {i : EntryId} {v v' : View} (h : v.EntryStep law i v')
    (htakes : ¬ law.takes i) : v.flight.held ≤ v'.flight.held := by
  cases h with
  | takesUp allowed held idle => exact absurd allowed htakes
  | launches level tick nowMs last holding drained idle runs => exact Nat.le_add_right _ _
  | _ => exact Nat.le_refl _

/-- An interruption is never taken back. -/
theorem View.EntryStep.interrupted {law : Law} {i : EntryId} {v v' : View}
    (h : v.EntryStep law i v') (htakes : ¬ law.takes i) (hv : v.Interrupted) : v'.Interrupted := by
  rcases hv with hheld | ⟨e, he, hinterferes⟩
  · exact Or.inl (Nat.le_trans hheld (h.held_le htakes))
  · exact Or.inr ⟨e, h.suffix.subset he, hinterferes⟩

/-! ## Entries on their plan -/

section

variable {a : Assignment} {v : View} {n : Nat}

theorem Assignment.period_pos (a : Assignment) : 0 < a.plan.periodMs := by
  obtain ⟨-, hinterval, -⟩ := TimerConfig.pos_of_validate a.clockwork.valid
  rw [a.period_eq]
  exact hinterval

/-- What is told besides launches keeps an entry on its plan. -/
theorem View.OnPlan.tell (h : v.OnPlan a n) {e : Event} (he : e.launchMs? = none) :
    View.OnPlan a { v with toPage := v.toPage.tell e } n :=
  ⟨h.intervalMs, h.owner, h.remaining, h.allowed, h.prompt, h.inFlight,
    (launchTimes_cons_of_none he _).trans h.told, h.phase⟩

/-- An armed entry that is not due yet waits. -/
theorem Entry.evaluate_early {e : Entry} {nowMs : Nat} (ready : e.status = .ready)
    (wait : nowMs < e.dueMs) : e.evaluate nowMs = (.wait, e) := by
  have hsame : e.settleReset = e := by
    unfold settleReset
    rw [if_neg (by rw [ready]; decide)]
  simp [evaluate, hsame, ready, wait]

/-- An armed entry that is due, with a run left and no execution in flight, is launched. -/
theorem Entry.evaluate_due {e : Entry} {nowMs : Nat} {rest : Runs} (ready : e.status = .ready)
    (due : e.dueMs ≤ nowMs) (free : e.inFlight = 0) (left : e.remaining.consume = some rest) :
    e.evaluate nowMs = (.run (e.remaining = .left 1),
      { e with status := .running, remaining := rest, inFlight := e.inFlight + 1 }) := by
  have hsame : e.settleReset = e := by
    unfold settleReset
    rw [if_neg (by rw [ready]; decide)]
  have hdue : ¬ nowMs < e.dueMs := Nat.not_lt.2 due
  simp [evaluate, hsame, ready, hdue, claim_eq, free, left]

/-- The due time after a launch on plan is the next one of the plan, and it is still to come. -/
theorem Plan.advanceDue {p : Plan} (hinterval : 0 < p.intervalMs) {e : Entry}
    (hms : e.intervalMs = p.intervalMs) (due : e.dueMs = p.dueMs n)
    (fits : p.dueMs (n + 1) ≤ ceiling) :
    (e.advanceDue (p.readingMs n)).dueMs = p.dueMs (n + 1)
      ∧ p.readingMs n < p.dueMs (n + 1) := by
  have hlt := p.launchMs_lt_dueMs hinterval n
  have hreading : p.readingMs n = p.launchMs n :=
    Nat.min_eq_left (Nat.le_of_lt (Nat.lt_of_lt_of_le hlt fits))
  refine ⟨?_, by rw [hreading]; exact hlt⟩
  show (if addCapped e.dueMs e.intervalMs ≤ p.readingMs n then _ else _) = _
  rw [hreading, due, hms]
  rw [p.dueMs_succ n] at fits ⊢
  -- the entry and the plan ask the same: is one interval on still to come
  by_cases hnext : p.launchMs n < p.dueMs n + p.intervalMs
  · rw [if_pos hnext] at fits ⊢
    rw [addCapped_eq fits, if_neg (Nat.not_le.2 hnext)]
  · rw [if_neg hnext] at fits ⊢
    have hpast : p.dueMs n + p.intervalMs ≤ p.launchMs n := Nat.le_of_not_lt hnext
    rw [addCapped_eq (Nat.le_trans hpast (by omega)), if_pos hpast, addCapped_eq fits]

/-- What the clock and the wheels are known to be while something happens to an entry. -/
structure View.Timed (a : Assignment) (v : View) : Prop where
  /-- The wheels look at a placed entry in time. -/
  aim : ∀ {dueMs : Nat}, v.nowMs < dueMs → dueMs ≤ ceiling →
    a.clockwork.tickMs (v.aim (dueMs - v.nowMs)).1 (v.aim (dueMs - v.nowMs)).2
      ≤ roundUp a.plan.periodMs dueMs
  /-- A drained entry is looked at when the tick falls due. -/
  drained : ∀ {level tick nowMs : Nat}, v.stage = .drained level tick nowMs →
    nowMs = v.nowMs ∧ nowMs = min (a.clockwork.tickMs level tick) ceiling
  launched : ∀ {nowMs : Nat} {last : Bool}, v.stage = .launched nowMs last → nowMs = v.nowMs

/-- A drained entry that is due is due at the tick that drained it. -/
theorem View.OnPlan.launches_now (ht : v.Timed a) {level tick nowMs : Nat}
    (drained : v.stage = .drained level tick nowMs) (due : a.plan.dueMs n ≤ nowMs)
    (inTime : a.clockwork.tickMs level tick ≤ a.plan.launchMs n) :
    a.clockwork.tickMs level tick = a.plan.launchMs n := by
  obtain ⟨-, hnow⟩ := ht.drained drained
  apply Nat.le_antisymm inTime
  apply roundUp_le a.period_pos
  · rw [a.period_eq]
    exact a.clockwork.dvd_tickMs level tick
  · rw [hnow] at due
    exact Nat.le_trans due (Nat.min_le_left _ _)

/-! ## Due at the last count -/

/-- The next launch falls due at a time that is no count. The entry waits for the last count there
is instead. -/
structure View.Beyond (a : Assignment) (v : View) (n : Nat) : Prop where
  owner : v.entry.owner = a.clockwork.id
  allowed : ∀ p ≤ n, a.plan.runs.Allows p
  late : ceiling < a.plan.dueMs n
  prompt : v.flight.held = 0
  idle : v.flight.executing = false
  told : launchTimes v.history = (List.range n).map a.plan.readingMs
  place : v.stage = .free
    ∨ ∃ nowMs, v.stage = .drained v.entry.level v.entry.installedTick nowMs
  ready : v.entry.status = .ready
  owned : v.entry.installed = true
  due : v.entry.dueMs = ceiling

/-- The entry waits for the first launch of its plan. -/
structure View.AtStart (a : Assignment) (v : View) : Prop where
  intervalMs : v.entry.intervalMs = a.plan.intervalMs
  owner : v.entry.owner = a.clockwork.id
  remaining : v.entry.remaining = a.plan.runs
  more : a.plan.runs.Allows 0
  free : v.stage = .free
  flight : v.flight = ⟨0, false⟩
  inFlight : v.entry.inFlight = 0
  told : launchTimes v.history = []
  ready : v.entry.status = .ready
  owned : v.entry.installed = true
  due : v.entry.dueMs = min (a.plan.dueMs 0) ceiling
  inTime : a.plan.dueMs 0 ≤ ceiling →
    a.clockwork.tickMs v.entry.level v.entry.installedTick ≤ a.plan.launchMs 0

/-- An entry at its start is on its plan, if the first due time is a count. -/
theorem View.AtStart.onPlan (h : v.AtStart a) (fits : a.plan.dueMs 0 ≤ ceiling) : v.OnPlan a 0 :=
  ⟨h.intervalMs, h.owner, h.remaining.trans a.plan.runs.after_zero.symm,
    fun _ hp => absurd hp (Nat.not_lt_zero _), congrArg Flight.held h.flight,
    by rw [h.inFlight, h.flight]; rfl, h.told,
    .waiting 0 h.more fits (Or.inl h.free) (congrArg Flight.executing h.flight) h.ready h.owned
      (h.due.trans (Nat.min_eq_left fits)) (h.inTime fits)⟩

/-- Otherwise it waits for the last count. -/
theorem View.AtStart.beyond (h : v.AtStart a) (late : ceiling < a.plan.dueMs 0) : v.Beyond a 0 :=
  ⟨h.owner, fun _ hp => h.more.mono hp, late, congrArg Flight.held h.flight,
    congrArg Flight.executing h.flight, h.told, Or.inl h.free, h.ready, h.owned,
    h.due.trans (Nat.min_eq_right (Nat.le_of_lt late))⟩

/-- The due time after a launch is the last count, if that of the plan is none. -/
theorem Plan.advanceDue_late {p : Plan} {e : Entry} (hms : e.intervalMs = p.intervalMs)
    (due : e.dueMs = p.dueMs n) (late : ceiling < p.dueMs (n + 1))
    (hclock : p.readingMs n < ceiling) : (e.advanceDue (p.readingMs n)).dueMs = ceiling := by
  have hreading : p.readingMs n = p.launchMs n := by
    unfold readingMs at hclock ⊢
    omega
  show (if addCapped e.dueMs e.intervalMs ≤ p.readingMs n then _ else _) = _
  rw [hreading] at hclock ⊢
  rw [due, hms]
  rw [p.dueMs_succ n] at late
  unfold addCapped
  split at late <;> split <;> omega

/-! ## Whatever happens -/

/-- What becomes of an entry on its plan. -/
inductive View.PlanStep (a : Assignment) (v v' : View) (n : Nat) : Prop where
  | stays (onPlan : v'.OnPlan a n)
  /-- It is launched at the tick that its plan says. -/
  | next (onPlan : v'.OnPlan a (n + 1)) (level tick nowMs : Nat)
      (drained : v.stage = .drained level tick nowMs)
      (now : a.clockwork.tickMs level tick = a.plan.launchMs n)
  | interrupted (h : v'.Interrupted)
  /-- It is due at a time that is no count, and waits for the last count as long as the clock has
  not come to that. -/
  | tooLate (more : a.plan.runs.Allows n) (late : ceiling < a.plan.dueMs n)
      (beyond : v.nowMs < ceiling → v'.Beyond a n)

/-- A place that is aimed at for a time to come is in time. -/
theorem View.OnPlan.inTime (ht : v.Timed a) {dueMs : Nat} (due : dueMs = a.plan.dueMs n)
    (wait : v.nowMs < dueMs) (fits : a.plan.dueMs n ≤ ceiling) :
    a.clockwork.tickMs (v.aim (dueMs - v.nowMs)).1 (v.aim (dueMs - v.nowMs)).2
      ≤ a.plan.launchMs n := by
  have haim := ht.aim wait (by rw [due]; exact fits)
  rw [due] at haim ⊢
  exact haim

/-- A body that ends keeps the entry on its plan, unless it asks for the end. -/
theorem View.OnPlan.conclude (h : v.OnPlan a n) (i : EntryId) (outcome : Outcome) :
    v.PlanStep a { v with toPage := v.toPage.conclude i outcome } n := by
  cases outcome with
  | exit => exact .interrupted (Or.inr ⟨.logged (.jobExited i), List.mem_cons_self, rfl⟩)
  | failed reason => exact .stays (h.tell rfl)
  | done => exact .stays h
  | crashed => exact .stays h

/-- An execution that ends keeps the entry on its plan: it is ready again, or closed after the
last run, as the plan says. -/
theorem View.OnPlan.complete (h : v.OnPlan a n) (executing : v.flight.executing = true)
    (i : EntryId) : View.OnPlan a { v with
      toPage := v.toPage.complete i
      flight := { v.flight with executing := false } } n := by
  have hend : View.OnPlan a { v with
      toPage := (v.toPage.modify (·.complete)).tell (.completed i)
      flight := { v.flight with executing := false } } n := by
    have hphase := h.phase
    rw [executing] at hphase
    cases hphase with
    | waiting _ more fits place idle ready owned due inTime => simp at idle
    | ended _ none place idle closed out => simp at idle
    | launched m last isLast place status owned due =>
      have hone : v.entry.inFlight = 1 := by rw [h.inFlight, executing]; rfl
      have hrunning : v.entry.status = .running := status
      -- the runs that are left tell whether this launch was the last one
      have hspent : v.entry.remaining.isSpent = last := by
        have hafter := (Runs.isSpent_after (r := a.plan.runs) (n := m + 1)).trans isLast.symm
        rw [h.remaining]
        exact Bool.eq_iff_iff.2 hafter
      have hcomplete : v.entry.complete = { v.entry with
          inFlight := 0, status := if last then .closed else .ready } := by
        unfold Entry.complete
        simp only [hone, hrunning, hspent]
        cases last <;> simp
      refine ⟨?_, ?_, ?_, h.allowed, h.prompt, ?_,
        (launchTimes_cons_of_none rfl _).trans h.told, .launched m last isLast place ?_ ?_ ?_⟩ <;>
          simp only [Page.tell, Page.modify, hcomplete]
      · exact h.intervalMs
      · exact h.owner
      · exact h.remaining
      · rfl
      · rfl
      · exact owned
      · exact due
  simp only [Page.complete]
  split
  · exact hend.tell rfl
  · exact hend

/-- A slot that is emptied keeps the entry on its plan. -/
theorem View.OnPlan.drain (h : v.OnPlan a n) (free : v.stage = .free)
    (owned : v.entry.installed = true) (aim : Nat → Nat × Nat) : View.OnPlan a { v with
      aim := aim
      stage := .drained v.entry.level v.entry.installedTick v.nowMs } n := by
  refine ⟨h.intervalMs, h.owner, h.remaining, h.allowed, h.prompt, h.inFlight, h.told, ?_⟩
  cases h.phase with
  | waiting _ more fits place idle ready owned due inTime =>
    exact .waiting n more fits (Or.inr ⟨v.nowMs, rfl⟩) idle ready owned due inTime
  | launched m last isLast place status owned due =>
    rw [free] at place
    simp at place
  | ended _ none place idle closed out =>
    rw [owned] at out
    simp at out

/-- A look that launches nothing came early, and the entry is put where the next look comes in
time for its plan. -/
theorem View.OnPlan.rest (h : v.OnPlan a n) (ht : v.Timed a) {level tick nowMs : Nat}
    (drained : v.stage = .drained level tick nowMs)
    (rests : ∀ last, (v.entry.evaluate nowMs).1 ≠ .run last) (i : EntryId) :
    View.OnPlan a { v with
      toPage := (v.toPage.look i level tick nowMs).rest i nowMs (v.entry.evaluate nowMs).1
      stage := .free } n := by
  obtain ⟨hnow, -⟩ := ht.drained drained
  cases h.phase with
  | waiting _ more fits place idle ready owned due inTime =>
    have hfree : v.entry.inFlight = 0 := by rw [h.inFlight, idle]; rfl
    have hleft : v.entry.remaining.consume = some (a.plan.runs.after (n + 1)) := by
      rw [h.remaining]
      exact Runs.consume_after more
    -- were it due, it would be launched
    have hwait : nowMs < v.entry.dueMs := by
      apply Nat.lt_of_not_le
      intro hdue
      have hlook := Entry.evaluate_due ready hdue hfree hleft
      exact rests _ (congrArg (·.1) hlook)
    have hlook := Entry.evaluate_early ready hwait
    have hpage : (v.toPage.look i level tick nowMs).rest i nowMs (v.entry.evaluate nowMs).1
        = (v.toPage.tell (.evaluated i level tick nowMs .wait)).place := by
      rw [Page.look_eq hlook, hlook]
      rfl
    rw [hpage]
    rw [hnow] at hwait
    have hplace := View.OnPlan.inTime ht due hwait fits
    exact ⟨h.intervalMs, h.owner, h.remaining, h.allowed, h.prompt, h.inFlight,
      (launchTimes_cons_of_none rfl _).trans h.told,
      .waiting n more fits (Or.inl rfl) idle ready owned due hplace⟩
  | launched m last isLast place status owned due =>
    rw [drained] at place
    simp at place
  | ended _ none place idle closed out =>
    rw [drained] at place
    simp at place

/-- A look that launches comes when the plan says: not before, since the entry would not be due,
and not after, since its slot is emptied in time. -/
theorem View.OnPlan.launch (h : v.OnPlan a n) (ht : v.Timed a) {level tick nowMs : Nat}
    {last holding : Bool} (drained : v.stage = .drained level tick nowMs)
    (runs : (v.entry.evaluate nowMs).1 = .run last) (i : EntryId) :
    v.PlanStep a { v with
      toPage := v.toPage.look i level tick nowMs
      stage := .launched nowMs last
      flight := ⟨v.flight.held + holding.toNat, !holding⟩ } n := by
  cases holding with
  -- an execution that is held back is an interruption
  | true => exact .interrupted (Or.inl (Nat.le_add_left 1 _))
  | false =>
    obtain ⟨-, hnow⟩ := ht.drained drained
    cases h.phase with
    | waiting _ more fits place idle ready owned due inTime =>
      have hfree : v.entry.inFlight = 0 := by rw [h.inFlight, idle]; rfl
      have hleft : v.entry.remaining.consume = some (a.plan.runs.after (n + 1)) := by
        rw [h.remaining]
        exact Runs.consume_after more
      have hdue : v.entry.dueMs ≤ nowMs := by
        apply Nat.le_of_not_lt
        intro hwait
        rw [Entry.evaluate_early ready hwait] at runs
        simp at runs
      have hlook := Entry.evaluate_due ready hdue hfree hleft
      rw [hlook] at runs
      have hlast : last = true ↔ ¬ a.plan.runs.Allows (n + 1) := by
        rw [← Runs.after_eq_one more, ← h.remaining]
        have hdecide : decide (v.entry.remaining = .left 1) = last := by simpa using runs
        rw [← hdecide, decide_eq_true_eq]
      -- the tick that drained the entry is the one that its plan says
      have hhere : a.clockwork.tickMs level tick = a.plan.launchMs n := by
        rcases place with hfreed | ⟨ms, hplace⟩
        · rw [drained] at hfreed
          simp at hfreed
        · rw [drained, Stage.drained.injEq] at hplace
          refine View.OnPlan.launches_now ht drained (by rw [← due]; exact hdue) ?_
          rw [hplace.1, hplace.2.1]
          exact inTime
      have hreading : nowMs = a.plan.readingMs n := by rw [hnow, hhere]; rfl
      refine .next ?_ level tick nowMs drained hhere
      have hverdict : Verdict.run (v.entry.remaining = .left 1) = .run last := runs
      rw [Page.look_eq hlook, hverdict]
      refine ⟨h.intervalMs, h.owner, rfl, fun p hp => ?_, h.prompt, ?_, ?_,
        .launched n last hlast (by rw [hreading]) rfl owned due⟩
      · rcases Nat.lt_succ_iff_lt_or_eq.1 hp with hbefore | rfl
        · exact h.allowed p hbefore
        · exact more
      · show v.entry.inFlight + 1 = _
        rw [hfree]
        rfl
      · show launchTimes (.evaluated i level tick nowMs (.run last) :: v.history) = _
        rw [launchTimes_cons_of_some rfl, h.told, List.range_succ, List.map_append, hreading]
        rfl
    | launched m last isLast place status owned due =>
      rw [drained] at place
      simp at place
    | ended _ none place idle closed out =>
      rw [drained] at place
      simp at place

/-- After a launch the entry is put where its next due time calls for, or given up after the last
run. -/
theorem View.OnPlan.putBack (h : v.OnPlan a n) (ht : v.Timed a) {nowMs : Nat} {last : Bool}
    (stage : v.stage = .launched nowMs last) (idle : v.flight.executing = false) (i : EntryId) :
    v.PlanStep a { v with toPage := v.toPage.putBack i nowMs last, stage := .free } n := by
  have hnow := ht.launched stage
  have hphase := h.phase
  rw [idle] at hphase
  cases hphase with
  | waiting _ more fits place idle ready owned due inTime =>
    rcases place with hfree | ⟨ms, hdrained⟩
    · rw [stage] at hfree
      simp at hfree
    · rw [stage] at hdrained
      simp at hdrained
  | ended _ none place idle closed out =>
    rw [stage] at place
    simp at place
  | launched m last' isLast place status owned due =>
    rw [stage, Stage.launched.injEq] at place
    obtain ⟨hreading, rfl⟩ := place
    unfold Page.putBack
    cases last with
    | true =>
      -- no run is left, and the wheels give the entry up
      have hclosed : v.entry.status = .closed := status
      have hnone : ¬ a.plan.runs.Allows (m + 1) := isLast.1 rfl
      have hrelease : v.toPage.release i = v.toPage.modify (·.release) := by
        unfold Page.release
        rw [if_neg (by rw [hclosed]; decide)]
      rw [if_pos rfl, hrelease]
      exact .stays ⟨h.intervalMs, h.owner, h.remaining, h.allowed, h.prompt, h.inFlight, h.told,
        .ended _ hnone rfl idle hclosed rfl⟩
    | false =>
      have hready : v.entry.status = .ready := status
      have hmore : a.plan.runs.Allows (m + 1) := by
        apply Classical.byContradiction
        intro hnone
        exact absurd (isLast.2 hnone) (by decide)
      -- the due time moves on by one interval, or to one interval from now
      by_cases hfits : a.plan.dueMs (m + 1) ≤ ceiling
      · obtain ⟨hdue, hwait⟩ := Plan.advanceDue a.interval_pos h.intervalMs due hfits
        rw [← hreading, hnow] at hdue hwait
        rw [← hdue] at hwait
        have hplace := View.OnPlan.inTime ht hdue hwait hfits
        rw [if_neg (by decide), hnow]
        exact .stays ⟨h.intervalMs, h.owner, h.remaining, h.allowed, h.prompt, h.inFlight, h.told,
          .waiting _ hmore hfits (Or.inl rfl) idle hready owned hdue hplace⟩
      · have hlate := Nat.lt_of_not_le hfits
        refine .tooLate hmore hlate fun hclock => ?_
        rw [← hnow, hreading] at hclock
        have hdue := Plan.advanceDue_late h.intervalMs due hlate hclock
        rw [← hreading] at hdue
        rw [if_neg (by decide)]
        exact ⟨h.owner, fun p hp => hmore.mono hp, hlate, h.prompt, idle, h.told, Or.inl rfl,
          hready, owned, hdue⟩

/-- **Whatever happens to an entry on its plan**, it stays there, is launched when its plan says, is
interrupted, or is due at a time that is no count. -/
theorem View.OnPlan.step {law : Law} {i : EntryId} {v' : View} (h : v.OnPlan a n)
    (hstepped : v.EntryStep law i v') (ht : v.Timed a) : v.PlanStep a v' n := by
  cases hstepped with
  | passes there nowMs aim gone =>
    exact .stays
      ⟨h.intervalMs, h.owner, h.remaining, h.allowed, h.prompt, h.inFlight, h.told, h.phase⟩
  | byHand => exact .interrupted (Or.inr ⟨.controlled i .run, List.mem_cons_self, rfl⟩)
  | begins job label clockUs => exact .stays (h.tell rfl)
  | concludes outcome => exact h.conclude i outcome
  | controls c plain =>
    refine .interrupted (Or.inr ⟨.controlled i c, ?_, rfl⟩)
    exact (v.toPage.suffix_control i c).subset List.mem_cons_self
  | completes executing => exact .stays (h.complete executing i)
  | takesUp allowed held idle =>
    have hnone := h.prompt
    omega
  | drains aim free owned => exact .stays (h.drain free owned aim)
  | rests level tick nowMs drained rests => exact .stays (h.rest ht drained rests i)
  | launches level tick nowMs last holding drained idle runs => exact h.launch ht drained runs i
  | putsBack nowMs last launched idle => exact h.putBack ht launched idle i

end

end TimingWheel
