import TimingWheel.Proofs.Life

/-!
# Singletons never overlap

The status of an entry is rewritten while an execution of it is in flight, so what keeps a singleton
from overlapping itself is the count of executions in flight alone. It is an exact count.

* **`View.Exclusive`** — the invariant: the count is what the history tells, the flag is what the
  history tells last, and the history tells of no launch that the flag forbids.
* **`View.EntryStep.exclusive`** — whatever happens to an entry keeps it.
* **`singleton_exclusive`** — what it says about runs of the world.
-/

namespace TimingWheel

/-! ## What a history tells of executions -/

namespace Event

/-- Whether a tick launches an execution. -/
def isLaunch : Event → Bool
  | .evaluated _ _ _ _ (.run _) => true
  | _ => false

/-- Whether a launched execution ends. -/
def isCompletion : Event → Bool
  | .completed _ => true
  | _ => false

/-- Whether overlapping executions are forbidden from now on, if that is what the event is about. -/
def singleton? : Event → Option Bool
  | .controlled _ (.setSingleton on) => some on
  | .logged (.entryAdded _ _ on _ _) => some on
  | _ => none

/-- The event says nothing about executions and whether they may overlap. -/
structure Idle (e : Event) : Prop where
  launch : e.isLaunch = false
  completion : e.isCompletion = false
  flag : e.singleton? = none

end Event

/-- Executions that a history tells were launched. -/
def launchCount (history : List Event) : Nat := history.countP Event.isLaunch

/-- Executions that a history tells have ended. -/
def completionCount (history : List Event) : Nat := history.countP Event.isCompletion

/-- Whether overlapping executions are forbidden after a history. -/
def overlapForbidden (history : List Event) : Bool := (history.findSome? Event.singleton?).getD true

/-- No execution was launched while overlapping was forbidden and another one had not ended. -/
def Apart : List Event → Prop
  | [] => True
  | e :: before => (e.isLaunch = true → overlapForbidden before = true →
      launchCount before = completionCount before) ∧ Apart before

theorem launchCount_append (after before : List Event) :
    launchCount (after ++ before) = launchCount after + launchCount before := List.countP_append

theorem completionCount_append (after before : List Event) :
    completionCount (after ++ before) = completionCount after + completionCount before :=
  List.countP_append

/-- Overlapping stays forbidden as long as nobody allows it. -/
theorem overlapForbidden_append {after before : List Event} (h : overlapForbidden before = true)
    (hnever : ∀ e ∈ after, e.singleton? ≠ some false) :
    overlapForbidden (after ++ before) = true := by
  unfold overlapForbidden at *
  rw [List.findSome?_append]
  cases hfind : after.findSome? Event.singleton? with
  | none => exact h
  | some on =>
    obtain ⟨e, he, hon⟩ := List.exists_of_findSome?_eq_some hfind
    cases on with
    | true => rfl
    | false => exact absurd hon (hnever e he)

/-- No launch of an earlier part of the history was a forbidden one either. -/
theorem Apart.of_append {after before : List Event} (h : Apart (after ++ before)) :
    Apart before := by
  induction after with
  | nil => exact h
  | cons e after ih => exact ih h.2

/-- While overlapping is forbidden all along, there is one launch without an end at most. -/
theorem Apart.launchCount_le {history : List Event} (h : Apart history)
    (hnever : ∀ e ∈ history, e.singleton? ≠ some false) :
    launchCount history ≤ completionCount history + 1 := by
  induction history with
  | nil => exact Nat.zero_le _
  | cons e before ih =>
    have hbefore : ∀ e ∈ before, e.singleton? ≠ some false :=
      fun e he => hnever e (List.mem_cons_of_mem _ he)
    have hforbidden : overlapForbidden before = true := by
      rw [← List.append_nil before]
      exact overlapForbidden_append rfl hbefore
    have hrest := ih h.2 hbefore
    have hall := h.1
    simp only [launchCount, completionCount, List.countP_cons] at hrest hall ⊢
    cases he : e.isLaunch with
    | false =>
      simp only [Bool.false_eq_true, if_false]
      omega
    | true =>
      have hone := hall he hforbidden
      simp only [if_true]
      omega

/-- Events that say nothing about executions change nothing of this. -/
theorem idle_append {events : List Event} (before : List Event) (h : ∀ e ∈ events, e.Idle) :
    launchCount (events ++ before) = launchCount before
    ∧ completionCount (events ++ before) = completionCount before
    ∧ overlapForbidden (events ++ before) = overlapForbidden before
    ∧ (Apart before → Apart (events ++ before)) := by
  induction events with
  | nil => exact ⟨rfl, rfl, rfl, id⟩
  | cons e events ih =>
    obtain ⟨hlaunches, hcompletions, hexclusive, hapart⟩ :=
      ih fun e he => h e (List.mem_cons_of_mem _ he)
    have hidle := h e List.mem_cons_self
    refine ⟨?_, ?_, ?_, fun hbefore => ⟨fun hlaunch => ?_, hapart hbefore⟩⟩
    · rw [← hlaunches]
      simp [launchCount, hidle.launch]
    · rw [← hcompletions]
      simp [completionCount, hidle.completion]
    · rw [← hexclusive]
      simp [overlapForbidden, hidle.flag]
    · simp [hidle.launch] at hlaunch

/-! ## What has nothing to do with executions -/

/-- A page tells nothing more about executions than another one. -/
structure Page.Calm (p p' : Page) : Prop where
  singleton : p'.entry.singleton = p.entry.singleton
  inFlight : p'.entry.inFlight = p.entry.inFlight
  told : ∃ events, p'.history = events ++ p.history ∧ ∀ e ∈ events, e.Idle

namespace Page

variable {p p' p'' : Page}

theorem Calm.refl (p : Page) : p.Calm p := ⟨rfl, rfl, [], rfl, by simp⟩

theorem Calm.trans (h : p.Calm p') (h' : p'.Calm p'') : p.Calm p'' := by
  obtain ⟨events, htold, hidle⟩ := h.told
  obtain ⟨events', htold', hidle'⟩ := h'.told
  refine ⟨h'.singleton.trans h.singleton, h'.inFlight.trans h.inFlight, events' ++ events, ?_, ?_⟩
  · rw [htold', htold, List.append_assoc]
  · intro e he
    rcases List.mem_append.1 he with he | he
    · exact hidle' e he
    · exact hidle e he

theorem Calm.tell (h : p.Calm p') {e : Event} (he : e.Idle) : p.Calm (p'.tell e) :=
  h.trans ⟨rfl, rfl, [e], rfl, fun e' he' => by rwa [List.mem_singleton.1 he']⟩

theorem Calm.log (h : p.Calm p') {line : LogLine} (hl : (Event.logged line).Idle) :
    p.Calm (p'.log line) := h.tell hl

theorem Calm.modify (h : p.Calm p') {f : Entry → Entry}
    (hs : (f p'.entry).singleton = p'.entry.singleton)
    (hf : (f p'.entry).inFlight = p'.entry.inFlight) : p.Calm (p'.modify f) :=
  h.trans ⟨hs, hf, [], rfl, by simp⟩

/-- The way back into a slot says nothing about executions. -/
theorem Calm.reinstall (h : p.Calm p') (i : EntryId) :
    p.Calm (p'.reinstall i) := by
  unfold Page.reinstall
  split
  · exact ((h.modify rfl rfl).log ⟨rfl, rfl, rfl⟩).modify rfl rfl
  · exact h

theorem Calm.release (h : p.Calm p') (i : EntryId) :
    p.Calm (p'.release i) := by
  unfold Page.release
  split
  · exact (h.modify rfl rfl).reinstall i
  · exact h.modify rfl rfl

/-- What a tick does with an entry after its launch says nothing about executions. -/
theorem Calm.putBack (h : p.Calm p') (i : EntryId) (nowMs : Nat) (last : Bool) :
    p.Calm (p'.putBack i nowMs last) := by
  unfold Page.putBack
  split
  · exact h.release i
  · exact (h.modify rfl rfl).modify rfl rfl

theorem Calm.rest (h : p.Calm p') (i : EntryId) (nowMs : Nat)
    (verdict : Verdict) : p.Calm (p'.rest i nowMs verdict) := by
  cases verdict with
  | drop => exact h.release i
  | wait => exact h.modify rfl rfl
  | skip => exact (h.modify rfl rfl).modify rfl rfl
  | run last => exact h

/-- The end of a body is not the end of its execution: the count goes down after it. -/
theorem Calm.conclude (h : p.Calm p') (i : EntryId) (outcome : Outcome) :
    p.Calm (p'.conclude i outcome) := by
  cases outcome with
  | exit => exact (h.modify rfl rfl).log ⟨rfl, rfl, rfl⟩
  | failed reason => exact h.log ⟨rfl, rfl, rfl⟩
  | done => exact h
  | crashed => exact h

/-- Controls other than the one that sets the flag leave the executions and the flag alone. -/
theorem calm_control (p : Page) (i : EntryId) {c : Control}
    (hc : ∀ on, c ≠ .setSingleton on) : p.Calm (p.control i c) := by
  have htell : p.Calm (p.tell (.controlled i c)) := by
    refine (Calm.refl p).tell ⟨rfl, rfl, ?_⟩
    cases c with
    | setSingleton on => exact absurd rfl (hc on)
    | _ => rfl
  -- the other controls have to do with neither the flag nor executions
  cases c with
  | stop =>
    simp only [Page.control]
    split
    · exact htell
    · refine (htell.modify ?_ ?_).log ⟨rfl, rfl, rfl⟩ <;>
        · unfold Entry.stop
          split <;> rfl
  | start =>
    simp only [Page.control]
    split
    · refine ((htell.modify ?_ ?_).log ⟨rfl, rfl, rfl⟩).reinstall i <;>
        · unfold Entry.start
          split <;> rfl
    · exact htell
  | reset => exact ((htell.modify rfl rfl).log ⟨rfl, rfl, rfl⟩).reinstall i
  | close =>
    simp only [Page.control]
    split
    · exact htell
    · exact (htell.modify rfl rfl).log ⟨rfl, rfl, rfl⟩
  | run => exact htell
  | setRuns runs => exact htell.modify rfl rfl
  | setSingleton on => exact absurd rfl (hc on)

end Page

namespace Entry

variable {e : Entry} {nowMs : Nat}

theorem singleton_complete (e : Entry) : e.complete.singleton = e.singleton := by
  unfold complete
  simp only
  split
  · rfl
  · split <;> rfl

/-- The end of an execution takes one from the count in flight. -/
theorem inFlight_complete (e : Entry) : e.complete.inFlight = e.inFlight - 1 := by
  unfold complete
  simp only
  split
  · rfl
  · split <;> rfl

/-- A reset that has waited for the wheels leaves the executions alone. -/
theorem executions_settleReset (e : Entry) :
    e.settleReset.singleton = e.singleton ∧ e.settleReset.inFlight = e.inFlight := by
  unfold settleReset
  split <;> exact ⟨rfl, rfl⟩

/-- A look that launches nothing leaves the executions alone. The claim of a run is withdrawn
where no run is left, so the count is the one before. -/
theorem executions_evaluate (e : Entry) (idle : ∀ last, (e.evaluate nowMs).1 ≠ .run last) :
    (e.evaluate nowMs).2.singleton = e.singleton ∧ (e.evaluate nowMs).2.inFlight = e.inFlight := by
  have hlook := e.evaluated nowMs
  generalize e.evaluate nowMs = look at hlook idle
  cases hlook with
  | ended closed => exact ⟨rfl, rfl⟩
  | early alive wait => exact e.executions_settleReset
  | suspended stopped due => exact ⟨rfl, rfl⟩
  | busy alive due active singleton inFlight => exact e.executions_settleReset
  | spent alive due active none => exact ⟨rfl, rfl⟩
  | launched alive due active free rest left => exact absurd rfl (idle _)

/-- A launch counts one execution more, and a singleton had none before. -/
theorem executions_evaluate_run (e : Entry) {last : Bool}
    (runs : (e.evaluate nowMs).1 = .run last) :
    (e.evaluate nowMs).2.singleton = e.singleton
    ∧ (e.evaluate nowMs).2.inFlight = e.inFlight + 1
    ∧ (e.singleton = true → e.inFlight = 0) := by
  obtain ⟨-, hfree, -, rest, -, hentry⟩ := Entry.launch_of_run runs
  rw [hentry]
  exact ⟨rfl, rfl, hfree⟩

end Entry

/-! ## The invariant -/

/-- The count of executions in flight and the flag are what the history tells, and the history tells
of no launch that the flag forbids. -/
structure View.Exclusive (v : View) : Prop where
  flag : v.entry.singleton = overlapForbidden v.history
  inFlight : v.entry.inFlight = v.unfinished
  balance : launchCount v.history = completionCount v.history + v.unfinished
  apart : Apart v.history

/-- What says nothing about executions keeps the invariant. -/
theorem View.Exclusive.calm {v : View} (h : v.Exclusive) {p : Page} (hp : v.toPage.Calm p)
    (stage : Stage) : View.Exclusive { v with toPage := p, stage := stage } := by
  obtain ⟨events, htold, hidle⟩ := hp.told
  obtain ⟨hlaunches, hcompletions, hexclusive, hapart⟩ := idle_append v.history hidle
  refine ⟨?_, hp.inFlight.trans h.inFlight, ?_, ?_⟩
  · show p.entry.singleton = overlapForbidden p.history
    rw [htold, hexclusive, hp.singleton, h.flag]
  · show launchCount p.history = completionCount p.history + v.unfinished
    rw [htold, hlaunches, hcompletions, h.balance]
  · show Apart p.history
    rw [htold]
    exact hapart h.apart

/-- A new entry has launched nothing, and its flag is the one of the registration. -/
theorem View.Born.exclusive {i : EntryId} {v : View} (h : v.Born i) : v.Exclusive := by
  obtain ⟨r, task, owner, nowMs, aim, rfl⟩ := h
  unfold Page.registered
  refine ⟨?_, ?_, rfl, by simp [Apart, Event.isLaunch]⟩ <;>
    · simp only
      split <;> rfl

/-- An end of an execution is counted on both sides. -/
theorem View.Exclusive.complete {v : View} (h : v.Exclusive) (i : EntryId)
    (executing : v.flight.executing = true) :
    View.Exclusive { v with
      toPage := v.toPage.complete i
      flight := { v.flight with executing := false } } := by
  -- the execution that ends was one of those in flight, and one completion is told
  have hone := Flight.count_of_executing executing
  have hend : View.Exclusive { v with
      toPage := (v.toPage.modify (·.complete)).tell (.completed i)
      flight := { v.flight with executing := false } } := by
    refine ⟨?_, ?_, ?_, fun hlaunch => by simp [Event.isLaunch] at hlaunch, h.apart⟩
    · show v.entry.complete.singleton = overlapForbidden (.completed i :: v.history)
      rw [v.entry.singleton_complete]
      exact h.flag
    · show v.entry.complete.inFlight = v.flight.held
      rw [v.entry.inFlight_complete, h.inFlight, View.unfinished, hone, Nat.add_sub_cancel]
    · have hbalance := h.balance
      show launchCount (.completed i :: v.history)
        = completionCount (.completed i :: v.history) + v.flight.held
      rw [View.unfinished, hone] at hbalance
      simp only [launchCount, completionCount, List.countP_cons, Event.isLaunch,
        Event.isCompletion] at hbalance ⊢
      simp only [Bool.false_eq_true, if_false, if_true]
      omega
  simp only [Page.complete]
  split
  · exact hend.calm ((Page.Calm.refl _).log ⟨rfl, rfl, rfl⟩) v.stage
  · exact hend

/-- A launch is counted on both sides, and the flag did not forbid it. -/
theorem View.Exclusive.launch {v : View} (h : v.Exclusive) (i : EntryId) (level tick : Nat)
    (nowMs : Nat) (last holding : Bool) (idle : v.flight.executing = false)
    (runs : (v.entry.evaluate nowMs).1 = .run last) :
    View.Exclusive { v with
      toPage := v.toPage.look i level tick nowMs
      stage := .launched nowMs last
      flight := ⟨v.flight.held + holding.toNat, !holding⟩ } := by
  have hone := Flight.count_launch holding idle
  obtain ⟨hsingleton, hinFlight, hfree⟩ := v.entry.executions_evaluate_run runs
  have hevent : (v.toPage.look i level tick nowMs).history
      = .evaluated i level tick nowMs (.run last) :: v.history := by
    rw [← runs]
    rfl
  have hbalance := h.balance
  refine ⟨?_, ?_, ?_, ?_⟩
  · show (v.entry.evaluate nowMs).2.singleton
      = overlapForbidden (v.toPage.look i level tick nowMs).history
    rw [hevent, hsingleton]
    exact h.flag
  · show (v.entry.evaluate nowMs).2.inFlight
      = Flight.count ⟨v.flight.held + holding.toNat, !holding⟩
    rw [hinFlight, h.inFlight, hone, View.unfinished]
  · show launchCount (v.toPage.look i level tick nowMs).history
      = completionCount (v.toPage.look i level tick nowMs).history
        + Flight.count ⟨v.flight.held + holding.toNat, !holding⟩
    rw [hevent, hone]
    rw [View.unfinished] at hbalance
    simp only [launchCount, completionCount, List.countP_cons, Event.isLaunch,
      Event.isCompletion] at hbalance ⊢
    simp only [Bool.false_eq_true, if_false, if_true]
    omega
  · show Apart (v.toPage.look i level tick nowMs).history
    rw [hevent]
    refine ⟨fun _ hexclusive => ?_, h.apart⟩
    -- the flag is set, so the launch found no execution in flight
    have hnone := hfree (h.flag.trans hexclusive)
    rw [h.inFlight] at hnone
    rw [hbalance, hnone, Nat.add_zero]

/-- One step of the world keeps the invariant. A launch needs a count of zero if overlapping is
forbidden, so no other execution is unfinished then. -/
theorem View.EntryStep.exclusive {law : Law} {i : EntryId} {v v' : View} (h : v.EntryStep law i v')
    (hv : v.Exclusive) : v'.Exclusive := by
  cases h with
  | passes there nowMs aim gone => exact ⟨hv.flag, hv.inFlight, hv.balance, hv.apart⟩
  | byHand => exact hv.calm ((Page.Calm.refl _).tell ⟨rfl, rfl, rfl⟩) v.stage
  | begins job label clockUs => exact hv.calm ((Page.Calm.refl _).tell ⟨rfl, rfl, rfl⟩) v.stage
  | concludes outcome => exact hv.calm ((Page.Calm.refl _).conclude i outcome) v.stage
  | controls c plain =>
    -- a control sets the flag, or it has no bearing on executions at all
    by_cases hc : ∀ on, c ≠ .setSingleton on
    · exact hv.calm (v.toPage.calm_control i hc) v.stage
    · obtain ⟨on, hon⟩ := Classical.not_forall.1 hc
      rw [Classical.not_not.1 hon]
      exact ⟨rfl, hv.inFlight, hv.balance, fun hlaunch => by simp [Event.isLaunch] at hlaunch,
        hv.apart⟩
  | completes executing => exact hv.complete i executing
  | takesUp allowed held idle =>
    have hsame := Flight.count_takeUp held idle
    exact ⟨hv.flag, hv.inFlight.trans hsame.symm,
      hv.balance.trans (congrArg (completionCount v.history + ·) hsame.symm), hv.apart⟩
  | drains aim free owned => exact ⟨hv.flag, hv.inFlight, hv.balance, hv.apart⟩
  | rests level tick nowMs drained idle =>
    have hlook : v.toPage.Calm (v.toPage.look i level tick nowMs) := by
      obtain ⟨hsingleton, hinFlight⟩ := v.entry.executions_evaluate idle
      refine ((Page.Calm.refl _).modify hsingleton hinFlight).tell ⟨?_, rfl, rfl⟩
      cases hv : (v.entry.evaluate nowMs).1 with
      | run last => exact absurd hv (idle last)
      | _ => rfl
    exact hv.calm (hlook.rest i nowMs _) .free
  | launches level tick nowMs last holding drained idle runs =>
    exact hv.launch i level tick nowMs last holding idle runs
  | putsBack nowMs last launched idle =>
    exact hv.calm ((Page.Calm.refl _).putBack i nowMs last) .free

theorem View.Life.exclusive {i : EntryId} {v : View} (h : v.Life i) : v.Exclusive := by
  induction h with
  | born h => exact h.exclusive
  | step _ step ih => exact step.exclusive ih

/-- What holds of every life holds of the entry in a moment that arises; of an entry that is still
to come there is no history. -/
theorem Moment.Arises.exclusive {m : Moment} (h : m.Arises) (i : EntryId) :
    launchCount (m.world.history i) = completionCount (m.world.history i) + m.unfinished i
    ∧ Apart (m.world.history i)
    ∧ ∀ e, m.world.entries[i]? = some e → e.singleton = overlapForbidden (m.world.history i) := by
  rcases h.lives i with hblank | ⟨v, hv, hlife⟩
  · rw [hblank.history, ← m.count_flight, hblank.flight]
    refine ⟨rfl, trivial, fun e he => ?_⟩
    rw [hblank.entry] at he
    simp at he
  · obtain ⟨hentry, hhistory, -⟩ := World.page_eq_some.1 (Moment.view_eq_some.1 hv).1
    have hexclusive := hlife.exclusive
    rw [← hhistory, ← Moment.unfinished_of_view hv]
    refine ⟨hexclusive.balance, hexclusive.apart, fun e he => ?_⟩
    rw [hentry, Option.some.injEq] at he
    rw [← he]
    exact hexclusive.flag

/-- **A singleton never overlaps itself.** The history of an entry tells how many of its executions
have not ended and whether overlapping is forbidden, which is its flag. No tick launches an
execution while overlapping is forbidden and another one has not ended. So an entry that was never
allowed to overlap has one unfinished execution at most, and an entry that is forbidden to overlap
while some are unfinished gets no new one before as many have ended. -/
theorem singleton_exclusive {m : Moment} (h : m.Arises) (i : EntryId) :
    launchCount (m.world.history i) = completionCount (m.world.history i) + m.unfinished i
    ∧ (∀ e, m.world.entries[i]? = some e → e.singleton = overlapForbidden (m.world.history i))
    ∧ (∀ after level tick nowMs last before,
        m.world.history i = after ++ .evaluated i level tick nowMs (.run last) :: before →
        overlapForbidden before = true → launchCount before = completionCount before)
    ∧ ((∀ e ∈ m.world.history i, e.singleton? ≠ some false) → m.unfinished i ≤ 1)
    ∧ ∀ after level tick nowMs last during before,
        m.world.history i = after ++ .evaluated i level tick nowMs (.run last) :: during ++ before →
        overlapForbidden before = true → (∀ e ∈ during, e.singleton? ≠ some false) →
        launchCount before - completionCount before ≤ completionCount during := by
  obtain ⟨hbalance, hapart, hflag⟩ := h.exclusive i
  have hlaunch : ∀ after level tick nowMs last before,
      m.world.history i = after ++ .evaluated i level tick nowMs (.run last) :: before →
      overlapForbidden before = true → launchCount before = completionCount before := by
    -- overlapping was forbidden when the entry was launched, so nothing was in flight
    intro after level tick nowMs last before hhistory hforbidden
    rw [hhistory] at hapart
    exact hapart.of_append.1 rfl hforbidden
  refine ⟨hbalance, hflag, hlaunch, fun hnever => ?_, ?_⟩
  · have hle := hapart.launchCount_le hnever
    omega
  · intro after level tick nowMs last during before hhistory hforbidden hnever
    rw [List.append_assoc, List.cons_append] at hhistory
    -- between the two launches overlapping stayed forbidden
    have heven := hlaunch after level tick nowMs last (during ++ before) hhistory
      (overlapForbidden_append hforbidden hnever)
    rw [launchCount_append, completionCount_append] at heven
    omega

/-- A singleton of which the first execution is held back while two more ticks come to it. -/
def singletonHeld : World := World.after {}
  [.create { slots := 4, levels := 1, intervalMs := 10 }, .act (.hold true),
    .act (.schedule "a" (.exclusive 10) none [] []), .advance 30000]

/-- Three ticks came to the entry, and it has one execution in flight. -/
theorem singleton_exclusive_while_held :
    (singletonHeld.history 0).countP (fun e => e matches .evaluated ..) = 3
    ∧ launchCount (singletonHeld.history 0) = 1
    ∧ completionCount (singletonHeld.history 0) = 0
    ∧ Moment.unfinished ⟨singletonHeld, none, none⟩ 0 ≤ 1 := by
  have harises : Moment.Arises ⟨singletonHeld, none, none⟩ :=
    ((World.Reachable.fresh 3).after _).arises
  obtain ⟨-, -, -, hone, -⟩ := singleton_exclusive harises 0
  exact ⟨by decide +kernel, by decide +kernel, by decide +kernel, hone (by decide +kernel)⟩

end TimingWheel
