import TimingWheel.Proofs.Moment

/-!
# What the operations change

Most operations on a world change entries, the slots of the timer and the journal, and nothing
else; `World.Aside` says so once. What they do to one entry is said by a pair of lemmas each: one
for the entry operated on (`_self`), one for the others (`_other`).

The clockwork of a timer (`Timer.works`) is all of it but its status and the contents of its slots.
-/

namespace TimingWheel

/-- A wheel without its contents. -/
def Wheel.bare (wheel : Wheel) : Wheel := { wheel with slots := #[] }

/-- The clockwork of a timer: number, start and the wheels without their contents. -/
def Timer.works (t : Timer) : Nat × Nat × Array Wheel := (t.id, t.epochUs, t.wheels.map Wheel.bare)

@[simp] theorem Wheel.bare_install (wheel : Wheel) (i : EntryId) (tick : Nat) :
    (wheel.install i tick).bare = wheel.bare := rfl

/-- What is read off every wheel stays where changing one wheel does not change it. -/
theorem map_modify_eq {β : Type} {wheels : Array Wheel} {level : Nat} {f : Wheel → Wheel}
    {g : Wheel → β} (h : ∀ wheel, g (f wheel) = g wheel) :
    (wheels.modify level f).map g = wheels.map g := by
  apply Array.ext_getElem?
  intro j
  rw [Array.getElem?_map, Array.getElem?_map, Array.getElem?_modify]
  split
  · cases wheels[j]? <;> simp [h]
  · rfl

/-- The wheel once a due tick of it has come, the slot of the tick emptied. -/
def Wheel.comeRound (wheel : Wheel) : Wheel :=
  ({ wheel with served := wheel.served + 1 } : Wheel).turn

theorem Timer.modifyWheel_modifyWheel (t : Timer) (level : Nat) (f g : Wheel → Wheel) :
    (t.modifyWheel level f).modifyWheel level g = t.modifyWheel level fun wheel => g (f wheel) := by
  unfold Timer.modifyWheel
  congr 1
  apply Array.ext_getElem?
  intro j
  simp only [Array.getElem?_modify]
  split
  · cases t.wheels[j]? <;> rfl
  · rfl

@[simp] theorem Timer.works_install (t : Timer) (i : EntryId) (level tick : Nat) :
    (t.install i level tick).works = t.works := by
  unfold Timer.install Timer.modifyWheel Timer.works
  simp only [map_modify_eq fun wheel => wheel.bare_install i tick]

/-- The reading of a clock depends on the timer by its clockwork only. -/
theorem Timer.nowMs_of_works {t t' : Timer} (h : t'.works = t.works) (us : Nat) :
    t'.nowMs us = t.nowMs us := by
  have hepoch : t'.epochUs = t.epochUs := congrArg (·.2.1) h
  simp only [Timer.nowMs, hepoch]

/-- What a wheel does with a delay does not depend on its contents. -/
theorem Timer.position_of_works {t t' : Timer} (h : t'.works = t.works) :
    t'.position = t.position := by
  have hwheels : t'.wheels.map Wheel.bare = t.wheels.map Wheel.bare := congrArg (·.2.2) h
  have hspan : ∀ (wheels : Array Wheel) (ms : Nat), Timer.selectLevel wheels ms
      = Timer.selectLevel (wheels.map Wheel.bare) ms := by
    intro wheels ms
    unfold Timer.selectLevel
    rw [Array.findIdx?_map, Array.size_map]
    rfl
  have htarget : ∀ (wheels : Array Wheel) (level ms : Nat),
      (wheels[level]?.map (·.target ms)).getD 0
        = ((wheels.map Wheel.bare)[level]?.map (·.target ms)).getD 0 := by
    intro wheels level ms
    rw [Array.getElem?_map]
    cases wheels[level]? <;> rfl
  funext ms
  unfold Timer.position
  simp only [hspan t'.wheels, htarget t'.wheels, hspan t.wheels, htarget t.wheels, hwheels]

/-! ## Seats

Few changes of an entry have to do with the wheels. -/

/-- Where an entry stands with the wheels. -/
def Entry.seat (e : Entry) : TimerId × Bool × Nat × Nat :=
  (e.owner, e.installed, e.level, e.installedTick)

namespace Entry

@[simp] theorem seat_stop (e : Entry) : e.stop.seat = e.seat := by
  unfold stop
  split <;> rfl

@[simp] theorem seat_start (e : Entry) : e.start.seat = e.seat := by
  unfold start
  split <;> rfl

@[simp] theorem seat_settleReset (e : Entry) : e.settleReset.seat = e.seat := by
  unfold settleReset
  split <;> rfl

/-- A look leaves no reset pending. -/
theorem status_settleReset_ne_reset (e : Entry) : e.settleReset.status ≠ .reset := by
  unfold settleReset
  split
  · simp
  · next hother => exact hother

/-- An execution that is put in flight and withdrawn leaves no trace. -/
theorem withdraw_enter {e e' : Entry} (h : e.enter = some e') : e'.withdraw = e := by
  unfold enter at h
  split at h
  · simp at h
  · rw [← Option.some.inj h]
    rfl

/-- **What the steps of a claim come to.** The execution that was put in flight stays there only if
the entry is armed and has a run left, and nothing else is changed otherwise but that an armed entry
without a run is over. -/
theorem claim_eq (e : Entry) : e.claim
    = if e.singleton = true ∧ e.inFlight ≠ 0 then (.skip, e)
      else if e.status = .closed then (.drop, e)
      else if e.status = .stopped ∨ e.status = .reset then (.skip, e)
      else match e.remaining.consume with
        | none => (.drop, { e with status := .closed })
        | some rest => (.run (e.remaining = .left 1),
            { e with status := .running, remaining := rest, inFlight := e.inFlight + 1 }) := by
  by_cases hbusy : e.singleton = true ∧ e.inFlight ≠ 0
  · have henter : e.enter = none := by simpa [enter] using hbusy
    rw [claim, henter, if_pos hbusy]
  obtain ⟨entered, henter, hentered⟩ :
      ∃ entered, e.enter = some entered ∧ entered = { e with inFlight := e.inFlight + 1 } := by
    refine ⟨_, ?_, rfl⟩
    unfold enter
    rw [if_neg (by simpa using hbusy)]
  have hback := withdraw_enter henter
  have hsame : entered.status = e.status := by rw [hentered]
  rw [claim, henter, if_neg hbusy]
  simp only [hsame, hback]
  -- the status decides before a run is asked for
  cases hstatus : e.status with
  | ready | running =>
    rw [if_neg (by decide), if_neg (by decide), hentered]
    cases e.remaining.consume <;> rfl
  | stopped | reset => rw [if_neg (by decide), if_pos (by decide)]
  | closed => rw [if_pos rfl]

@[simp] theorem seat_claim (e : Entry) : e.claim.2.seat = e.seat := by
  rw [claim_eq]
  split
  · rfl
  · split
    · rfl
    · split
      · rfl
      · cases e.remaining.consume <;> rfl

@[simp] theorem seat_evaluate (e : Entry) (nowMs : Nat) : (e.evaluate nowMs).2.seat = e.seat := by
  unfold evaluate
  simp only
  split
  · exact e.seat_settleReset
  · split
    · exact e.seat_settleReset
    · split
      · exact e.seat_settleReset
      · exact e.settleReset.seat_claim.trans e.seat_settleReset

@[simp] theorem seat_complete (e : Entry) : e.complete.seat = e.seat := by
  unfold complete
  simp only
  split
  · rfl
  · split <;> rfl

theorem owner_of_seat {e e' : Entry} (h : e'.seat = e.seat) : e'.owner = e.owner :=
  congrArg (·.1) h

end Entry

/-! ## The look of a tick -/

/-- What a tick finds when it looks at an entry, and what it makes of it. -/
inductive Entry.Evaluated (e : Entry) (nowMs : Nat) : Verdict × Entry → Prop where
  /-- The entry is over. -/
  | ended (closed : e.status = .closed) : Evaluated e nowMs (.drop, e)
  /-- The entry is not due. -/
  | early (alive : e.status ≠ .closed) (wait : nowMs < e.dueMs) :
      Evaluated e nowMs (.wait, e.settleReset)
  /-- The entry is suspended. -/
  | suspended (stopped : e.status = .stopped) (due : e.dueMs ≤ nowMs) : Evaluated e nowMs (.skip, e)
  /-- The entry is a singleton, and an execution of it has not ended. -/
  | busy (alive : e.status ≠ .closed) (due : e.dueMs ≤ nowMs) (active : e.status ≠ .stopped)
      (singleton : e.singleton = true) (inFlight : e.inFlight ≠ 0) :
      Evaluated e nowMs (.skip, e.settleReset)
  /-- The entry has no run left. -/
  | spent (alive : e.status ≠ .closed) (due : e.dueMs ≤ nowMs) (active : e.status ≠ .stopped)
      (none : e.remaining.consume = none) :
      Evaluated e nowMs (.drop, { e with status := .closed })
  /-- An execution of the entry is launched. -/
  | launched (alive : e.status ≠ .closed) (due : e.dueMs ≤ nowMs) (active : e.status ≠ .stopped)
      (free : e.singleton = true → e.inFlight = 0) (rest : Runs)
      (left : e.remaining.consume = some rest) :
      Evaluated e nowMs (.run (e.remaining = .left 1),
        { e with status := .running, remaining := rest, inFlight := e.inFlight + 1 })

/-- **What a look at an entry finds**, case by case, with what it does to the entry. -/
theorem Entry.evaluated (e : Entry) (nowMs : Nat) : e.Evaluated nowMs (e.evaluate nowMs) := by
  -- a reset entry becomes ready first, which changes neither of the next two answers
  by_cases hclosed : e.status = .closed
  · have hlook : e.evaluate nowMs = (.drop, e) := by simp [evaluate, settleReset, hclosed]
    rw [hlook]
    exact .ended hclosed
  have hclosed' : e.settleReset.status ≠ .closed := by
    unfold settleReset
    split
    · simp
    · exact hclosed
  have hdueMs : e.settleReset.dueMs = e.dueMs := by
    unfold settleReset
    split <;> rfl
  by_cases hdue : nowMs < e.dueMs
  · have hlook : e.evaluate nowMs = (.wait, e.settleReset) := by
      simp [evaluate, hclosed', hdueMs, hdue]
    rw [hlook]
    exact .early hclosed hdue
  by_cases hstopped : e.status = .stopped
  · have hlook : e.evaluate nowMs = (.skip, e) := by simp [evaluate, settleReset, hstopped, hdue]
    rw [hlook]
    exact .suspended hstopped (Nat.le_of_not_lt hdue)
  have hstopped' : e.settleReset.status ≠ .stopped := by
    unfold settleReset
    split
    · simp
    · exact hstopped
  have hlook : e.evaluate nowMs = e.settleReset.claim := by
    simp [evaluate, hclosed', hdueMs, hdue, hstopped']
  obtain ⟨s, hs⟩ : ∃ s, e.settleReset = { e with status := s } := by
    unfold settleReset
    split
    · exact ⟨_, rfl⟩
    · exact ⟨e.status, rfl⟩
  have harmed : ¬ (s = .stopped ∨ s = .reset) := by
    rintro (rfl | rfl)
    · exact hstopped' (congrArg (·.status) hs)
    · exact e.status_settleReset_ne_reset (congrArg (·.status) hs)
  have hopen : s ≠ .closed := fun heq => hclosed' ((congrArg (·.status) hs).trans heq)
  -- the status is overwritten from here on, whatever it is
  rw [hlook, hs, claim_eq]
  simp only [if_neg hopen, if_neg harmed]
  by_cases hbusy : e.singleton = true ∧ e.inFlight ≠ 0
  · rw [if_pos hbusy, ← hs]
    exact .busy hclosed (Nat.le_of_not_lt hdue) hstopped hbusy.1 hbusy.2
  · rw [if_neg hbusy]
    cases hleft : e.remaining.consume with
    | none => exact .spent hclosed (Nat.le_of_not_lt hdue) hstopped hleft
    | some rest =>
      refine .launched hclosed (Nat.le_of_not_lt hdue) hstopped (fun hsingle => ?_) rest hleft
      exact Classical.byContradiction fun hne => hbusy ⟨hsingle, hne⟩

/-- A launch is made of an entry that is due, takes one of its runs and counts one execution more.
No execution of a singleton is in flight before. -/
theorem Entry.launch_of_run {e : Entry} {nowMs : Nat} {last : Bool}
    (runs : (e.evaluate nowMs).1 = .run last) :
    e.dueMs ≤ nowMs ∧ (e.singleton = true → e.inFlight = 0) ∧ (last = true ↔ e.remaining = .left 1)
      ∧ ∃ rest, e.remaining.consume = some rest ∧ (e.evaluate nowMs).2
        = { e with status := .running, remaining := rest, inFlight := e.inFlight + 1 } := by
  have hlook := e.evaluated nowMs
  generalize e.evaluate nowMs = look at hlook runs
  cases hlook with
  | launched alive due active free rest left =>
    have hlast : decide (e.remaining = .left 1) = last := by simpa using runs
    exact ⟨due, free, by rw [← hlast, decide_eq_true_eq], rest, left, rfl⟩
  | _ => simp at runs

/-! ## What events are about -/

/-- The entry that a log line is about. -/
def LogLine.about : LogLine → Option EntryId
  | entryAdded i .. | entryStopped i | entryStarted i | entryReset i _ | entryClosed i
  | entryReinstalled i | jobExited i | jobFailed i _ | runsUsedUp i => some i
  | _ => none

/-- The entry that an event is about. -/
def Event.about : Event → Option EntryId
  | .controlled i _ | .evaluated i .. | .started i .. | .completed i => some i
  | .logged line => line.about

/-- A journal tells more than a world does, but not of entries. -/
def World.Quiet (w : World) (journal : List Event) : Prop :=
  ∃ events, (∀ e ∈ events, e.about = none) ∧ journal = events ++ w.journal

theorem World.quiet_refl (w : World) : w.Quiet w.journal := ⟨[], by simp, rfl⟩

/-- A log line about no entry is told quietly. -/
theorem World.quiet_log (w : World) {line : LogLine} (h : line.about = none) :
    w.Quiet (w.log line).journal :=
  ⟨[.logged line], by simpa [Event.about] using h, rfl⟩

namespace World

/-! ## What stays -/

/-- The clock stands still, and the timer is the same but for the contents of its slots. -/
structure Still (w w' : World) : Prop where
  clockUs : w'.clockUs = w.clockUs
  works : w'.timer.map Timer.works = w.timer.map Timer.works
  status : w'.timer.map (·.status) = w.timer.map (·.status)

/-- The second world differs from the first in its entries, in the slots of its timer and in its
journal only. -/
structure Aside (w w' : World) : Prop extends Still w w' where
  timers : w'.timers = w.timers
  jobs : w'.jobs = w.jobs
  held : w'.held = w.held
  holding : w'.holding = w.holding
  jumpBound : w'.jumpBound = w.jumpBound
  size_le : w.entries.size ≤ w'.entries.size

theorem Still.refl (w : World) : w.Still w := ⟨rfl, rfl, rfl⟩

theorem Still.trans {w w' w'' : World} (h : w.Still w') (h' : w'.Still w'') : w.Still w'' where
  clockUs := h'.clockUs.trans h.clockUs
  works := h'.works.trans h.works
  status := h'.status.trans h.status

theorem Aside.refl (w : World) : w.Aside w := ⟨.refl w, rfl, rfl, rfl, rfl, rfl, Nat.le_refl _⟩

theorem Aside.trans {w w' w'' : World} (h : w.Aside w') (h' : w'.Aside w'') : w.Aside w'' where
  toStill := h.toStill.trans h'.toStill
  timers := h'.timers.trans h.timers
  jobs := h'.jobs.trans h.jobs
  held := h'.held.trans h.held
  holding := h'.holding.trans h.holding
  jumpBound := h'.jumpBound.trans h.jumpBound
  size_le := Nat.le_trans h.size_le h'.size_le

/-- A timer that is there afterwards was there before, with the same clockwork and status. -/
theorem Still.timer_before {w w' : World} (h : w.Still w') {t' : Timer} (ht : w'.timer = some t') :
    ∃ t, w.timer = some t ∧ t'.works = t.works ∧ t'.status = t.status := by
  have hworks := h.works
  have hstatus := h.status
  rw [ht] at hworks hstatus
  cases hw : w.timer with
  | none => simp [hw] at hworks
  | some t =>
    rw [hw] at hworks hstatus
    exact ⟨t, rfl, Option.some.inj hworks, Option.some.inj hstatus⟩

/-- What is read off the timer, its contents left out of account, is the same afterwards. -/
theorem Still.read {β : Type} {w w' : World} (h : w.Still w') {f : Timer → β}
    (hf : ∀ {t t' : Timer}, t'.works = t.works → t'.status = t.status → f t' = f t) :
    w'.timer.map f = w.timer.map f := by
  cases ht : w'.timer with
  | none =>
    have hnone : w.timer = none := by simpa [ht] using h.works.symm
    rw [hnone]
  | some t' =>
    obtain ⟨t, hw, hworks, hstatus⟩ := h.timer_before ht
    rw [hw, Option.map_some, Option.map_some, hf hworks hstatus]

theorem Still.nowMs {w w' : World} (h : w.Still w') : w'.nowMs = w.nowMs := by
  unfold World.nowMs
  rw [h.clockUs, h.read fun hworks _ => Timer.nowMs_of_works hworks w.clockUs]

/-- Where the world stands still, the same timer is there. -/
theorem Still.hasTimer {w w' : World} (h : w.Still w') (id : TimerId) :
    w'.hasTimer id = w.hasTimer id := by
  have hid : w'.timer.map (·.id) = w.timer.map (·.id) :=
    h.read fun hworks _ => congrArg (·.1) hworks
  have hany : ∀ w : World, w.hasTimer id = (w.timer.map (·.id)).any (· == id) := by
    intro w
    unfold World.hasTimer
    rw [Option.any_map]
  rw [hany, hany, hid]

/-- Level and tick at which the timer puts an entry with this delay. -/
def aim (w : World) (remainingMs : Nat) : Nat × Nat :=
  (w.timer.map (·.position remainingMs)).getD (0, 0)

/-- Where the world stands still, a remaining time leads to the same level and tick. -/
theorem Still.aim {w w' : World} (h : w.Still w') : w'.aim = w.aim := by
  funext ms
  unfold World.aim
  rw [h.read fun hworks _ => by rw [Timer.position_of_works hworks]]

theorem tell_aside (w : World) (e : Event) : w.Aside (w.tell e) :=
  ⟨⟨rfl, rfl, rfl⟩, rfl, rfl, rfl, rfl, rfl, Nat.le_refl _⟩

theorem log_aside (w : World) (line : LogLine) : w.Aside (w.log line) := tell_aside w _

theorem modifyEntry_aside (w : World) (i : EntryId) (f : Entry → Entry) :
    w.Aside (w.modifyEntry i f) :=
  ⟨⟨rfl, rfl, rfl⟩, rfl, rfl, rfl, rfl, rfl, Nat.le_of_eq Array.size_modify.symm⟩

theorem place_aside (w : World) (i : EntryId) : w.Aside (w.place i) := by
  unfold place
  split
  · next t e ht he => exact ⟨⟨rfl, by simp [ht], by simp [ht, Timer.install, Timer.modifyWheel]⟩,
      rfl, rfl, rfl, rfl, rfl, Nat.le_of_eq Array.size_modify.symm⟩
  · exact .refl w

/-- The way back into a slot changes nothing but the entry and the slot. -/
theorem reinstall_aside (w : World) (i : EntryId) : w.Aside (w.reinstall i) := by
  unfold reinstall
  split
  · exact .refl w
  · split
    · exact ((modifyEntry_aside w i _).trans (log_aside _ _)).trans (place_aside _ i)
    · exact .refl w

theorem release_aside (w : World) (i : EntryId) : w.Aside (w.release i) := by
  have hgive := modifyEntry_aside w i (·.release)
  unfold release
  simp only
  split
  · exact hgive
  · split
    · exact hgive.trans (reinstall_aside _ i)
    · exact hgive

/-- A registration adds an entry to the world and to a slot, and tells of it. -/
theorem register_aside (w : World) (r : Registration) (task : Task) :
    w.Aside (w.register r task) := by
  unfold register
  split
  · exact .refl w
  · next t ht =>
    have hpush : ∀ e : Entry, w.Aside { w with entries := w.entries.push e } :=
      fun e => ⟨⟨rfl, rfl, rfl⟩, rfl, rfl, rfl, rfl, rfl, by simp⟩
    refine Aside.trans ?_ (log_aside _ _)
    split
    · exact hpush _
    · exact (hpush _).trans (place_aside _ _)

theorem stopEntry_aside (w : World) (i : EntryId) (e : Entry) : w.Aside (w.stopEntry i e) := by
  unfold stopEntry
  split
  · exact .refl w
  · exact (modifyEntry_aside w i _).trans (log_aside _ _)

theorem startEntry_aside (w : World) (i : EntryId) (e : Entry) : w.Aside (w.startEntry i e) := by
  unfold startEntry
  split
  · exact ((modifyEntry_aside w i _).trans (log_aside _ _)).trans (reinstall_aside _ i)
  · exact .refl w

theorem resetEntry_aside (w : World) (i : EntryId) (e : Entry) : w.Aside (w.resetEntry i e) :=
  ((modifyEntry_aside w i _).trans (log_aside _ _)).trans (reinstall_aside _ i)

theorem closeEntry_aside (w : World) (i : EntryId) (e : Entry) : w.Aside (w.closeEntry i e) := by
  unfold closeEntry
  split
  · exact .refl w
  · exact (modifyEntry_aside w i _).trans (log_aside _ _)

/-- Controls of an entry other than `run` change the entry, and a slot if it comes back. -/
theorem control_aside {c : Control} (hc : c ≠ .run) (runTask : EntryId → World → Outcome × World)
    (w : World) (i : EntryId) (e : Entry) : w.Aside (w.control runTask i e c).2 := by
  have htell := tell_aside w (.controlled i c)
  cases c with
  | stop => exact htell.trans (stopEntry_aside _ i e)
  | start => exact htell.trans (startEntry_aside _ i e)
  | reset => exact htell.trans (resetEntry_aside _ i e)
  | close => exact htell.trans (closeEntry_aside _ i e)
  | run => exact absurd rfl hc
  | setRuns runs => exact htell.trans (modifyEntry_aside _ i _)
  | setSingleton on => exact htell.trans (modifyEntry_aside _ i _)

/-- The end of a body changes its entry at most. -/
theorem conclude_aside (w : World) (i : EntryId) (outcome : Outcome) :
    w.Aside (w.conclude i outcome) := by
  cases outcome with
  | exit => exact (modifyEntry_aside w i _).trans (log_aside _ _)
  | failed reason => exact log_aside w _
  | done => exact .refl w
  | crashed => exact .refl w

/-- The end of an execution changes its entry, and a slot if it comes back. -/
theorem complete_aside (w : World) (i : EntryId) : w.Aside (w.complete i) := by
  unfold complete
  split
  · exact .refl w
  · next e he =>
    have hend := (modifyEntry_aside w i (·.complete)).trans (tell_aside _ (.completed i))
    simp only
    split
    · exact hend.trans (log_aside _ _)
    · exact hend

/-- What a tick does with an entry after its launch changes the entry and a slot. -/
theorem puttingBack_aside (w : World) (nowMs : Nat) (i : EntryId) (last : Bool) :
    w.Aside (w.puttingBack nowMs i last) := by
  unfold puttingBack
  split
  · exact release_aside w i
  · exact (modifyEntry_aside w i _).trans (place_aside _ i)

/-- Dealing with an entry that is not launched is a matter of entries, slots and the journal. -/
theorem dispatch_aside {w : World} {i : EntryId} {e : Entry} {nowMs : Nat}
    (he : w.entries[i]? = some e) (rests : ∀ last, (e.evaluate nowMs).1 ≠ .run last)
    (level tick : Nat) : w.Aside (w.dispatch level tick nowMs i) := by
  have hlook : ∀ v, w.Aside ((w.modifyEntry i fun _ => (e.evaluate nowMs).2).tell
      (.evaluated i level tick nowMs v)) :=
    fun v => (w.modifyEntry_aside i _).trans (tell_aside _ _)
  unfold dispatch
  rw [he]
  simp only
  cases hv : (e.evaluate nowMs).1 with
  | drop => exact (hlook _).trans (release_aside _ i)
  | wait => exact (hlook _).trans (place_aside _ i)
  | skip => exact ((hlook _).trans (modifyEntry_aside _ i _)).trans (place_aside _ i)
  | run last => exact absurd hv (rests last)

/-! ## Actions

Running a body by hand is the one action that runs a body. Every other one comes to one of a few
things, whatever handles it names. -/

/-- What performing an action that runs no body comes to. -/
inductive Performed (w : World) : Action → World → Prop where
  /-- Something was asked, or there was nothing to act on. -/
  | nothing (a : Action) : Performed w a w
  /-- An entry was controlled. -/
  | control (handle : String) (i : EntryId) (e : Entry) (c : Control)
      (runTask : EntryId → World → Outcome × World) (known : w.entries[i]? = some e)
      (plain : c ≠ .run) : Performed w (.control handle c) (w.control runTask i e c).2
  /-- A handle was made, moved or dropped. -/
  | handles (a : Action) (handles : List (String × EntryId)) :
      Performed w a { w with handles := handles }
  /-- A job was scheduled. -/
  | schedule (handle : String) (r : Registration) (delayMs : Option Nat) (outcomes : List Outcome)
      (rounds : List (List Action)) :
      Performed w (.schedule handle r delayMs outcomes rounds)
        (w.schedule handle r delayMs { outcomes, rounds })
  /-- The timer was controlled. -/
  | timer (t : Timer) (c : TimerControl) (there : w.timer = some t) :
      Performed w (.timer c) (w.controlTimer t c)
  | jump (us : Nat) : Performed w (.jump us) { w with clockUs := w.clockUs + us }
  | hold (on : Bool) : Performed w (.hold on) { w with holding := on }
  | coarseFirst (on : Bool) : Performed w (.coarseFirst on) { w with coarseFirst := on }

/-- An operation on a handle does nothing unless the handle names an entry. -/
theorem performed_withEntry {w : World} {a : Action} {handle : String}
    {f : EntryId → Entry → Answer × World}
    (h : ∀ i e, w.entries[i]? = some e → Performed w a (f i e).2) :
    Performed w a (w.withEntry handle f).2 := by
  unfold withEntry
  split
  · exact .nothing a
  · next i _ =>
    split
    · exact .nothing a
    · next e he => exact h i e he

/-- **What an action does**, if it does not run a body by hand. -/
theorem performed_perform {a : Action} (plain : ∀ handle, a ≠ .control handle .run)
    (runTask : EntryId → World → Outcome × World) (w : World) :
    Performed w a (w.perform runTask a).2 := by
  cases a with
  | control handle c =>
    have hc : c ≠ .run := fun hc => plain handle (by rw [hc])
    exact performed_withEntry fun i e he => .control handle i e c runTask he hc
  | interval handle => exact performed_withEntry fun _ _ _ => .nothing _
  | dump handle => exact performed_withEntry fun _ _ _ => .nothing _
  | share handle copy => exact performed_withEntry fun _ _ _ => .handles _ _
  | same handle other =>
    refine performed_withEntry fun _ _ _ => ?_
    split <;> exact .nothing _
  | forget handle => exact performed_withEntry fun _ _ _ => .handles _ _
  | schedule handle r delayMs outcomes rounds =>
    simp only [perform]
    cases w.timer with
    | none => exact .nothing _
    | some t => exact .schedule handle r delayMs outcomes rounds
  | timer c =>
    simp only [perform]
    cases ht : w.timer with
    | none => exact .nothing _
    | some t => exact .timer t c ht
  | jump us => exact .jump us
  | hold on => exact .hold on
  | coarseFirst on => exact .coarseFirst on

/-- A change of the timer leaves all else as it is. -/
theorem modifyTimer_eq (w : World) (f : Timer → Timer) :
    w.modifyTimer f = { w with timer := w.timer.map f } := by
  cases w with
  | mk clockUs timer => cases timer <;> rfl

/-- Controls of the timer change its status and are logged. -/
theorem controlTimer_eq (w : World) {t : Timer} (ht : w.timer = some t) (c : TimerControl) :
    ∃ status journal, w.Quiet journal ∧ w.controlTimer t c
      = { w with timer := some { t with status := status }, journal := journal } := by
  have hsame :
      w = { w with timer := some { t with status := t.status }, journal := w.journal } := by
    cases w
    simpa using ht
  unfold controlTimer
  simp only [modifyTimer_eq, ht]
  cases c <;> simp only <;> split <;>
    first
    | exact ⟨_, _, w.quiet_refl, hsame⟩
    | exact ⟨_, _, w.quiet_log rfl, rfl⟩

/-- The world with one job more, for which nothing is registered yet. -/
def withJob (w : World) (label : String) (script : Script) : World :=
  { w with jobs := w.jobs.push { label, script }, jumpBound := w.jumpBound + script.jumps }

/-- Scheduling a job adds it to the jobs, registers an entry and names it. -/
theorem schedule_eq (w : World) (handle : String) (r : Registration) (delayMs : Option Nat)
    (script : Script) : ∃ (r' : Registration) (task : Task) (handles : List (String × EntryId)),
      w.schedule handle r delayMs script
        = { (w.withJob handle script).register r' task with handles := handles } := by
  unfold schedule
  cases delayMs with
  | none => exact ⟨r, .body w.jobs.size, _, rfl⟩
  | some delay => exact ⟨.once delay, .register r w.jobs.size, _, rfl⟩

theorem schedule_jobs (w : World) (handle : String) (r : Registration) (delayMs : Option Nat)
    (script : Script) :
    (w.schedule handle r delayMs script).jobs = w.jobs.push { label := handle, script } := by
  obtain ⟨r', task, handles, heq⟩ := w.schedule_eq handle r delayMs script
  rw [heq]
  exact (register_aside _ _ _).jobs

theorem Performed.size_le {w w' : World} {a : Action} (h : Performed w a w') :
    w.entries.size ≤ w'.entries.size := by
  cases h with
  | control handle i e c runTask known plain => exact (control_aside plain runTask w i e).size_le
  | schedule handle r delayMs outcomes rounds =>
    obtain ⟨r', task, handles, heq⟩ := w.schedule_eq handle r delayMs { outcomes, rounds }
    rw [heq]
    exact (register_aside (w.withJob handle _) r' task).size_le
  | timer t c there =>
    obtain ⟨status, journal, -, heq⟩ := controlTimer_eq w there c
    exact Nat.le_of_eq (by rw [heq])
  | _ => exact Nat.le_refl _

/-! ## Ticks and timers -/

/-- A lost tick counts as dealt with, and nothing else happens. -/
theorem serve_eq (w : World) (level : Nat) : w.serve level
    = { w with timer := w.timer.map (·.modifyWheel level fun wheel =>
        { wheel with served := wheel.served + 1 }) } := by
  rw [serve, modifyTimer_eq]

/-- A drained slot leaves the world as it was, but for the wheel and a line in the journal. -/
theorem drained_eq (w : World) (level : Nat) (wheel : Wheel) :
    ∃ journal, w.Quiet journal ∧ w.drained level wheel
      = { w with
          timer := w.timer.map (·.modifyWheel level Wheel.comeRound)
          journal := journal } := by
  have hturn : ((·.modifyWheel level (·.turn)) ∘ (·.modifyWheel level fun wheel =>
      { wheel with served := wheel.served + 1 }) : Timer → Timer)
        = (·.modifyWheel level Wheel.comeRound) :=
    funext fun t => t.modifyWheel_modifyWheel level _ _
  unfold drained
  simp only [serve, modifyTimer_eq, Option.map_map, hturn]
  split
  · exact ⟨_, w.quiet_refl, rfl⟩
  · exact ⟨_, w.quiet_log rfl, rfl⟩

/-- With its timer the world loses nothing else. -/
theorem dropTimer_eq (w : World) :
    ∃ journal, w.Quiet journal ∧ w.dropTimer = { w with timer := none, journal } := by
  unfold dropTimer
  cases ht : w.timer with
  | none => exact ⟨w.journal, w.quiet_refl, by cases w; simpa using ht⟩
  | some t =>
    obtain ⟨status, journal, hquiet, heq⟩ := controlTimer_eq w ht .close
    exact ⟨journal, hquiet, by simp only [heq]⟩

/-- A new timer takes the next number and begins where the clock stands. -/
theorem startTimer_eq (w : World) (c : TimerConfig) :
    ∃ journal, w.Quiet journal ∧ w.startTimer c
      = { w with
          timer := some (.ofConfig w.timers w.clockUs c)
          timers := w.timers + 1
          journal } := by
  obtain ⟨journal, ⟨events, hevents, hjournal⟩, heq⟩ :=
    dropTimer_eq (w.log (.timerStarted c.slots c.levels c.intervalMs))
  refine ⟨journal, ⟨events ++ [.logged (.timerStarted c.slots c.levels c.intervalMs)], ?_, ?_⟩, ?_⟩
  · intro e he
    rcases List.mem_append.1 he with he | he
    · exact hevents e he
    · rw [List.mem_singleton.1 he]
      rfl
  · rw [hjournal, List.append_assoc]
    rfl
  · unfold startTimer
    simp only [heq]
    rfl

end World

end TimingWheel
