import TimingWheel.Proofs.OnPlan

/-!
# What happens to the timing of an entry

Most of what happens to an entry changes neither where it waits nor when it is due. The due time is
written in four places: when the entry is added, when a tick passes it over, when a tick has
launched it, and when the wheels take it again after it was started, reset or given up. A
`View.TimingStep` says which of these happens, so that an invariant of due times is proved once for
each of them, and not once for each control.

* **`Page.Keeps`** — the entry is due as before and at the place it had, and so many launches were
  told.
* **`View.EntryStep.timingStep`** — what happens to an entry is one of a few things as far as its
  timing goes.
* **`View.Life.dueMs_le`** — every due time is a count.
* **`View.Life.spaced`** — no due time comes before an interval is over.
-/

namespace TimingWheel

namespace Entry

/-- The interval of an entry, and the time at which it is due. -/
def timing (e : Entry) : Nat × Nat := (e.intervalMs, e.dueMs)

@[simp] theorem timing_stop (e : Entry) : e.stop.timing = e.timing := by
  unfold stop
  split <;> rfl

@[simp] theorem timing_start (e : Entry) : e.start.timing = e.timing := by
  unfold start
  split <;> rfl

@[simp] theorem timing_settleReset (e : Entry) : e.settleReset.timing = e.timing := by
  unfold settleReset
  split <;> rfl

@[simp] theorem timing_evaluate (e : Entry) (nowMs : Nat) :
    (e.evaluate nowMs).2.timing = e.timing := by
  have hlook := e.evaluated nowMs
  generalize e.evaluate nowMs = look at hlook
  cases hlook with
  | early alive wait => exact e.timing_settleReset
  | busy alive due active singleton inFlight => exact e.timing_settleReset
  | _ => rfl

@[simp] theorem timing_complete (e : Entry) : e.complete.timing = e.timing := by
  unfold complete
  simp only
  split
  · rfl
  · split <;> rfl

/-- A tick that passes an entry over leaves it due at a count: the next due time is capped. -/
theorem advanceDue_le (e : Entry) (nowMs : Nat) : (e.advanceDue nowMs).dueMs ≤ ceiling := by
  simp only [advanceDue]
  split <;> exact addCapped_le _ _

end Entry

/-! ## Pages with the same timing -/

/-- The entry is due as before and at the place it had, its timer is as it was, and launches at some
times were told. -/
structure Page.Keeps (launches : List Nat) (p p' : Page) : Prop where
  seat : p'.entry.seat = p.entry.seat
  timing : p'.entry.timing = p.entry.timing
  told : launchTimes p'.history = launchTimes p.history ++ launches
  there : p'.there = p.there
  nowMs : p'.nowMs = p.nowMs
  aim : p'.aim = p.aim

namespace Page

variable {launches : List Nat} {p p' : Page}

namespace Keeps

theorem refl (p : Page) : p.Keeps [] p := ⟨rfl, rfl, (List.append_nil _).symm, rfl, rfl, rfl⟩

/-- What is told of no launch keeps the timing. -/
theorem tell (h : p.Keeps launches p') {e : Event} (he : e.launchMs? = none) :
    p.Keeps launches (p'.tell e) :=
  ⟨h.seat, h.timing, (launchTimes_cons_of_none he _).trans h.told, h.there, h.nowMs, h.aim⟩

/-- A change of the entry keeps the timing as long as it touches neither seat nor due time. -/
theorem modify (h : p.Keeps launches p') {f : Entry → Entry}
    (hseat : (f p'.entry).seat = p'.entry.seat) (htiming : (f p'.entry).timing = p'.entry.timing) :
    p.Keeps launches (p'.modify f) :=
  ⟨hseat.trans h.seat, htiming.trans h.timing, h.told, h.there, h.nowMs, h.aim⟩

theorem owner (h : p.Keeps launches p') : p'.entry.owner = p.entry.owner :=
  Entry.owner_of_seat h.seat

theorem installed (h : p.Keeps launches p') : p'.entry.installed = p.entry.installed :=
  congrArg (·.2.1) h.seat

theorem level (h : p.Keeps launches p') : p'.entry.level = p.entry.level :=
  congrArg (·.2.2.1) h.seat

theorem installedTick (h : p.Keeps launches p') : p'.entry.installedTick = p.entry.installedTick :=
  congrArg (·.2.2.2) h.seat

theorem intervalMs (h : p.Keeps launches p') : p'.entry.intervalMs = p.entry.intervalMs :=
  congrArg (·.1) h.timing

theorem dueMs (h : p.Keeps launches p') : p'.entry.dueMs = p.entry.dueMs :=
  congrArg (·.2) h.timing

theorem launched (h : p.Keeps [] p') : launchTimes p'.history = launchTimes p.history :=
  h.told.trans (List.append_nil _)

end Keeps

@[simp] theorem owner_reinstall (p : Page) (i : EntryId) :
    (p.reinstall i).entry.owner = p.entry.owner := by
  unfold reinstall
  split <;> rfl

/-- How a body ends has no bearing on the timing. -/
theorem keeps_conclude (p : Page) (i : EntryId) (outcome : Outcome) :
    p.Keeps [] (p.conclude i outcome) := by
  have hrefl := Keeps.refl p
  cases outcome with
  | exit => exact (hrefl.modify rfl rfl).tell rfl
  | failed reason => exact hrefl.tell rfl
  | done => exact hrefl
  | crashed => exact hrefl

/-- The end of an execution has no bearing on the timing either: it settles the status and the
count of executions in flight. -/
theorem keeps_complete (p : Page) (i : EntryId) : p.Keeps [] (p.complete i) := by
  have hend : p.Keeps [] ((p.modify (·.complete)).tell (.completed i)) :=
    ((Keeps.refl p).modify p.entry.seat_complete p.entry.timing_complete).tell rfl
  simp only [complete]
  split
  · exact hend.tell rfl
  · exact hend

/-- A tick that launches nothing keeps the timing by looking: what it does about its verdict comes
afterwards. -/
theorem keeps_look (p : Page) (i : EntryId) (level tick : Nat) {nowMs : Nat}
    (idle : ∀ last, (p.entry.evaluate nowMs).1 ≠ .run last) :
    p.Keeps [] (p.look i level tick nowMs) := by
  refine ((Keeps.refl p).modify (p.entry.seat_evaluate nowMs)
    (p.entry.timing_evaluate nowMs)).tell ?_
  cases hverdict : (p.entry.evaluate nowMs).1 with
  | run last => exact absurd hverdict (idle last)
  | _ => rfl

/-- A tick that launches tells of one launch, at the time it read, and has not moved the due time
yet. -/
theorem keeps_look_run (p : Page) (i : EntryId) (level tick : Nat) {nowMs : Nat} {last : Bool}
    (runs : (p.entry.evaluate nowMs).1 = .run last) :
    p.Keeps [nowMs] (p.look i level tick nowMs) := by
  refine ⟨p.entry.seat_evaluate nowMs, p.entry.timing_evaluate nowMs, ?_, rfl, rfl, rfl⟩
  show launchTimes (.evaluated i level tick nowMs _ :: p.history) = _
  rw [runs]
  exact launchTimes_cons_of_some rfl _

/-- A control leaves the timing as it is, but for the wheels that may take the entry after it. -/
theorem keeps_control (p : Page) (i : EntryId) (c : Control) :
    ∃ p', p.Keeps [] p' ∧ (p.control i c = p' ∨ p.control i c = p'.reinstall i) := by
  have htell : p.Keeps [] (p.tell (.controlled i c)) := (Keeps.refl p).tell rfl
  cases c with
  | stop =>
    simp only [control]
    split
    · exact ⟨_, htell, Or.inl rfl⟩
    · exact ⟨_, (htell.modify (Entry.seat_stop _) (Entry.timing_stop _)).tell rfl, Or.inl rfl⟩
  | start =>
    simp only [control]
    split
    · exact ⟨_, (htell.modify (Entry.seat_start _) (Entry.timing_start _)).tell rfl, Or.inr rfl⟩
    · exact ⟨_, htell, Or.inl rfl⟩
  | reset => exact ⟨_, (htell.modify rfl rfl).tell rfl, Or.inr rfl⟩
  | close =>
    simp only [control]
    split
    · exact ⟨_, htell, Or.inl rfl⟩
    · exact ⟨_, (htell.modify rfl rfl).tell rfl, Or.inl rfl⟩
  | run => exact ⟨_, htell, Or.inl rfl⟩
  | setRuns runs => exact ⟨_, htell.modify rfl rfl, Or.inl rfl⟩
  | setSingleton on => exact ⟨_, htell.modify rfl rfl, Or.inl rfl⟩

end Page

/-! ## Steps of the timing -/

/-- What happens to an entry, as far as its timing goes. -/
inductive View.TimingStep (i : EntryId) (v : View) : View → Prop where
  /-- Something happens to the timers or to the clock. -/
  | passes (there : Bool) (nowMs : Nat) (aim : Nat → Nat × Nat)
      (gone : there = true → v.there = true) : TimingStep i v { v with there, nowMs, aim }
  /-- The timing stays. -/
  | keeps {p : Page} (flight : Flight) (same : v.toPage.Keeps [] p) :
      TimingStep i v { v with toPage := p, flight := flight }
  /-- The wheels may take the entry. -/
  | takes {p : Page} (same : v.toPage.Keeps [] p) :
      TimingStep i v { v with toPage := p.reinstall i }
  /-- The tick that is recorded for the entry drains its slot. -/
  | drains (aim : Nat → Nat × Nat) (free : v.stage = .free) (owned : v.entry.installed = true) :
      TimingStep i v { v with
        aim := aim
        stage := .drained v.entry.level v.entry.installedTick v.nowMs }
  /-- The tick finds that the entry is not due, and places it again. -/
  | waits {p : Page} (level tick nowMs : Nat) (drained : v.stage = .drained level tick nowMs)
      (early : nowMs < v.entry.dueMs) (same : v.toPage.Keeps [] p) :
      TimingStep i v { v with toPage := p.place, stage := .free }
  /-- The tick passes over the entry, which is due, and places it for a later time. -/
  | skips {p : Page} (level tick nowMs : Nat) (drained : v.stage = .drained level tick nowMs)
      (due : v.entry.dueMs ≤ nowMs) (same : v.toPage.Keeps [] p) :
      TimingStep i v { v with toPage := (p.modify (·.advanceDue nowMs)).place, stage := .free }
  /-- The tick launches an execution of the entry, which is due. -/
  | launches {p : Page} (level tick nowMs : Nat) (last : Bool) (flight : Flight)
      (drained : v.stage = .drained level tick nowMs) (due : v.entry.dueMs ≤ nowMs)
      (same : v.toPage.Keeps [nowMs] p) : TimingStep i v ⟨p, .launched nowMs last, flight⟩
  /-- The tick places the entry that it launched again, for a later time. -/
  | advances (nowMs : Nat) (last : Bool) (launched : v.stage = .launched nowMs last) :
      TimingStep i v { v with
        toPage := (v.toPage.modify (·.advanceDue nowMs)).place
        stage := .free }
  /-- The tick gives the entry up. -/
  | leaves {p : Page} (busy : v.stage ≠ .free) (same : v.toPage.Keeps [] p) :
      TimingStep i v { v with toPage := p.modify (·.release), stage := .free }
  /-- The tick gives the entry up, and the wheels take it back at once. -/
  | returns {p : Page} (busy : v.stage ≠ .free) (same : v.toPage.Keeps [] p) :
      TimingStep i v { v with toPage := (p.modify (·.release)).reinstall i, stage := .free }

namespace View

variable {v : View} {i : EntryId}

theorem TimingStep.owner {v' : View} (h : v.TimingStep i v') : v'.entry.owner = v.entry.owner := by
  cases h with
  | passes there nowMs aim gone => rfl
  | keeps flight same => exact same.owner
  | takes same => exact (Page.owner_reinstall _ i).trans same.owner
  | drains aim free owned => rfl
  | waits level tick nowMs drained early same => exact same.owner
  | skips level tick nowMs drained due same => exact same.owner
  | launches level tick nowMs last flight drained due same => exact same.owner
  | advances nowMs last launched => rfl
  | leaves busy same => exact same.owner
  | returns busy same => exact (Page.owner_reinstall _ i).trans same.owner

/-- To give the entry up is one step, whether or not the wheels take it back at once. -/
theorem TimingStep.of_release {p : Page} (busy : v.stage ≠ .free) (same : v.toPage.Keeps [] p) :
    v.TimingStep i { v with toPage := p.release i, stage := .free } := by
  unfold Page.release
  split
  · exact .returns busy same
  · exact .leaves busy same

/-- What a tick does about a verdict that launches nothing: an entry that has ended or has no run
left is given up, one that is early waits, and one that is suspended or busy is passed over. -/
theorem TimingStep.of_rest {level tick nowMs : Nat} (drained : v.stage = .drained level tick nowMs)
    (idle : ∀ last, (v.entry.evaluate nowMs).1 ≠ .run last) :
    v.TimingStep i { v with
      toPage := (v.toPage.look i level tick nowMs).rest i nowMs (v.entry.evaluate nowMs).1
      stage := .free } := by
  have hsame := v.toPage.keeps_look i level tick idle
  have hbusy : v.stage ≠ .free := by simp [drained]
  have hlook := v.entry.evaluated nowMs
  generalize v.toPage.look i level tick nowMs = p at hsame
  generalize v.entry.evaluate nowMs = look at hlook idle
  -- the verdicts that launch nothing, in the order in which they are come to
  cases hlook with
  | ended closed => exact .of_release hbusy hsame
  | early alive wait => exact .waits level tick nowMs drained wait hsame
  | suspended stopped due => exact .skips level tick nowMs drained due hsame
  | busy alive due active singleton inFlight => exact .skips level tick nowMs drained due hsame
  | spent alive due active none => exact .of_release hbusy hsame
  | launched alive due active free rest left => exact absurd rfl (idle _)

/-- **What happens to an entry, as far as its timing goes.** -/
theorem EntryStep.timingStep {law : Law} {v' : View} (h : v.EntryStep law i v') :
    v.TimingStep i v' := by
  have hrefl := Page.Keeps.refl v.toPage
  cases h with
  | passes there nowMs aim gone => exact .passes there nowMs aim gone
  | byHand => exact .keeps v.flight (hrefl.tell rfl)
  | begins job label clockUs => exact .keeps v.flight (hrefl.tell rfl)
  | concludes outcome => exact .keeps v.flight (v.toPage.keeps_conclude i outcome)
  | controls c plain =>
    obtain ⟨p, hsame, hp | hp⟩ := v.toPage.keeps_control i c
    · rw [hp]
      exact .keeps v.flight hsame
    · rw [hp]
      exact .takes hsame
  | completes executing => exact .keeps _ (v.toPage.keeps_complete i)
  | takesUp allowed held idle => exact .keeps _ hrefl
  | drains aim free owned => exact .drains aim free owned
  | rests level tick nowMs drained idle => exact .of_rest drained idle
  | launches level tick nowMs last holding drained idle runs =>
    obtain ⟨hdue, -⟩ := Entry.launch_of_run runs
    exact .launches level tick nowMs last _ drained hdue
      (v.toPage.keeps_look_run i level tick runs)
  | putsBack nowMs last launched idle =>
    have hbusy : v.stage ≠ .free := by simp [launched]
    -- after its last run the entry is given up
    unfold Page.putBack
    cases last with
    | true => exact .of_release hbusy hrefl
    | false => exact .advances nowMs false launched

/-! ## Due times are counts -/

/-- Due times are counts through every step. Each of the four places that write one caps it. -/
theorem TimingStep.dueMs_le {v' : View} (h : v.TimingStep i v') (hv : v.entry.dueMs ≤ ceiling) :
    v'.entry.dueMs ≤ ceiling := by
  have htake : ∀ {p : Page}, p.entry.dueMs ≤ ceiling → (p.reinstall i).entry.dueMs ≤ ceiling := by
    intro p hp
    unfold Page.reinstall
    split
    · exact addCapped_le _ _
    · exact hp
  cases h with
  | passes there nowMs aim gone => exact hv
  | keeps flight same => exact Nat.le_trans (Nat.le_of_eq same.dueMs) hv
  | takes same => exact htake (Nat.le_trans (Nat.le_of_eq same.dueMs) hv)
  | drains aim free owned => exact hv
  | waits level tick nowMs drained early same => exact Nat.le_trans (Nat.le_of_eq same.dueMs) hv
  | @skips p level tick nowMs drained due same => exact p.entry.advanceDue_le nowMs
  | launches level tick nowMs last flight drained due same =>
    exact Nat.le_trans (Nat.le_of_eq same.dueMs) hv
  | advances nowMs last launched => exact v.entry.advanceDue_le nowMs
  | leaves busy same => exact Nat.le_trans (Nat.le_of_eq same.dueMs) hv
  | returns busy same => exact htake (Nat.le_trans (Nat.le_of_eq same.dueMs) hv)

/-- Every due time is a count, by induction on the life of the entry. -/
theorem Life.dueMs_le (h : v.Life i) : v.entry.dueMs ≤ ceiling := by
  induction h with
  | born h =>
    obtain ⟨r, task, owner, nowMs, aim, rfl⟩ := h
    unfold Page.registered
    simp only
    split <;> exact addCapped_le _ _
  | step _ step ih => exact step.timingStep.dueMs_le ih

end View

/-! ## No due time comes before an interval is over -/

/-- An interval added to any time is at least the interval, up to the ceiling. -/
theorem min_le_addCapped (ms intervalMs : Nat) :
    min intervalMs ceiling ≤ addCapped ms intervalMs := by
  unfold addCapped
  omega

/-- The entry is due one interval from the beginning of time or later. -/
def Entry.Spaced (e : Entry) : Prop := min e.intervalMs ceiling ≤ e.dueMs

/-- The time after the due time that was passed is an interval after something. -/
theorem Entry.spaced_advanceDue (e : Entry) (nowMs : Nat) : (e.advanceDue nowMs).Spaced := by
  simp only [Spaced, advanceDue]
  split <;> exact min_le_addCapped _ _

/-- So is the due time of an entry that is taken back, which counts from the clock. -/
theorem Page.spaced_reinstall {p : Page} (h : p.entry.Spaced) (i : EntryId) :
    (p.reinstall i).entry.Spaced := by
  unfold reinstall
  split
  · exact min_le_addCapped _ _
  · exact h

/-- The bound is on interval and due time only, so it stays with the timing. -/
theorem Page.Keeps.spaced {launches : List Nat} {p p' : Page} (h : p.Keeps launches p')
    (hp : p.entry.Spaced) : p'.entry.Spaced := by
  unfold Entry.Spaced
  rw [h.intervalMs, h.dueMs]
  exact hp

namespace View

variable {v : View} {i : EntryId}

/-- The bound on the due time is kept by every step. -/
theorem TimingStep.spaced {v' : View} (h : v.TimingStep i v') (hv : v.entry.Spaced) :
    v'.entry.Spaced := by
  cases h with
  | passes there nowMs aim gone => exact hv
  | keeps flight same => exact same.spaced hv
  | takes same => exact Page.spaced_reinstall (same.spaced hv) i
  | drains aim free owned => exact hv
  | waits level tick nowMs drained early same => exact same.spaced hv
  | @skips p level tick nowMs drained due same => exact p.entry.spaced_advanceDue nowMs
  | launches level tick nowMs last flight drained due same => exact same.spaced hv
  | advances nowMs last launched => exact v.entry.spaced_advanceDue nowMs
  | leaves busy same => exact same.spaced hv
  | @returns p busy same =>
    have hreleased : (p.modify (·.release)).entry.Spaced := same.spaced hv
    exact Page.spaced_reinstall hreleased i

/-- No entry is due before an interval is over, by induction on its life. -/
theorem Life.spaced (h : v.Life i) : v.entry.Spaced := by
  induction h with
  | born h =>
    obtain ⟨r, task, owner, nowMs, aim, rfl⟩ := h
    unfold Page.registered
    simp only
    split <;> exact min_le_addCapped _ _
  | step _ step ih => exact step.timingStep.spaced ih

end View

end TimingWheel
