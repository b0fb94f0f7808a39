import TimingWheel.Proofs.Moves

/-!
# Worlds that differ in how bodies end

A body ends well, asks for the end of its entry, fails or breaks off. Two scripts are alike if they
perform the same actions and ask for the end at the same starts; how a start ends otherwise may
differ. Two worlds are alike if they differ in nothing but the scripts of their jobs, and in what
the log says of failures.

* **`Action.Alike`**, **`Script.Alike`**, **`Job.Alike`** — what bodies do is alike.
* **`World.Alike`** — worlds are alike.
* **`World.Alike.place`**, **`World.Alike.control`**, **`World.Alike.invoke`**, … — every operation
  takes worlds that are alike to worlds that are alike. There is one lemma for each operation.
-/

namespace TimingWheel

/-! ## Scripts -/

/-- Endings that an entry does not tell apart: both ask for its end, or neither does. -/
def Outcome.Alike (o o' : Outcome) : Prop := o = .exit ↔ o' = .exit

theorem Outcome.Alike.refl (o : Outcome) : o.Alike o := Iff.rfl

/-- Whether the action runs a body by hand. -/
def Action.runsBody : Action → Bool
  | .control _ c => c = .run
  | _ => false

mutual

/-- Actions that differ in how scheduled bodies end. -/
inductive Action.Alike : Action → Action → Prop where
  | same (a : Action) : Action.Alike a a
  | schedule (handle : String) (r : Registration) (delayMs : Option Nat)
      {outcomes outcomes' : List Outcome} {rounds rounds' : List (List Action)}
      (endings : ∀ start, (Script.outcome { outcomes } start).Alike
        (Script.outcome { outcomes := outcomes' } start))
      (bodies : RoundsAlike rounds rounds') :
      Action.Alike (.schedule handle r delayMs outcomes rounds)
        (.schedule handle r delayMs outcomes' rounds')

/-- The actions of one start, one by one. -/
inductive RoundAlike : List Action → List Action → Prop where
  | nil : RoundAlike [] []
  | cons {a a' : Action} {rest rest' : List Action} (head : Action.Alike a a')
      (tail : RoundAlike rest rest') : RoundAlike (a :: rest) (a' :: rest')

/-- The actions of all starts, start by start. -/
inductive RoundsAlike : List (List Action) → List (List Action) → Prop where
  | nil : RoundsAlike [] []
  | cons {r r' : List Action} {rest rest' : List (List Action)} (head : RoundAlike r r')
      (tail : RoundsAlike rest rest') : RoundsAlike (r :: rest) (r' :: rest')

end

mutual

theorem Action.Alike.jumps : ∀ {a a' : Action}, a.Alike a' → a'.jumps = a.jumps
  | _, _, .same _ => rfl
  | _, _, .schedule _ _ _ _ bodies => RoundsAlike.jumps bodies

theorem RoundAlike.jumps : ∀ {r r' : List Action}, RoundAlike r r' →
    jumpsOfRound r' = jumpsOfRound r
  | _, _, .nil => rfl
  | _, _, .cons head tail => congrArg₂ (· + ·) head.jumps (RoundAlike.jumps tail)

/-- Scripts with alike rounds move the clock equally often in all their starts together. -/
theorem RoundsAlike.jumps : ∀ {rs rs' : List (List Action)}, RoundsAlike rs rs' →
    jumpsOfRounds rs' = jumpsOfRounds rs
  | _, _, .nil => rfl
  | _, _, .cons head tail => congrArg₂ (· + ·) (RoundAlike.jumps head) (RoundsAlike.jumps tail)

end

theorem RoundAlike.refl (round : List Action) : RoundAlike round round := by
  induction round with
  | nil => exact .nil
  | cons a rest ih => exact .cons (.same a) ih

theorem RoundsAlike.refl (rounds : List (List Action)) : RoundsAlike rounds rounds := by
  induction rounds with
  | nil => exact .nil
  | cons round rest ih => exact .cons (.refl round) ih

/-- The rounds of one start are alike; beyond the last start both are empty. -/
theorem RoundsAlike.getD {rs rs' : List (List Action)} (h : RoundsAlike rs rs') (start : Nat) :
    RoundAlike (rs.getD start []) (rs'.getD start []) := by
  induction start generalizing rs rs' with
  | zero =>
    cases h with
    | nil => exact .nil
    | cons head tail => exact head
  | succ start ih =>
    cases h with
    | nil => exact .nil
    | cons head tail => exact ih tail

/-- Scripts that perform the same actions and ask for the end at the same starts. -/
structure Script.Alike (s s' : Script) : Prop where
  endings : ∀ start, (s.outcome start).Alike (s'.outcome start)
  bodies : RoundsAlike s.rounds s'.rounds

/-- Jobs of one name that were started equally often. -/
structure Job.Alike (j j' : Job) : Prop where
  label : j'.label = j.label
  starts : j'.starts = j.starts
  script : j.script.Alike j'.script

/-- Jobs of the same numbers are alike. -/
structure JobsAlike (jobs jobs' : Array Job) : Prop where
  size : jobs'.size = jobs.size
  job : ∀ {n : JobId} {j j' : Job}, jobs[n]? = some j → jobs'[n]? = some j' → j.Alike j'

theorem JobsAlike.refl (jobs : Array Job) : JobsAlike jobs jobs := by
  refine ⟨rfl, fun {n j j'} hj hj' => ?_⟩
  obtain rfl : j = j' := Option.some.inj (hj.symm.trans hj')
  exact ⟨rfl, rfl, fun _ => .refl _, .refl _⟩

/-- A new job on either side keeps the jobs alike if the two are. -/
theorem JobsAlike.push {jobs jobs' : Array Job} (h : JobsAlike jobs jobs') {j j' : Job}
    (hj : j.Alike j') : JobsAlike (jobs.push j) (jobs'.push j') := by
  refine ⟨by simp [h.size], fun {n i i'} hi hi' => ?_⟩
  rw [Array.getElem?_push] at hi hi'
  rw [h.size] at hi'
  split at hi
  · next hn =>
    rw [if_pos hn] at hi'
    rwa [← Option.some.inj hi, ← Option.some.inj hi']
  · next hn =>
    rw [if_neg hn] at hi'
    exact h.job hi hi'

/-- At each id there is no job on either side, or there are two that are alike. -/
theorem JobsAlike.cases {jobs jobs' : Array Job} (h : JobsAlike jobs jobs') (n : JobId) :
    (jobs[n]? = none ∧ jobs'[n]? = none)
    ∨ ∃ j j', jobs[n]? = some j ∧ jobs'[n]? = some j' ∧ j.Alike j' := by
  by_cases hn : n < jobs.size
  · have hj := Array.getElem?_eq_getElem hn
    have hj' := Array.getElem?_eq_getElem (h.size ▸ hn : n < jobs'.size)
    exact Or.inr ⟨_, _, hj, hj', h.job hj hj'⟩
  · have hout : jobs.size ≤ n := Nat.le_of_not_lt hn
    exact Or.inl ⟨Array.getElem?_eq_none hout, Array.getElem?_eq_none (h.size ▸ hout)⟩

/-- A body that begins is counted on both sides. -/
theorem JobsAlike.begin {jobs jobs' : Array Job} (h : JobsAlike jobs jobs') (job : JobId) :
    JobsAlike (jobs.modify job fun j => { j with starts := j.starts + 1 })
      (jobs'.modify job fun j => { j with starts := j.starts + 1 }) := by
  refine ⟨by simp [h.size], fun {n i i'} hi hi' => ?_⟩
  rw [Array.getElem?_modify] at hi hi'
  split at hi
  · next hn =>
    rw [if_pos hn] at hi'
    obtain ⟨j, hj, rfl⟩ := Option.map_eq_some_iff.1 hi
    obtain ⟨j', hj', rfl⟩ := Option.map_eq_some_iff.1 hi'
    have hsame := h.job hj hj'
    exact ⟨hsame.label, congrArg (· + 1) hsame.starts, hsame.script⟩
  · next hn =>
    rw [if_neg hn] at hi'
    exact h.job hi hi'

/-! ## Worlds -/

/-- Whether the log says that a body failed. -/
def Event.isFailure : Event → Bool
  | .logged (.jobFailed ..) => true
  | _ => false

/-- What has happened, but for the lines about failures. -/
def World.told (w : World) : List Event := w.journal.filter fun ev => !ev.isFailure

/-- Worlds that differ in how bodies end, and in what the log says of failures. -/
structure World.Alike (w w' : World) : Prop where
  clockUs : w'.clockUs = w.clockUs
  timer : w'.timer = w.timer
  timers : w'.timers = w.timers
  entries : w'.entries = w.entries
  jobs : JobsAlike w.jobs w'.jobs
  handles : w'.handles = w.handles
  held : w'.held = w.held
  holding : w'.holding = w.holding
  coarseFirst : w'.coarseFirst = w.coarseFirst
  jumpBound : w'.jumpBound = w.jumpBound
  nesting : w'.nesting = w.nesting
  told : w'.told = w.told

namespace World

/-- A failure leaves no trace in what the journal tells apart from failures. -/
theorem told_tell (w : World) (ev : Event) :
    (w.tell ev).told = if ev.isFailure then w.told else ev :: w.told := by
  unfold told tell
  rw [List.filter_cons]
  cases ev.isFailure <;> rfl

/-- The world with a new entry, which is placed unless it is over from the start. -/
def admitted (w : World) (e : Entry) : World :=
  if e.status = .closed then { w with entries := w.entries.push e }
  else { w with entries := w.entries.push { e with installed := true } }.place w.entries.size

theorem register_of_none {w : World} (ht : w.timer = none) (r : Registration) (task : Task) :
    w.register r task = w := by
  simp only [register, ht]

/-- The registration at a timer in closed form: the entry is admitted, and the line that logs it
gives the level it was placed on. -/
theorem register_of_some {w : World} {t : Timer} (ht : w.timer = some t) (r : Registration)
    (task : Task) : w.register r task
      = (w.admitted (.ofRegistration r task t.id w.nowMs)).log (.entryAdded w.entries.size
          r.intervalMs r.singleton (Entry.ofRegistration r task t.id w.nowMs).status
          (((w.admitted (.ofRegistration r task t.id w.nowMs)).entries[w.entries.size]?.map
            (·.level)).getD 0)) := by
  unfold register
  split
  · next hnone => simp [ht] at hnone
  · next t' ht' =>
    obtain rfl : t = t' := Option.some.inj (ht.symm.trans ht')
    rfl

namespace Alike

variable {w w' : World}

theorem refl (w : World) : w.Alike w :=
  ⟨rfl, rfl, rfl, rfl, .refl w.jobs, rfl, rfl, rfl, rfl, rfl, rfl, rfl⟩

/-- Worlds that are alike have the same entries, so a new entry gets the same id in both. -/
theorem size (h : w.Alike w') : w'.entries.size = w.entries.size := congrArg (·.size) h.entries

theorem nowMs (h : w.Alike w') : w'.nowMs = w.nowMs := by
  rw [World.nowMs, h.timer, h.clockUs, World.nowMs]

theorem hasTimer (h : w.Alike w') (id : TimerId) : w'.hasTimer id = w.hasTimer id := by
  rw [World.hasTimer, h.timer, World.hasTimer]

theorem overdue (h : w.Alike w') (level : Nat) : w'.overdue level = w.overdue level := by
  rw [World.overdue, h.timer, h.clockUs, World.overdue]

theorem tell (h : w.Alike w') (ev : Event) : (w.tell ev).Alike (w'.tell ev) :=
  { h with told := by rw [told_tell, told_tell, h.told] }

theorem log (h : w.Alike w') (line : LogLine) : (w.log line).Alike (w'.log line) := h.tell _

/-! A line about a failure makes no difference on either side. -/

/-- A failure that only the second world logs makes no difference. -/
theorem log_failure_right (h : w.Alike w') (i : EntryId) (reason : String) :
    w.Alike (w'.log (.jobFailed i reason)) :=
  { h with told := by rw [World.log, told_tell]; exact h.told }

/-- A failure that only the first world logs makes no difference. -/
theorem log_failure_left (h : w.Alike w') (i : EntryId) (reason : String) :
    (w.log (.jobFailed i reason)).Alike w' :=
  { h with told := by rw [World.log, told_tell]; exact h.told }

theorem modifyEntry (h : w.Alike w') (i : EntryId) (f : Entry → Entry) :
    (w.modifyEntry i f).Alike (w'.modifyEntry i f) :=
  { h with entries := congrArg (·.modify i f) h.entries }

theorem push (h : w.Alike w') (e : Entry) :
    ({ w with entries := w.entries.push e } : World).Alike
      { w' with entries := w'.entries.push e } :=
  { h with entries := congrArg (·.push e) h.entries }

theorem modifyTimer (h : w.Alike w') (f : Timer → Timer) :
    (w.modifyTimer f).Alike (w'.modifyTimer f) := by
  rw [modifyTimer_eq, modifyTimer_eq]
  exact { h with timer := congrArg (·.map f) h.timer }

/-! ### Placing entries -/

theorem place (h : w.Alike w') (i : EntryId) : (w.place i).Alike (w'.place i) := by
  simp only [World.place, h.timer, h.entries, h.clockUs]
  split
  · exact { h with clockUs := rfl, timer := rfl, entries := rfl }
  · exact h

/-- The way back into a slot depends on nothing in which the worlds differ. -/
theorem reinstall (h : w.Alike w') (i : EntryId) : (w.reinstall i).Alike (w'.reinstall i) := by
  simp only [World.reinstall, h.entries, h.hasTimer, h.nowMs]
  split
  · exact h
  · split
    · exact ((h.modifyEntry i _).log _).place i
    · exact h

/-- What a tick does with an entry that it has looked at depends on nothing in which the worlds
differ. -/
theorem release (h : w.Alike w') (i : EntryId) : (w.release i).Alike (w'.release i) := by
  have hgive := h.modifyEntry i (·.release)
  simp only [World.release, hgive.entries]
  split
  · exact hgive
  · split
    · exact hgive.reinstall i
    · exact hgive

/-- A new entry is placed, unless it is over from the start. -/
theorem admitted (h : w.Alike w') (e : Entry) : (w.admitted e).Alike (w'.admitted e) := by
  unfold World.admitted
  rw [h.size]
  split
  · exact h.push e
  · exact (h.push _).place w.entries.size

theorem register (h : w.Alike w') (r : Registration) (task : Task) :
    (w.register r task).Alike (w'.register r task) := by
  cases ht : w.timer with
  | none =>
    rw [register_of_none ht, register_of_none (h.timer.trans ht)]
    exact h
  | some t =>
    have hadmitted := h.admitted (.ofRegistration r task t.id w.nowMs)
    rw [register_of_some ht, register_of_some (h.timer.trans ht), h.nowMs, h.size,
      hadmitted.entries]
    exact hadmitted.log _

/-! ### Actions -/

theorem stopEntry (h : w.Alike w') (i : EntryId) (e : Entry) :
    (w.stopEntry i e).Alike (w'.stopEntry i e) := by
  unfold World.stopEntry
  split
  · exact h
  · exact (h.modifyEntry i _).log _

theorem startEntry (h : w.Alike w') (i : EntryId) (e : Entry) :
    (w.startEntry i e).Alike (w'.startEntry i e) := by
  unfold World.startEntry
  split
  · exact ((h.modifyEntry i _).log _).reinstall i
  · exact h

theorem resetEntry (h : w.Alike w') (i : EntryId) (e : Entry) :
    (w.resetEntry i e).Alike (w'.resetEntry i e) :=
  ((h.modifyEntry i _).log _).reinstall i

theorem closeEntry (h : w.Alike w') (i : EntryId) (e : Entry) :
    (w.closeEntry i e).Alike (w'.closeEntry i e) := by
  unfold World.closeEntry
  split
  · exact h
  · exact (h.modifyEntry i _).log _

theorem controlTimer (h : w.Alike w') (t : Timer) (c : TimerControl) :
    (w.controlTimer t c).Alike (w'.controlTimer t c) := by
  cases c with
  | start =>
    simp only [World.controlTimer]
    split
    · exact (h.modifyTimer _).log _
    · exact h
  | stop =>
    simp only [World.controlTimer]
    split
    · exact (h.modifyTimer _).log _
    · exact h
  | close =>
    simp only [World.controlTimer]
    split
    · exact h
    · exact (h.modifyTimer _).log _

theorem withJob (h : w.Alike w') (label : String) {s s' : Script} (hs : s.Alike s') :
    (w.withJob label s).Alike (w'.withJob label s') :=
  { h with
    jobs := h.jobs.push ⟨rfl, rfl, hs⟩
    jumpBound := congrArg₂ (· + ·) h.jumpBound hs.bodies.jumps }

theorem assign (h : w.Alike w') (handle : String) (i : EntryId) :
    (w.assign handle i).Alike (w'.assign handle i) := by
  unfold World.assign
  rw [h.handles]
  exact { h with handles := rfl }

theorem drop (h : w.Alike w') (handle : String) : (w.drop handle).Alike (w'.drop handle) := by
  unfold World.drop
  rw [h.handles]
  exact { h with handles := rfl }

/-- An addition by script: the two jobs may end differently if their scripts are alike. -/
theorem schedule (h : w.Alike w') (handle : String) (r : Registration) (delayMs : Option Nat)
    {s s' : Script} (hs : s.Alike s') :
    (w.schedule handle r delayMs s).Alike (w'.schedule handle r delayMs s') := by
  have hwith := h.withJob handle hs
  unfold World.schedule
  rw [h.jobs.size, h.size]
  cases delayMs with
  | none => exact (hwith.register r _).assign handle _
  | some delay => exact (hwith.register _ _).assign handle _

end Alike

/-- What running a task comes to is alike. -/
structure AlikeEnds (ending ending' : Outcome × World) : Prop where
  outcome : ending.1.Alike ending'.1
  world : ending.2.Alike ending'.2

/-- What something done to two worlds comes to is alike. Where it `runs` a body, the answer may tell
of one that broke off, and so the answers may differ. -/
structure AlikeReplies (runs : Bool) (reply reply' : Answer × World) : Prop where
  answer : reply'.1 = reply.1 ∨ runs = true ∧ (reply.1 = .crashed ∨ reply'.1 = .crashed)
  world : reply.2.Alike reply'.2

section

variable {w w' : World} {runTask runTask' : EntryId → World → Outcome × World}

/-- The same answer from worlds that are alike is an alike reply. -/
theorem AlikeReplies.of_world {runs : Bool} (h : w.Alike w') (answer : Answer) :
    AlikeReplies runs (answer, w) (answer, w') :=
  ⟨Or.inl rfl, h⟩

/-- How a body ended decides the answer to whoever ran it. -/
theorem AlikeEnds.replies {ending ending' : Outcome × World} (h : AlikeEnds ending ending')
    (answer : Answer) :
    AlikeReplies true (if ending.1 = .crashed then .crashed else answer, ending.2)
      (if ending'.1 = .crashed then .crashed else answer, ending'.2) := by
  refine ⟨?_, h.world⟩
  by_cases hcrashed : ending.1 = .crashed
  · exact Or.inr ⟨rfl, Or.inl (if_pos hcrashed)⟩
  · by_cases hcrashed' : ending'.1 = .crashed
    · exact Or.inr ⟨rfl, Or.inr (if_pos hcrashed')⟩
    · exact Or.inl (by rw [if_neg hcrashed, if_neg hcrashed'])

/-- A handle names the same entry on both sides, so an operation on it needs to be looked at for
one entry only. -/
theorem Alike.withEntry (h : w.Alike w') {runs : Bool} (handle : String)
    {f f' : EntryId → Entry → Answer × World} (hf : ∀ i e, AlikeReplies runs (f i e) (f' i e)) :
    AlikeReplies runs (w.withEntry handle f) (w'.withEntry handle f') := by
  simp only [World.withEntry, World.lookup, h.handles, h.entries]
  split
  · exact .of_world h _
  · split
    · exact .of_world h _
    · exact hf _ _

/-- Controls of an entry. All but `run` change the world outright; `run` hands over to a body run
by hand, which is alike by hypothesis. -/
theorem Alike.control (h : w.Alike w')
    (hrun : ∀ i {v v' : World}, v.Alike v' → AlikeEnds (runTask i v) (runTask' i v'))
    (i : EntryId) (e : Entry) (c : Control) :
    AlikeReplies (c = .run) (w.control runTask i e c) (w'.control runTask' i e c) := by
  have htell := h.tell (.controlled i c)
  cases c with
  | stop => exact .of_world (htell.stopEntry i e) _
  | start => exact .of_world (htell.startEntry i e) _
  | reset => exact .of_world (htell.resetEntry i e) _
  | close => exact .of_world (htell.closeEntry i e) _
  | run => exact (hrun i htell).replies .done
  | setRuns runs => exact .of_world (htell.modifyEntry i _) _
  | setSingleton on => exact .of_world (htell.modifyEntry i _) _

/-- **Performing actions that are alike** in worlds that are alike. -/
theorem Alike.perform (h : w.Alike w')
    (hrun : ∀ i {v v' : World}, v.Alike v' → AlikeEnds (runTask i v) (runTask' i v'))
    {a a' : Action} (ha : a.Alike a') :
    AlikeReplies a.runsBody (w.perform runTask a) (w'.perform runTask' a') := by
  cases ha with
  -- scripts that end differently; every other action is the same on both sides
  | @schedule handle r delayMs outcomes outcomes' rounds rounds' endings bodies =>
    have hscript : Script.Alike ⟨outcomes, rounds⟩ ⟨outcomes', rounds'⟩ := ⟨endings, bodies⟩
    simp only [World.perform, h.timer]
    cases w.timer with
    | none => exact .of_world h _
    | some t => exact .of_world (h.schedule handle r delayMs hscript) _
  | same a =>
    cases a with
    | control handle c => exact h.withEntry handle fun i e => h.control hrun i e c
    | interval handle => exact h.withEntry handle fun _ _ => .of_world h _
    | dump handle => exact h.withEntry handle fun _ _ => .of_world h _
    | share handle copy => exact h.withEntry handle fun i _ => .of_world (h.assign copy i) _
    | same handle other =>
      refine h.withEntry handle fun i _ => ?_
      simp only [World.lookup, h.handles]
      split <;> exact .of_world h _
    | forget handle => exact h.withEntry handle fun _ _ => .of_world (h.drop handle) _
    | schedule handle r delayMs outcomes rounds =>
      simp only [World.perform, h.timer]
      cases w.timer with
      | none => exact .of_world h _
      | some t =>
        exact .of_world (h.schedule handle r delayMs ⟨fun _ => .refl _, .refl rounds⟩) _
    | timer c =>
      simp only [World.perform, h.timer]
      cases w.timer with
      | none => exact .of_world h _
      | some t => exact .of_world (h.controlTimer t c) _
    | jump us =>
      have hjump : World.Alike { w with clockUs := w.clockUs + us }
          { w' with clockUs := w'.clockUs + us } :=
        { h with clockUs := congrArg (· + us) h.clockUs }
      exact .of_world hjump _
    | hold on =>
      have hhold : World.Alike { w with holding := on } { w' with holding := on } :=
        { h with holding := rfl }
      exact .of_world hhold _
    | coarseFirst on =>
      have horder : World.Alike { w with coarseFirst := on } { w' with coarseFirst := on } :=
        { h with coarseFirst := rfl }
      exact .of_world horder _

/-! ### Executions -/

/-- A body begins on both sides with the same log line and the same count of starts. -/
theorem Alike.beginBody (h : w.Alike w') (i : EntryId) (job : JobId) (label : String) :
    (w.beginBody i job label).Alike (w'.beginBody i job label) := by
  have hstarts : World.Alike
      { w with jobs := w.jobs.modify job fun j => { j with starts := j.starts + 1 } }
      { w' with jobs := w'.jobs.modify job fun j => { j with starts := j.starts + 1 } } :=
    { h with jobs := h.jobs.begin job }
  have hevent : Event.started i job label w'.clockUs = .started i job label w.clockUs := by
    rw [h.clockUs]
  unfold World.beginBody
  rw [hevent]
  exact hstarts.tell _

/-- A body that fails or breaks off leaves the world as one that ends well does, but for the log. -/
theorem Alike.conclude (h : w.Alike w') (i : EntryId) {o o' : Outcome} (ho : o.Alike o') :
    (w.conclude i o).Alike (w'.conclude i o') := by
  have hleft {v v' : World} (hv : v.Alike v') (hexit : o ≠ .exit) : (v.conclude i o).Alike v' := by
    cases o with
    | exit => exact absurd rfl hexit
    | failed reason => exact hv.log_failure_left i reason
    | done => exact hv
    | crashed => exact hv
  have hright {v v' : World} (hv : v.Alike v') (hexit : o' ≠ .exit) :
      v.Alike (v'.conclude i o') := by
    cases o' with
    | exit => exact absurd rfl hexit
    | failed reason => exact hv.log_failure_right i reason
    | done => exact hv
    | crashed => exact hv
  by_cases hexit : o = .exit
  · rw [hexit, ho.1 hexit]
    exact (h.modifyEntry i _).log _
  · exact hleft (hright h fun hexit' => hexit (ho.2 hexit')) hexit

/-- The actions of a round, one after the other. Induction on the two rounds. -/
theorem Alike.round
    (hrun : ∀ i {v v' : World}, v.Alike v' → AlikeEnds (runTask i v) (runTask' i v'))
    {round round' : List Action} (hround : RoundAlike round round') (h : w.Alike w') :
    (round.foldl (fun w a => (w.perform runTask a).2) w).Alike
      (round'.foldl (fun w a => (w.perform runTask' a).2) w') := by
  induction round generalizing round' w w' with
  | nil =>
    cases hround
    exact h
  | cons a rest ih =>
    cases hround with
    | cons head tail =>
      rw [List.foldl_cons, List.foldl_cons]
      exact ih tail (h.perform hrun head).world

/-- The task of an entry, once it is known of the actions of a start. -/
theorem Alike.invoke_of_round {nesting : Nat}
    (hacts : ∀ {round round' : List Action} {v v' : World}, RoundAlike round round' → v.Alike v' →
      World.Alike
        (match nesting with
          | 0 => v
          | n + 1 => round.foldl (fun w a => (w.perform (World.invoke n) a).2) v)
        (match nesting with
          | 0 => v'
          | n + 1 => round'.foldl (fun w a => (w.perform (World.invoke n) a).2) v'))
    (i : EntryId) {w w' : World} (h : w.Alike w') :
    AlikeEnds (World.invoke nesting i w) (World.invoke nesting i w') := by
  unfold World.invoke
  rw [h.entries]
  -- the entries are the same on both sides, so both run a task or neither does
  cases w.entries[i]? with
  | none => exact ⟨.refl _, h⟩
  | some e =>
    cases htask : e.task with
    | register r job =>
      simp only [htask, h.hasTimer]
      refine ⟨.refl _, ?_⟩
      split
      · exact h.register r _
      · exact h
    | body job =>
      simp only [htask]
      rcases h.jobs.cases job with ⟨hj, hj'⟩ | ⟨j, j', hj, hj', hsame⟩
      · rw [hj, hj']
        exact ⟨.refl _, h⟩
      · -- the body starts, performs the actions of this start, and ends
        rw [hj, hj']
        have hends : (j.script.outcome j.starts).Alike (j'.script.outcome j'.starts) := by
          rw [hsame.starts]
          exact hsame.script.endings j.starts
        have hround : RoundAlike (j.script.round j.starts) (j'.script.round j'.starts) := by
          rw [hsame.starts]
          exact hsame.script.bodies.getD j.starts
        have hbegin := h.beginBody i job j.label
        simp only [hsame.label]
        exact ⟨hends, (hacts hround hbegin).conclude i hends⟩

/-- **The bodies of jobs**, down to any nesting: worlds stay alike, and how they end is alike. -/
theorem Alike.invoke (nesting : Nat) : ∀ (i : EntryId) {w w' : World}, w.Alike w' →
    AlikeEnds (World.invoke nesting i w) (World.invoke nesting i w') := by
  -- the actions of a body run other bodies one level deeper only
  induction nesting with
  | zero => exact Alike.invoke_of_round fun _ h => h
  | succ n ih => exact Alike.invoke_of_round fun hround h => h.round ih hround

/-- The end of an execution settles the entry in both worlds in the same way. -/
theorem Alike.complete (h : w.Alike w') (i : EntryId) : (w.complete i).Alike (w'.complete i) := by
  simp only [World.complete, h.entries]
  split
  · exact h
  · split
    · exact ((h.modifyEntry i _).tell _).log _
    · exact (h.modifyEntry i _).tell _

/-- The end of an execution comes the same way after a body that ended well, failed or broke off. -/
theorem Alike.execute (h : w.Alike w') (i : EntryId) : AlikeEnds (w.execute i) (w'.execute i) := by
  have hbody := Alike.invoke w.nesting i h
  unfold World.execute
  rw [h.nesting]
  exact ⟨hbody.outcome, hbody.world.complete i⟩

/-- A launch counts one execution in both worlds. -/
theorem Alike.launch (h : w.Alike w') (i : EntryId) : (w.launch i).Alike (w'.launch i) := by
  simp only [World.launch, h.holding]
  split
  · exact { h with held := congrArg (· ++ [i]) h.held, holding := rfl }
  · exact (h.execute i).world

end

end World

end TimingWheel
