import Mathlib.Logic.Relation
import TimingWheel.World.Scenario

/-!
# Moments: what a world goes through

`World.step` carries out a command as one function. What holds in the middle of a command, when a
body performs its actions while a tick has half of its batch still before it, is said about
*moments*: a world together with the tick and the execution that are in progress.

* **`Moment`** — a world, the tick in progress (`Sweep`) and the execution in progress.
* **`Move`** — one thing that happens. Its constructors are the pieces that the commands are made
  of, so an invariant is proved once for each piece.
* **`Law`** — what is allowed to happen. Claims about timers that are left alone restrict it; most
  invariants hold under `Law.free`.
* **`Moment.Arises`** — the moments that some course of events leads to.
* **`World.Reachable`** — the worlds that commands lead to. Every one of them is a moment that
  arises (`World.Reachable.arises`).
-/

namespace TimingWheel

/-! ## Properties of actions

An action schedules bodies, and these perform actions in their turn, so a property of what happens
has to be asked of all of them. -/

mutual

/-- The property holds of the action and of all actions of the bodies that it schedules. -/
def Action.All (p : Action → Prop) : Action → Prop
  | .schedule handle r delayMs outcomes rounds =>
    p (.schedule handle r delayMs outcomes rounds) ∧ allOfRounds p rounds
  | a => p a

/-- The property holds of all actions of one start. -/
def allOfRound (p : Action → Prop) : List Action → Prop
  | [] => True
  | a :: rest => a.All p ∧ allOfRound p rest

/-- The property holds of all actions of all starts. -/
def allOfRounds (p : Action → Prop) : List (List Action) → Prop
  | [] => True
  | r :: rest => allOfRound p r ∧ allOfRounds p rest

end

/-- The property holds of all actions of a script and of the bodies that these schedule. -/
def Script.All (p : Action → Prop) (s : Script) : Prop := allOfRounds p s.rounds

/-- The property holds of all that the bodies scheduled so far may do. -/
def World.AllBodies (p : Action → Prop) (w : World) : Prop :=
  ∀ j ∈ w.jobs, j.script.All p

/-- What holds of an action and of all those in it holds of the action. -/
theorem Action.All.self {p : Action → Prop} {a : Action} (h : a.All p) : p a := by
  cases a with
  | schedule handle r delayMs outcomes rounds => exact (by simpa [Action.All] using h : _ ∧ _).1
  | _ => simpa [Action.All] using h

/-- What holds of a round holds of each of its actions. -/
theorem allOfRound_mem {p : Action → Prop} {round : List Action} (h : allOfRound p round) :
    ∀ a ∈ round, a.All p := by
  induction round with
  | nil => simp
  | cons b rest ih =>
    obtain ⟨hb, hrest⟩ := h
    intro a ha
    rcases List.mem_cons.1 ha with rfl | ha
    · exact hb
    · exact ih hrest a ha

theorem allOfRounds_mem {p : Action → Prop} {rounds : List (List Action)}
    (h : allOfRounds p rounds) : ∀ round ∈ rounds, allOfRound p round := by
  induction rounds with
  | nil => simp
  | cons r rest ih =>
    obtain ⟨hr, hrest⟩ := h
    intro round hround
    rcases List.mem_cons.1 hround with rfl | hround
    · exact hr
    · exact ih hrest round hround

/-- What holds of a script holds of the actions of every start, those beyond the last round
included. -/
theorem Script.All.round {p : Action → Prop} {s : Script} (h : s.All p) (start : Nat) :
    ∀ a ∈ s.round start, a.All p := by
  intro a ha
  unfold Script.round at ha
  rw [List.getD_eq_getElem?_getD] at ha
  cases hr : s.rounds[start]? with
  | none => simp [hr] at ha
  | some round =>
    rw [hr] at ha
    exact allOfRound_mem (allOfRounds_mem h round (List.mem_of_getElem? hr)) a ha

mutual

/-- A weaker property holds of the same actions. Recursion over the action, together with the
rounds of the job that it schedules. -/
theorem Action.All.mono {p q : Action → Prop} (h : ∀ a, p a → q a) :
    ∀ {a : Action}, a.All p → a.All q
  | .schedule _ _ _ _ _, ha => ⟨h _ ha.1, allOfRounds_mono h ha.2⟩
  | .control .., ha | .interval _, ha | .dump _, ha | .share .., ha | .same .., ha | .forget _, ha
  | .timer _, ha | .jump _, ha | .hold _, ha | .coarseFirst _, ha => h _ ha

theorem allOfRound_mono {p q : Action → Prop} (h : ∀ a, p a → q a) :
    ∀ {round : List Action}, allOfRound p round → allOfRound q round
  | [], _ => trivial
  | _ :: _, hr => ⟨hr.1.mono h, allOfRound_mono h hr.2⟩

theorem allOfRounds_mono {p q : Action → Prop} (h : ∀ a, p a → q a) :
    ∀ {rounds : List (List Action)}, allOfRounds p rounds → allOfRounds q rounds
  | [], _ => trivial
  | _ :: _, hr => ⟨allOfRound_mono h hr.1, allOfRounds_mono h hr.2⟩

end

mutual

/-- What holds of every action holds of those in an action, too. -/
theorem Action.all_of_forall {p : Action → Prop} (h : ∀ a, p a) : ∀ a : Action, a.All p
  | .schedule _ _ _ _ rounds => ⟨h _, allOfRounds_of_forall h rounds⟩
  | .control .. | .interval _ | .dump _ | .share .. | .same .. | .forget _ | .timer _ | .jump _
  | .hold _ | .coarseFirst _ => h _

theorem allOfRound_of_forall {p : Action → Prop} (h : ∀ a, p a) :
    ∀ round : List Action, allOfRound p round
  | [] => trivial
  | a :: rest => ⟨Action.all_of_forall h a, allOfRound_of_forall h rest⟩

theorem allOfRounds_of_forall {p : Action → Prop} (h : ∀ a, p a) :
    ∀ rounds : List (List Action), allOfRounds p rounds
  | [] => trivial
  | r :: rest => ⟨allOfRound_of_forall h r, allOfRounds_of_forall h rest⟩

end

/-! ## Moments -/

/-- A tick in progress. -/
structure Sweep where
  level : Nat
  tick : Nat
  /-- The time at which the slot was drained, on the timer's own clock. -/
  nowMs : Nat
  /-- The entries that were drained and not looked at yet. -/
  waiting : List EntryId
  /-- The entry that was launched and is neither given up nor placed again yet, and whether the
  launch took its last run. -/
  launched : Option (EntryId × Bool) := none

/-- A world in the middle of what is going on in it. -/
structure Moment where
  world : World
  /-- The tick in progress. -/
  sweep : Option Sweep := none
  /-- The entry of which a launched execution is in progress. -/
  executing : Option EntryId := none

/-- The entries that a tick in progress drained and has not dealt with. -/
def Sweep.hand (s : Sweep) : List EntryId := (s.launched.map (·.1)).toList ++ s.waiting

namespace Moment

/-- The entries that the tick in progress drained and has not dealt with. -/
def hand (m : Moment) : List EntryId := (m.sweep.map (·.hand)).getD []

/-- Executions of an entry that were launched and have not ended. -/
def unfinished (m : Moment) (i : EntryId) : Nat :=
  m.world.held.count i + if m.executing = some i then 1 else 0

end Moment

/-! ## Moves -/

/-- What is allowed to happen. -/
structure Law where
  /-- The actions that may be performed. -/
  acts : Action → Prop
  /-- Whether ticks are dealt with. -/
  ticks : Prop
  /-- The times to which the clock may be moved by waiting. -/
  waits : World → Nat → Prop
  /-- The entries of which held executions are taken up. -/
  takes : EntryId → Prop
  /-- Whether timers are created and dropped. -/
  replaces : Prop

/-- Anything may happen. -/
def Law.free : Law := ⟨fun _ => True, True, fun _ _ => True, fun _ => True, True⟩

/-- What may happen while one body runs: actions, and nothing that only the outside world does. -/
def Law.withinBody (law : Law) : Law :=
  { law with ticks := False, waits := fun _ _ => False, takes := fun _ => False, replaces := False }

/-- The world in which a level has come to its next tick and emptied the slot. -/
def World.drained (w : World) (level : Nat) (wheel : Wheel) : World :=
  let w' := (w.serve level).modifyTimer (·.modifyWheel level (·.turn))
  if wheel.nextBatch.isEmpty then w'
  else w'.log (.drainingSlot level (wheel.ticks + 1) wheel.nextBatch.size)

/-- The world in which a tick has looked at an entry and put an execution of it in flight, which is
held back where executions are. -/
def World.launching (w : World) (s : Sweep) (i : EntryId) (last : Bool) (e : Entry) : World :=
  let w' := (w.modifyEntry i fun _ => e).tell (.evaluated i s.level s.tick s.nowMs (.run last))
  if w.holding then { w' with held := w'.held ++ [i] } else w'

/-- The world in which a tick has dealt with an entry that it launched. -/
def World.puttingBack (w : World) (nowMs : Nat) (i : EntryId) (last : Bool) : World :=
  if last then w.release i else (w.modifyEntry i (·.advanceDue nowMs)).place i

/-- One thing that happens. -/
inductive Move (law : Law) : Moment → Moment → Prop where
  /-- The outside world or a body performs an action that runs no body. -/
  | act (m : Moment) (a : Action) (runTask : EntryId → World → Outcome × World)
      (allowed : a.All law.acts) (plain : ∀ handle, a ≠ .control handle .run) :
      Move law m { m with world := (m.world.perform runTask a).2 }
  /-- Somebody is about to run the task of an entry by hand. -/
  | byHand (m : Moment) (i : EntryId) (known : i < m.world.entries.size) :
      Move law m { m with world := m.world.tell (.controlled i .run) }
  /-- A body starts. -/
  | begin (m : Moment) (i : EntryId) (job : JobId) (label : String)
      (known : i < m.world.entries.size) :
      Move law m { m with world := m.world.beginBody i job label }
  /-- A body ends. -/
  | conclude (m : Moment) (i : EntryId) (outcome : Outcome) (known : i < m.world.entries.size) :
      Move law m { m with world := m.world.conclude i outcome }
  /-- The task of an entry schedules a job. -/
  | enroll (m : Moment) (i : EntryId) (e : Entry) (r : Registration) (job : JobId)
      (known : m.world.entries[i]? = some e) (task : e.task = .register r job)
      (there : m.world.hasTimer e.owner) :
      Move law m { m with world := m.world.register r (.body job) }
  /-- The launched execution in progress ends. -/
  | complete (m : Moment) (i : EntryId) (inProgress : m.executing = some i) :
      Move law m { m with world := m.world.complete i, executing := none }
  /-- A held execution is taken up. -/
  | takeUp (w : World) (n : Nat) (i : EntryId) (allowed : law.takes i)
      (held : w.held[n]? = some i) :
      Move law ⟨w, none, none⟩ ⟨{ w with held := w.held.eraseIdx n }, none, some i⟩
  /-- A due tick is lost because the timer is stopped. -/
  | lose (w : World) (level : Nat) (t : Timer) (wheel : Wheel) (allowed : law.ticks)
      (there : w.timer = some t) (stopped : t.status = .stopped)
      (known : t.wheels[level]? = some wheel) (due : 1 ≤ w.overdue level) :
      Move law ⟨w, none, none⟩ ⟨w.serve level, none, none⟩
  /-- A level comes to a due tick and drains the slot. -/
  | drain (w : World) (level : Nat) (t : Timer) (wheel : Wheel) (allowed : law.ticks)
      (there : w.timer = some t) (running : t.status = .running)
      (known : t.wheels[level]? = some wheel) (due : 1 ≤ w.overdue level) :
      Move law ⟨w, none, none⟩
        ⟨w.drained level wheel,
          some
            { level, tick := wheel.ticks + 1, nowMs := w.nowMs, waiting := wheel.nextBatch.toList },
          none⟩
  /-- The tick looks at an entry and launches nothing. -/
  | look (w : World) (s : Sweep) (i : EntryId) (rest : List EntryId) (e : Entry)
      (next : s.waiting = i :: rest) (free : s.launched = none) (known : w.entries[i]? = some e)
      (rests : ∀ last, (e.evaluate s.nowMs).1 ≠ .run last) :
      Move law ⟨w, some s, none⟩
        ⟨w.dispatch s.level s.tick s.nowMs i, some { s with waiting := rest }, none⟩
  /-- The tick comes across a number that no entry has. -/
  | overlook (w : World) (s : Sweep) (i : EntryId) (rest : List EntryId)
      (next : s.waiting = i :: rest) (free : s.launched = none) (unknown : w.entries[i]? = none) :
      Move law ⟨w, some s, none⟩ ⟨w, some { s with waiting := rest }, none⟩
  /-- The tick looks at an entry and launches an execution. -/
  | launch (w : World) (s : Sweep) (i : EntryId) (rest : List EntryId) (e e' : Entry) (last : Bool)
      (next : s.waiting = i :: rest) (free : s.launched = none) (known : w.entries[i]? = some e)
      (runs : e.evaluate s.nowMs = (.run last, e')) :
      Move law ⟨w, some s, none⟩
        ⟨w.launching s i last e', some { s with waiting := rest, launched := some (i, last) },
          if w.holding then none else some i⟩
  /-- The tick places the entry that it launched again, or gives it up. -/
  | putBack (w : World) (s : Sweep) (i : EntryId) (last : Bool)
      (current : s.launched = some (i, last)) :
      Move law ⟨w, some s, none⟩
        ⟨w.puttingBack s.nowMs i last, some { s with launched := none }, none⟩
  /-- The tick is over. -/
  | done (w : World) (s : Sweep) (empty : s.waiting = []) (free : s.launched = none) :
      Move law ⟨w, some s, none⟩ ⟨w, none, none⟩
  /-- The clock is moved while nothing is in progress. -/
  | wait (w : World) (us : Nat) (allowed : law.waits w us) :
      Move law ⟨w, none, none⟩ ⟨{ w with clockUs := us }, none, none⟩
  /-- A timer of an accepted shape starts in place of the one there is. -/
  | create (w : World) (c : TimerConfig) (allowed : law.replaces) (valid : c.validate = .ok ()) :
      Move law ⟨w, none, none⟩ ⟨w.startTimer c, none, none⟩
  /-- The timer is dropped. -/
  | drop (w : World) (allowed : law.replaces) :
      Move law ⟨w, none, none⟩ ⟨w.dropTimer, none, none⟩
  /-- Loading the shape of the shared timer went wrong, and the log says so. -/
  | warn (w : World) (reason : String) (rejected : Bool) :
      Move law ⟨w, none, none⟩
        ⟨w.log (if rejected then .configRejected reason else .configNotLoaded reason), none, none⟩

/-- Any number of things that happen, one after another. -/
abbrev Moves (law : Law) : Moment → Moment → Prop := Relation.ReflTransGen (Move law)

/-- The moments that some course of events leads to, from a world in which nothing has happened yet
and bodies are nested as deep as it likes. -/
def Moment.Arises (m : Moment) : Prop := ∃ nesting, Moves .free ⟨{ nesting }, none, none⟩ m

theorem Moment.Arises.start (nesting : Nat) : Moment.Arises ⟨{ nesting }, none, none⟩ :=
  ⟨nesting, .refl⟩

/-- What a run leads to from something that arises, arises. -/
theorem Moment.Arises.trans {m m' : Moment} (h : m.Arises) (hmoves : Moves .free m m') :
    m'.Arises := by
  obtain ⟨nesting, hbefore⟩ := h
  exact ⟨nesting, hbefore.trans hmoves⟩

theorem Moment.Arises.tail {m m' : Moment} (h : m.Arises) (hmove : Move .free m m') : m'.Arises :=
  h.trans (.single hmove)

/-- What holds at first and is kept by every move holds in every moment that arises. -/
theorem Moment.Arises.induction {p : (m : Moment) → m.Arises → Prop}
    (start : ∀ nesting, p ⟨{ nesting }, none, none⟩ (.start nesting))
    (move : ∀ {m m' : Moment} (h : m.Arises) (hmove : Move .free m m'), p m h →
      p m' (h.tail hmove)) {m : Moment} (h : m.Arises) : p m h := by
  obtain ⟨nesting, hmoves⟩ := h
  induction hmoves with
  | refl => exact start nesting
  | tail hmoves hmove ih => exact move ⟨nesting, hmoves⟩ hmove ih

/-- A move under a law is one under every law that allows more. -/
theorem Move.mono {law law' : Law} (hacts : ∀ a, law.acts a → law'.acts a)
    (hticks : law.ticks → law'.ticks) (hwaits : ∀ w us, law.waits w us → law'.waits w us)
    (htakes : ∀ i, law.takes i → law'.takes i) (hreplaces : law.replaces → law'.replaces)
    {m m' : Moment} (h : Move law m m') : Move law' m m' := by
  cases h with
  | act m a runTask allowed plain => exact .act m a runTask (allowed.mono hacts) plain
  | byHand m i known => exact .byHand m i known
  | begin m i job label known => exact .begin m i job label known
  | conclude m i outcome known => exact .conclude m i outcome known
  | enroll m i e r job known task there => exact .enroll m i e r job known task there
  | complete m i inProgress => exact .complete m i inProgress
  | takeUp w n i allowed held => exact .takeUp w n i (htakes i allowed) held
  | lose w level t wheel allowed there stopped known due =>
    exact .lose w level t wheel (hticks allowed) there stopped known due
  | drain w level t wheel allowed there running known due =>
    exact .drain w level t wheel (hticks allowed) there running known due
  | look w s i rest e next free known rests => exact .look w s i rest e next free known rests
  | overlook w s i rest next free unknown => exact .overlook w s i rest next free unknown
  | launch w s i rest e e' last next free known runs =>
    exact .launch w s i rest e e' last next free known runs
  | putBack w s i last current => exact .putBack w s i last current
  | done w s empty free => exact .done w s empty free
  | wait w us allowed => exact .wait w us (hwaits w us allowed)
  | create w c allowed valid => exact .create w c (hreplaces allowed) valid
  | drop w allowed => exact .drop w (hreplaces allowed)
  | warn w reason rejected => exact .warn w reason rejected

end TimingWheel
