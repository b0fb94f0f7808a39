import TimingWheel.Proofs.Alike
import TimingWheel.Proofs.Exclusivity

/-!
# Failures are isolated

An execution may be nested in a tick or held back, it may be the last one, and its body may reset or
close its own entry before it ends. Whether a body ends well, fails or breaks off makes no
difference to what comes after it.

* **`World.Alike.dispatch`**, **`World.Alike.tick`**, **`World.Alike.advance`**, … — ticks and the
  passing of time take worlds that are alike to worlds that are alike.
* **`Command.Alike`**, **`World.Alike.step`** — and so do commands that differ in how the bodies end
  that they schedule.
* **`failures_isolated`** — two runs that differ in nothing else are alike after every command.
-/

namespace TimingWheel

namespace World

variable {w w' : World}

namespace Alike

/-! ## Ticks -/

/-- A tick deals with an entry alike in both worlds: the entry and the time are the same, so the
verdict is. -/
theorem dispatch (h : w.Alike w') (level tick nowMs : Nat) (i : EntryId) :
    (w.dispatch level tick nowMs i).Alike (w'.dispatch level tick nowMs i) := by
  simp only [World.dispatch, h.entries]
  split
  · exact h
  · next e he =>
    -- both sides come to the same verdict
    have hlook := (h.modifyEntry i fun _ => (e.evaluate nowMs).2).tell
      (.evaluated i level tick nowMs (e.evaluate nowMs).1)
    cases hv : (e.evaluate nowMs).1 with
    | drop =>
      rw [hv] at hlook
      exact hlook.release i
    | wait =>
      rw [hv] at hlook
      exact hlook.place i
    | skip =>
      rw [hv] at hlook
      exact (hlook.modifyEntry i _).place i
    | run last =>
      rw [hv] at hlook
      have hlaunch := hlook.launch i
      simp only
      split
      · exact hlaunch.release i
      · exact (hlaunch.modifyEntry i _).place i

/-- The batch of a tick, one entry after the other. Induction on the batch. -/
theorem batch (level tick nowMs : Nat) (batch : List EntryId) : ∀ {w w' : World}, w.Alike w' →
    (batch.foldl (World.dispatch level tick nowMs) w).Alike
      (batch.foldl (World.dispatch level tick nowMs) w') := by
  induction batch with
  | nil => exact fun h => h
  | cons i rest ih => exact fun h => ih (h.dispatch level tick nowMs i)

theorem turnWheel (h : w.Alike w') (level : Nat) (wheel : Wheel) :
    (w.turnWheel level wheel).Alike (w'.turnWheel level wheel) := by
  have hturn := h.modifyTimer (·.modifyWheel level (·.turn))
  simp only [World.turnWheel]
  split
  · exact hturn
  · have hdrain := hturn.log (.drainingSlot level (wheel.ticks + 1) wheel.nextBatch.size)
    rw [hdrain.nowMs, ← Array.foldl_toList, ← Array.foldl_toList]
    exact batch level _ _ _ hdrain

/-- A tick of a level, in whatever status the timer is. -/
theorem tick (h : w.Alike w') (level : Nat) : (w.tick level).Alike (w'.tick level) := by
  simp only [World.tick, h.timer]
  have hserve : (w.serve level).Alike (w'.serve level) := h.modifyTimer _
  split
  · exact h
  · split
    · exact hserve.turnWheel level _
    · exact hserve
    · exact h

theorem ticks (level n : Nat) : ∀ {w w' : World}, w.Alike w' →
    (World.ticks level n w).Alike (World.ticks level n w') := by
  induction n with
  | zero => exact fun h => h
  | succ n ih => exact fun h => ih (h.tick level)

/-! ## The passing of time -/

/-- The rounds of one level that makes up for its ticks. Induction on the rounds. -/
theorem catchUp (level rounds : Nat) : ∀ {w w' : World}, w.Alike w' →
    (World.catchUp level rounds w).Alike (World.catchUp level rounds w') := by
  induction rounds with
  | zero => exact fun h => h
  | succ rounds ih =>
    intro w w' h
    simp only [World.catchUp, h.overdue]
    split
    · exact h
    · exact ih (ticks level _ h)

theorem servingOrder (h : w.Alike w') : w'.servingOrder = w.servingOrder := by
  unfold World.servingOrder
  rw [h.timer, h.coarseFirst]

theorem isDue (h : w.Alike w') : w'.isDue = w.isDue := by
  simp only [World.isDue, h.servingOrder, h.overdue]

/-- The levels one after the other, in the order of the world. Induction on the levels. -/
theorem serveAll (levels : List Nat) : ∀ {w w' : World}, w.Alike w' →
    (w.serveAll levels).Alike (w'.serveAll levels) := by
  induction levels with
  | nil => exact fun h => h
  | cons level rest ih =>
    intro w w' h
    have hfirst := catchUp level (w.jumpBound + 1) h
    simp only [World.serveAll, List.foldl_cons, h.jumpBound]
    exact ih hfirst

/-- The passes over the levels. Induction on the passes. -/
theorem settleWithin (passes : Nat) : ∀ {w w' : World}, w.Alike w' →
    (World.settleWithin passes w).Alike (World.settleWithin passes w') := by
  induction passes with
  | zero => exact fun h => h
  | succ passes ih =>
    intro w w' h
    simp only [World.settleWithin, h.isDue]
    split
    · refine ih ?_
      simp only [World.pass, h.servingOrder]
      exact serveAll _ h
    · exact h

theorem settle (h : w.Alike w') : w.settle.Alike w'.settle := by
  simp only [World.settle, h.jumpBound]
  exact settleWithin _ h

/-- The stops on the way. Induction on their number; each of them lies at the same time in both
worlds. -/
theorem advanceWithin (targetUs n : Nat) : ∀ {w w' : World}, w.Alike w' →
    (World.advanceWithin targetUs n w).Alike (World.advanceWithin targetUs n w') := by
  induction n with
  | zero => exact fun h => h
  | succ n ih =>
    intro w w' h
    have hsettled := h.settle
    simp only [World.advanceWithin, hsettled.timer]
    split
    · exact hsettled
    · split
      · refine ih ?_
        exact { hsettled with clockUs := rfl, timer := rfl }
      · exact hsettled

/-- **Time passes alike**: the same ticks fall due at the same instants. -/
theorem advance (h : w.Alike w') (us : Nat) : (w.advance us).Alike (w'.advance us) := by
  have hticks (target : Nat) : w'.ticksBy target = w.ticksBy target := by
    unfold World.ticksBy
    rw [h.timer]
  have hlast := advanceWithin (w.clockUs + us) (w.ticksBy (w.clockUs + us) + 1) h
  simp only [World.advance, h.clockUs, hticks, hlast.clockUs]
  exact { hlast with clockUs := rfl }

/-! ## Timers -/

theorem dropTimer (h : w.Alike w') : w.dropTimer.Alike w'.dropTimer := by
  simp only [World.dropTimer, h.timer]
  split
  · exact h
  · exact { h.controlTimer _ .close with timer := rfl }

/-- A timer that replaces another one is the same in both worlds. -/
theorem startTimer (h : w.Alike w') (c : TimerConfig) :
    (w.startTimer c).Alike (w'.startTimer c) := by
  have hdropped := (h.log (.timerStarted c.slots c.levels c.intervalMs)).dropTimer
  exact { hdropped with
    timer := by simp only [World.startTimer, h.timers, h.clockUs]
    timers := congrArg (· + 1) h.timers }

/-- The shared timer comes into being alike, with the same warnings. -/
theorem wake (h : w.Alike w') (startup : Startup) : (w.wake startup).Alike (w'.wake startup) := by
  have hwarn (warnings : List LogLine) : ∀ {w w' : World}, w.Alike w' →
      (warnings.foldl World.log w).Alike (warnings.foldl World.log w') := by
    induction warnings with
    | nil => exact fun h => h
    | cons line rest ih => exact fun h => ih (h.log line)
  exact (hwarn startup.warnings h).startTimer startup.config

end Alike

end World

/-! ## Commands -/

/-- Commands that differ in how the bodies end that they schedule. -/
inductive Command.Alike : Command → Command → Prop where
  | same (c : Command) : Command.Alike c c
  | act {a a' : Action} (h : a.Alike a') : Command.Alike (.act a) (.act a')

/-- Whether the command runs a body and answers how that ended. -/
def Command.runsBody : Command → Bool
  | .act a => a.runsBody
  | .finish _ => true
  | _ => false

namespace World

variable {w w' : World}

/-- **Commands that are alike**, in worlds that are alike. -/
theorem Alike.step (h : w.Alike w') {c c' : Command} (hc : c.Alike c') :
    AlikeReplies c.runsBody (w.step c) (w'.step c') := by
  -- an action may carry bodies that end differently; every other command is the same on both
  -- sides
  cases hc with
  | act ha =>
    simp only [World.step, h.nesting]
    exact h.perform (fun i _ _ hv => Alike.invoke w.nesting i hv) ha
  | same c =>
    cases c with
    | act a =>
      simp only [World.step, h.nesting]
      exact h.perform (fun i _ _ hv => Alike.invoke w.nesting i hv) (.same a)
    | create config =>
      simp only [World.step, World.create]
      split
      · exact .of_world h _
      · exact .of_world (h.startTimer config) _
    | dropTimer => exact .of_world h.dropTimer _
    | dumpTimer =>
      simp only [World.step, h.timer]
      split <;> exact .of_world h _
    | timerStats =>
      simp only [World.step, h.timer]
      split <;> exact .of_world h _
    | touch => exact .of_world h _
    | advance us => exact .of_world (h.advance us) _
    | finish n =>
      simp only [World.step, World.finish, h.held]
      split
      · exact .of_world h _
      · next i hi =>
        have htaken : World.Alike { w with held := w.held.eraseIdx n }
            { w' with held := w.held.eraseIdx n } :=
          { h with held := rfl }
        exact (htaken.execute i).replies .finished
    | unsupported => exact .of_world h _

/-- Alike actions both need the shared timer, or neither does. -/
theorem Action.Alike.needsTimer {a a' : Action} (h : a.Alike a') :
    a'.needsTimer = a.needsTimer := by
  cases h <;> rfl

/-- Commands that are alike, in scenarios on a shared timer. It comes into being in both worlds at
the same command. -/
theorem Alike.stepShared (startup : Startup) (h : w.Alike w') {c c' : Command} (hc : c.Alike c') :
    AlikeReplies c.runsBody (w.stepShared startup c) (w'.stepShared startup c') := by
  have hstep (c c' : Command) (hc : c.Alike c') (needs : Bool) :
      AlikeReplies c.runsBody
        (if needs && w.timer.isNone then (w.wake startup).step c else w.step c)
        (if needs && w'.timer.isNone then (w'.wake startup).step c' else w'.step c') := by
    rw [h.timer]
    split
    · exact (h.wake startup).step hc
    · exact h.step hc
  cases hc with
  | act ha =>
    simp only [World.stepShared, Command.needsTimer, Action.Alike.needsTimer ha]
    exact hstep _ _ (.act ha) _
  | same c =>
    cases c with
    | create config => exact .of_world h _
    | dropTimer => exact .of_world h _
    -- everything else is done as in any scenario, the timer brought into being where it is needed
    | act a => exact hstep (.act a) (.act a) (.same _) a.needsTimer
    | dumpTimer => exact hstep .dumpTimer .dumpTimer (.same _) true
    | timerStats => exact hstep .timerStats .timerStats (.same _) true
    | touch => exact hstep .touch .touch (.same _) true
    | advance us => exact hstep (.advance us) (.advance us) (.same _) false
    | finish n => exact hstep (.finish n) (.finish n) (.same _) false
    | unsupported => exact hstep .unsupported .unsupported (.same _) false

/-- One command in a scenario that creates its timers itself, or in one that works on a shared
timer, if it is told how that comes into being. -/
def stepIn (shared : Option Startup) (w : World) (c : Command) : Answer × World :=
  match shared with
  | none => w.step c
  | some startup => w.stepShared startup c

/-- The world after some commands of such a scenario. -/
def afterIn (shared : Option Startup) (w : World) (commands : List Command) : World :=
  commands.foldl (fun w c => (w.stepIn shared c).2) w

/-- Commands that are alike, in scenarios of either kind. -/
theorem Alike.stepIn (shared : Option Startup) (h : w.Alike w') {c c' : Command} (hc : c.Alike c') :
    AlikeReplies c.runsBody (w.stepIn shared c) (w'.stepIn shared c') := by
  cases shared with
  | none => exact h.step hc
  | some startup => exact h.stepShared startup hc

/-- **Runs that are alike**: one command after another keeps worlds alike. -/
theorem Alike.afterIn (shared : Option Startup) {commands commands' : List Command}
    (hcommands : List.Forall₂ Command.Alike commands commands') : ∀ {w w' : World}, w.Alike w' →
    (w.afterIn shared commands).Alike (w'.afterIn shared commands') := by
  induction hcommands with
  | nil => exact fun h => h
  | cons hc _ ih => exact fun h => ih (h.stepIn shared hc).world

/-- A launch is no line about a failure, so both journals tell of the same launches. -/
theorem Alike.launches (h : w.Alike w') :
    w'.journal.filter Event.isLaunch = w.journal.filter Event.isLaunch := by
  have hpart (v : World) : v.told.filter Event.isLaunch = v.journal.filter Event.isLaunch := by
    unfold World.told
    rw [List.filter_filter]
    refine List.filter_congr fun ev _ => ?_
    cases ev <;> simp [Event.isLaunch, Event.isFailure]
  rw [← hpart, ← hpart, h.told]

/-- **Failures are isolated.** Two scenarios give the same commands, but for how bodies end: a body
that ends well, fails or breaks off in the one may end in another of these ways in the other. Then
after every command the clock, the timer with the tick counters and slots of its levels, every
entry, the executions held back and what has happened are the same, so there were the same launches
at the same ticks. Only lines of the log about failures differ, and the answer to whoever ran a body
that broke off. -/
theorem failures_isolated (nesting : Nat) (shared : Option Startup)
    {commands commands' : List Command} (h : List.Forall₂ Command.Alike commands commands')
    (n : Nat) :
    let w := afterIn shared { nesting } (commands.take n)
    let w' := afterIn shared { nesting } (commands'.take n)
    w.Alike w' ∧ w'.journal.filter Event.isLaunch = w.journal.filter Event.isLaunch
    ∧ ∀ c c', commands[n]? = some c → commands'[n]? = some c' →
        AlikeReplies c.runsBody (w.stepIn shared c) (w'.stepIn shared c') := by
  have hafter := Alike.afterIn shared (List.forall₂_take n h) (Alike.refl { nesting })
  refine ⟨hafter, hafter.launches, fun c c' hc hc' => hafter.stepIn shared ?_⟩
  obtain ⟨hn, rfl⟩ := List.getElem?_eq_some_iff.1 hc
  obtain ⟨hn', rfl⟩ := List.getElem?_eq_some_iff.1 hc'
  exact h.get hn hn'

/-- A job is started by a tick, held back by the next one and taken up later, and run by hand. -/
def threeStarts (outcomes : List Outcome) : List Command :=
  [.create { slots := 4, levels := 1, intervalMs := 10 },
    .act (.schedule "a" (.repeating 10) none outcomes []), .advance 10000, .act (.hold true),
    .advance 10000, .finish 0, .act (.control "a" .run)]

/-- In one run all goes well. In the other the body fails when the tick starts it and breaks off
afterwards, which the log and the last answer tell, and nothing else does. -/
theorem failures_isolated_at_each_start :
    let w := afterIn none {} ((threeStarts [.done]).take 6)
    let w' := afterIn none {} ((threeStarts [.failed "no", .crashed]).take 6)
    w'.timer = w.timer ∧ w'.entries = w.entries
    ∧ w'.journal.filter Event.isLaunch = w.journal.filter Event.isLaunch
    ∧ (w.journal.filter Event.isLaunch).length = 2
    ∧ .logged (.jobFailed 0 "no") ∈ w'.journal ∧ .logged (.jobFailed 0 "no") ∉ w.journal
    ∧ ((w.stepIn none (.act (.control "a" .run))).1 matches .done)
    ∧ ((w'.stepIn none (.act (.control "a" .run))).1 matches .crashed) := by
  have hjob : Action.Alike (.schedule "a" (.repeating 10) none [.done] [])
      (.schedule "a" (.repeating 10) none [.failed "no", .crashed] []) := by
    refine .schedule _ _ _ (fun start => ?_) .nil
    rcases start with _ | _ | start <;> simp [Script.outcome, Outcome.Alike]
  have hcommands : List.Forall₂ Command.Alike (threeStarts [.done])
      (threeStarts [.failed "no", .crashed]) :=
    .cons (.same _) (.cons (.act hjob) (List.forall₂_same.2 fun c _ => .same c))
  obtain ⟨halike, hlaunches, -⟩ := failures_isolated 3 none hcommands 6
  exact ⟨halike.timer, halike.entries, hlaunches, by decide +kernel, by decide +kernel,
    by decide +kernel, by decide +kernel, by decide +kernel⟩

end World

end TimingWheel
