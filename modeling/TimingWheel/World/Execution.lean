import TimingWheel.World.Placement

/-!
# Executions

What the outside world and the bodies of jobs can do, and how bodies run.

* `World.perform` does one action. Running an entry's body by hand is the one action that runs a
  body, so `perform` takes the way to do that as an argument.
* `World.invoke` runs the task of an entry. Bodies may run bodies; the innermost of `nesting + 1`
  bodies performs no actions any more.
* `World.launch` starts an execution on behalf of a tick: the body, then its completion, at once or
  held back until `World.finish`.
-/

namespace TimingWheel

/-- The answer to an action. -/
inductive Answer where
  | done
  /-- There is no timer to do this with. -/
  | noTimer
  /-- No entry has this handle. -/
  | noEntry
  /-- There is no such action here. -/
  | unsupported
  /-- A held execution has come to its end. -/
  | finished
  /-- A body broke off. -/
  | crashed
  /-- There is no such held execution. -/
  | nothingHeld
  | truth (b : Bool)
  | duration (d : Duration)
  | text (s : String)
  | stats (s : TimerStats)
  | refused (f : Failure)
  deriving Repr

namespace World

def stopEntry (w : World) (i : EntryId) (e : Entry) : World :=
  if e.status = .stopped ∨ e.status = .closed then w
  else (w.modifyEntry i (·.stop)).log (.entryStopped i)

def startEntry (w : World) (i : EntryId) (e : Entry) : World :=
  if e.status = .stopped then ((w.modifyEntry i (·.start)).log (.entryStarted i)).reinstall i
  else w

def resetEntry (w : World) (i : EntryId) (e : Entry) : World :=
  ((w.modifyEntry i (·.reset)).log (.entryReset i e.limit)).reinstall i

def closeEntry (w : World) (i : EntryId) (e : Entry) : World :=
  if e.status = .closed then w else (w.modifyEntry i (·.close)).log (.entryClosed i)

/-- Controls an entry; `runTask` runs its task by hand. -/
def control (runTask : EntryId → World → Outcome × World) (w : World) (i : EntryId) (e : Entry)
    (c : Control) : Answer × World :=
  let w := w.tell (.controlled i c)
  match c with
  | .stop => (.done, w.stopEntry i e)
  | .start => (.done, w.startEntry i e)
  | .reset => (.done, w.resetEntry i e)
  | .close => (.done, w.closeEntry i e)
  | .run =>
    let (outcome, w) := runTask i w
    (if outcome = .crashed then .crashed else .done, w)
  | .setRuns runs => (.done, w.modifyEntry i (·.setRuns runs))
  | .setSingleton on => (.done, w.modifyEntry i (·.setSingleton on))

/-- Controls the timer. Only a stopped one starts, only a running one stops, and a closed one stays
closed. -/
def controlTimer (w : World) (t : Timer) : TimerControl → World
  | .start =>
    if t.status = .stopped then
      (w.modifyTimer ({ · with status := .running })).log .timerResumed
    else w
  | .stop =>
    if t.status = .running then
      (w.modifyTimer ({ · with status := .stopped })).log .timerStopped
    else w
  | .close =>
    if t.status = .closed then w
    else (w.modifyTimer ({ · with status := .closed })).log .timerClosed

/-- Schedules a job under a handle, at once or after a delay. -/
def schedule (w : World) (handle : String) (r : Registration) (delayMs : Option Nat)
    (script : Script) : World :=
  let job := w.jobs.size
  let i := w.entries.size
  let w :=
    { w with
      jobs := w.jobs.push { label := handle, script }
      jumpBound := w.jumpBound + script.jumps }
  -- with a delay the handle is that of the entry that does the scheduling
  let w :=
    match delayMs with
    | none => w.register r (.body job)
    | some delay => w.register (.once delay) (.register r job)
  w.assign handle i

/-- Answers for the entry behind a handle. -/
def withEntry (w : World) (handle : String) (f : EntryId → Entry → Answer × World) :
    Answer × World :=
  match w.lookup handle with
  | none => (.noEntry, w)
  | some i =>
    match w.entries[i]? with
    | none => (.noEntry, w)
    | some e => f i e

/-- Does one action; `runTask` runs the task of an entry by hand. -/
def perform (runTask : EntryId → World → Outcome × World) (w : World) : Action → Answer × World
  | .control handle c => w.withEntry handle fun i e => w.control runTask i e c
  | .interval handle =>
    w.withEntry handle fun _ e => (.duration (.ofMillis e.intervalMs), w)
  | .dump handle => w.withEntry handle fun _ e => (.text (e.dump "ID"), w)
  | .share handle copy => w.withEntry handle fun i _ => (.done, w.assign copy i)
  | .same handle other =>
    w.withEntry handle fun i _ =>
      match w.lookup other with
      | none => (.noEntry, w)
      | some j => (.truth (i == j), w)
  | .forget handle => w.withEntry handle fun _ _ => (.done, w.drop handle)
  | .schedule handle r delayMs outcomes rounds =>
    match w.timer with
    | none => (.noTimer, w)
    | some _ => (.done, w.schedule handle r delayMs { outcomes, rounds })
  | .timer c =>
    match w.timer with
    | none => (.noTimer, w)
    | some t => (.done, w.controlTimer t c)
  | .jump us => (.done, { w with clockUs := w.clockUs + us })
  | .hold on => (.done, { w with holding := on })
  | .coarseFirst on => (.done, { w with coarseFirst := on })

/-- What the ending of a body does to its entry. -/
def conclude (w : World) (i : EntryId) : Outcome → World
  | .exit => (w.modifyEntry i (·.close)).log (.jobExited i)
  | .failed reason => w.log (.jobFailed i reason)
  | .done | .crashed => w

def beginBody (w : World) (i : EntryId) (job : JobId) (label : String) : World :=
  { w with jobs := w.jobs.modify job fun j => { j with starts := j.starts + 1 } }.tell
    (.started i job label w.clockUs)

/-- Runs the task of an entry, in which bodies perform actions down to the given nesting. -/
def invoke : Nat → EntryId → World → Outcome × World
  | nesting, i, w =>
    match w.entries[i]? with
    | none => (.done, w)
    | some e =>
      match e.task with
      | .register r job => (.done, if w.hasTimer e.owner then w.register r (.body job) else w)
      | .body job =>
        match w.jobs[job]? with
        | none => (.done, w)
        | some j =>
          let w := w.beginBody i job j.label
          let w :=
            match nesting with
            -- a body at the innermost level starts and ends, and does nothing in between
            | 0 => w
            | n + 1 =>
              (j.script.round j.starts).foldl (fun w a => (w.perform (invoke n) a).2) w
          let outcome := j.script.outcome j.starts
          (outcome, w.conclude i outcome)

def complete (w : World) (i : EntryId) : World :=
  match w.entries[i]? with
  | none => w
  | some e =>
    let w := (w.modifyEntry i (·.complete)).tell (.completed i)
    if e.complete.status = .closed ∧ e.status ≠ .closed then w.log (.runsUsedUp i) else w

/-- One execution: the task, then its completion, also after a body that broke off. -/
def execute (w : World) (i : EntryId) : Outcome × World :=
  let (outcome, w) := invoke w.nesting i w
  (outcome, w.complete i)

/-- Launches an execution that a tick put in flight. -/
def launch (w : World) (i : EntryId) : World :=
  if w.holding then { w with held := w.held ++ [i] } else (w.execute i).2

/-- Executes the held execution with the given number, counted from the oldest. -/
def finish (w : World) (n : Nat) : Answer × World :=
  match w.held[n]? with
  | none => (.nothingHeld, w)
  | some i =>
    let (outcome, w) := { w with held := w.held.eraseIdx n }.execute i
    (if outcome = .crashed then .crashed else .finished, w)

end World

end TimingWheel
