import TimingWheel.Config
import TimingWheel.Runs
import TimingWheel.Status
import TimingWheel.Text.Quoted
import TimingWheel.Wheel

/-!
# Entries

A scheduled job as the wheels see it: when it is due, how often it may still run, and which of its
executions are in flight. Every change an entry goes through is a function here, free of clock and
wheels:

* `Entry.evaluate` is the look that a tick takes at an entry it drained; it answers with a
  `Verdict`, and only the verdict `run` takes a run and puts an execution in flight.
* `Entry.advanceDue` moves the due time on at a fixed rate.
* `Entry.complete` ends an execution.
* `Entry.stop`, `start`, `reset`, `close`, `setRuns` and `setSingleton` are the owner's controls.
-/

namespace TimingWheel

abbrev JobId := Nat

/-- How a job is to be scheduled. -/
structure Registration where
  intervalMs : Nat
  /-- Never two executions at once. -/
  singleton : Bool := false
  runs : Runs := .unlimited
  status : EntryStatus := .ready
  deriving Repr, DecidableEq

namespace Registration

def repeating (intervalMs : Nat) : Registration := { intervalMs }

/-- A job that fires again and again and never overlaps itself. -/
def exclusive (intervalMs : Nat) : Registration := { intervalMs, singleton := true }

/-- A job that is over after a number of runs. -/
def counted (intervalMs : Nat) (runs : Runs) : Registration :=
  { intervalMs, singleton := true, runs }

def once (intervalMs : Nat) : Registration := counted intervalMs (.left 1)

/-- The status that a new entry starts with: without a run it is over at once, and nothing is
running before its first execution. -/
def initialStatus (r : Registration) : EntryStatus :=
  if r.runs.isSpent then .closed
  else if r.status = .running then .ready
  else r.status

end Registration

/-- What an execution of an entry does. -/
inductive Task where
  | body (job : JobId)
  /-- Schedule a job on the entry's own timer, as long as that timer is there. -/
  | register (registration : Registration) (job : JobId)
  deriving Repr, DecidableEq

structure Entry where
  task : Task
  /-- The timer it was scheduled on. -/
  owner : Nat
  intervalMs : Nat
  singleton : Bool
  /-- Runs that a reset restores. -/
  limit : Runs
  remaining : Runs
  status : EntryStatus
  /-- Milliseconds of the owner's clock from which on the entry may fire. -/
  dueMs : Nat
  /-- Level whose slot the entry was last put into. -/
  level : Nat := 0
  /-- Tick of that level which drains the slot. -/
  installedTick : Nat := 0
  /-- Whether the wheels own the entry: a slot holds it, or a tick that drained it has not dealt
  with it yet. -/
  installed : Bool := false
  inFlight : Nat := 0
  deriving Repr

/-- Something the owner of an entry does with it. -/
inductive Control where
  | stop
  | start
  | reset
  | close
  /-- Run the body at once, outside the wheels. -/
  | run
  | setRuns (runs : Runs)
  | setSingleton (on : Bool)
  deriving Repr, DecidableEq

/-- What a tick does with an entry that it drained. -/
inductive Verdict where
  /-- The entry is over: give it up. -/
  | drop
  /-- Not due yet: place it again for the same time. -/
  | wait
  /-- Due and not allowed to run: try again one interval later. -/
  | skip
  /-- Launch an execution; `last` tells that it took the last run. -/
  | run (last : Bool)
  deriving Repr, DecidableEq

namespace Entry

/-- A new entry, due one interval from the given time. -/
def ofRegistration (r : Registration) (task : Task) (owner nowMs : Nat) : Entry :=
  { task, owner
    intervalMs := r.intervalMs
    singleton := r.singleton
    limit := r.runs
    remaining := r.runs
    status := r.initialStatus
    dueMs := addCapped nowMs r.intervalMs }

/-- A reset entry is ready again once it is looked at. -/
def settleReset (e : Entry) : Entry :=
  if e.status = .reset then { e with status := .ready } else e

/-- Puts one more execution in flight. A singleton lets only one in. -/
def enter (e : Entry) : Option Entry :=
  if e.singleton && e.inFlight != 0 then none else some { e with inFlight := e.inFlight + 1 }

/-- Takes back an execution that was put in flight and is not launched after all. -/
def withdraw (e : Entry) : Entry := { e with inFlight := e.inFlight - 1 }

/-- Puts an execution in flight, marks the entry as running and takes a run for the execution. A
singleton with an execution in flight is skipped, and so is an entry that is not armed any more; an
entry without a run left is over. What was put in flight is withdrawn then. -/
def claim (e : Entry) : Verdict × Entry :=
  match e.enter with
  | none => (.skip, e)
  | some e =>
    match e.status with
    | .closed => (.drop, e.withdraw)
    | .stopped | .reset => (.skip, e.withdraw)
    | .ready | .running =>
      let e := { e with status := .running }
      match e.remaining.consume with
      | none => (.drop, { e.withdraw with status := .closed })
      | some rest => (.run (e.remaining = .left 1), { e with remaining := rest })

/-- The look that a tick takes at an entry. -/
def evaluate (nowMs : Nat) (e : Entry) : Verdict × Entry :=
  let e := e.settleReset
  -- being over comes before being early, and being early before being suspended
  if e.status = .closed then (.drop, e)
  else if nowMs < e.dueMs then (.wait, e)
  else if e.status = .stopped then (.skip, e)
  else e.claim

/-- The due time moves on by one interval. Where that is past already, the rate starts afresh from
now, so that missed intervals are not made up for. -/
def advanceDue (nowMs : Nat) (e : Entry) : Entry :=
  let next := addCapped e.dueMs e.intervalMs
  { e with dueMs := if next ≤ nowMs then addCapped nowMs e.intervalMs else next }

/-- Ends an execution. With no run left the entry is over; otherwise it is ready again when none
of its executions is in flight any more. -/
def complete (e : Entry) : Entry :=
  let e := { e with inFlight := e.inFlight - 1 }
  if (e.status = .running ∨ e.status = .stopped) ∧ e.remaining.isSpent then
    { e with status := .closed }
  else if e.status = .running ∧ e.inFlight = 0 then { e with status := .ready }
  else e

def stop (e : Entry) : Entry :=
  if e.status = .stopped ∨ e.status = .closed then e else { e with status := .stopped }

def start (e : Entry) : Entry := if e.status = .stopped then { e with status := .ready } else e

/-- Restores the runs and arms the entry, even when it was over. -/
def reset (e : Entry) : Entry := { e with remaining := e.limit, status := .reset }

/-- Ends the entry; an execution in flight goes on. -/
def close (e : Entry) : Entry := { e with status := .closed }

def setRuns (runs : Runs) (e : Entry) : Entry := { e with limit := runs, remaining := runs }

def setSingleton (on : Bool) (e : Entry) : Entry := { e with singleton := on }

/-- The wheels take the entry, due one interval from the given time. -/
def rearm (nowMs : Nat) (e : Entry) : Entry :=
  { e with installed := true, dueMs := addCapped nowMs e.intervalMs }

/-- Records the slot that the entry was put into. -/
def putAt (level tick : Nat) (e : Entry) : Entry := { e with level, installedTick := tick }

/-- The wheels give the entry up. -/
def release (e : Entry) : Entry := { e with installed := false }

def remainingMs (nowMs : Nat) (e : Entry) : Nat := e.dueMs - nowMs

/-- The entry in a structured dump, under the given name. -/
def dump (name : String) (e : Entry) : String :=
  let runs := match e.remaining with
    | .unlimited => "None"
    | .left n => "Some(" ++ toString n ++ ")"
  "Entry \x7b id: EntryId(" ++ Text.quote name
    ++ "), status: " ++ e.status.dumpName
    ++ ", interval: " ++ (Duration.ofMillis e.intervalMs).text
    ++ ", singleton: " ++ (if e.singleton then "true" else "false")
    ++ ", remaining_runs: " ++ runs
    ++ ", level: " ++ toString e.level ++ " \x7d"

end Entry

end TimingWheel
