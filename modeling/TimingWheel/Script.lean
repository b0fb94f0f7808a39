import TimingWheel.Entry

/-!
# Scripts of jobs

What the body of a job does is told by a script: for each start of the body the actions it performs,
and how the body ends. Actions name entries by the handles that a scenario gave them. A body may
schedule further jobs, so actions and scripts contain each other.
-/

namespace TimingWheel

inductive Outcome where
  | done
  /-- The job wants no further runs. -/
  | exit
  /-- This run failed; the schedule goes on. -/
  | failed (reason : String)
  /-- The body breaks off without an answer. -/
  | crashed
  deriving Repr, DecidableEq, Inhabited

/-- What a body says when it does not end well. A body that breaks off says nothing. -/
def Outcome.text? : Outcome → Option String
  | .exit => some "job requested exit"
  | .failed reason => some ("job failed: " ++ reason)
  | .done | .crashed => none

/-- Something the owner of a timer does with it. -/
inductive TimerControl where
  | start
  | stop
  | close
  deriving Repr, DecidableEq

/-- Something that a job body, like the world outside, can do. -/
inductive Action where
  | control (handle : String) (control : Control)
  /-- Ask for the interval of the entry behind a handle. -/
  | interval (handle : String)
  | dump (handle : String)
  /-- Give the entry behind a handle a second handle. -/
  | share (handle copy : String)
  /-- Ask whether two handles stand for one entry. -/
  | same (handle other : String)
  | forget (handle : String)
  /-- Schedule a job and keep its entry under a handle. With a delay the entry is the one that
  does the scheduling once the delay has passed. -/
  | schedule (handle : String) (registration : Registration) (delayMs : Option Nat)
      (outcomes : List Outcome) (rounds : List (List Action))
  | timer (control : TimerControl)
  /-- Move the clock without handling a tick. -/
  | jump (us : Nat)
  /-- Hold executions back instead of running them when they are launched, or stop doing so. -/
  | hold (on : Bool)
  /-- Serve the levels of a timer coarsest first, or finest first. -/
  | coarseFirst (on : Bool)
  deriving Repr, Inhabited

/-- What a body does at each of its starts, and how it ends. -/
structure Script where
  /-- The endings of the first, second, … start. The last one stays; without any, all is well. -/
  outcomes : List Outcome := []
  rounds : List (List Action) := []
  deriving Repr, Inhabited

namespace Script

/-- The ending of the start with the given number, counted from 0. -/
def outcome (s : Script) (start : Nat) : Outcome :=
  s.outcomes.getD start (s.outcomes.getLastD .done)

def round (s : Script) (start : Nat) : List Action := s.rounds.getD start []

end Script

mutual

/-- How often an action, and the bodies it schedules, can move the clock. -/
def Action.jumps : Action → Nat
  | .jump _ => 1
  | .schedule _ _ _ _ rounds => jumpsOfRounds rounds
  | _ => 0

def jumpsOfRound : List Action → Nat
  | [] => 0
  | a :: rest => a.jumps + jumpsOfRound rest

def jumpsOfRounds : List (List Action) → Nat
  | [] => 0
  | r :: rest => jumpsOfRound r + jumpsOfRounds rest

end

def Script.jumps (s : Script) : Nat := jumpsOfRounds s.rounds

/-- A scheduled body: its script and how often it was started. -/
structure Job where
  /-- The name under which its starts are told. -/
  label : String
  script : Script
  starts : Nat := 0
  deriving Repr, Inhabited

end TimingWheel
