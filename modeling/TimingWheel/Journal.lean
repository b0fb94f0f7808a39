import TimingWheel.Entry

/-!
# The journal

What happens in a simulated world, in order: what owners do with entries, the looks that ticks take
at them, the bodies of jobs that start, the executions that end, and the lines that a log would
show. `LogLine` holds what a line is about; its
severity, message and fields follow from that.
-/

namespace TimingWheel

inductive Severity where
  | error
  | warn
  | info
  | debug
  | trace
  deriving Repr, DecidableEq

namespace Severity

/-- All severities, the gravest first. -/
def all : List Severity := [error, warn, info, debug, trace]

def name : Severity → String
  | error => "error"
  | warn => "warn"
  | info => "info"
  | debug => "debug"
  | trace => "trace"

/-- The name that a log line carries. -/
def label : Severity → String
  | error => "ERROR"
  | warn => "WARN"
  | info => "INFO"
  | debug => "DEBUG"
  | trace => "TRACE"

/-- The rank of a severity, 0 for the gravest. -/
def rank : Severity → Nat
  | error => 0
  | warn => 1
  | info => 2
  | debug => 3
  | trace => 4

def ofName? (text : String) : Option Severity := all.find? (·.name == text)

end Severity

inductive LogLine where
  | timerStarted (slots levels intervalMs : Nat)
  | timerResumed
  | timerStopped
  | timerClosed
  | entryAdded (entry : EntryId) (intervalMs : Nat) (singleton : Bool) (status : EntryStatus)
      (level : Nat)
  | entryStopped (entry : EntryId)
  | entryStarted (entry : EntryId)
  | entryReset (entry : EntryId) (limit : Runs)
  | entryClosed (entry : EntryId)
  | entryReinstalled (entry : EntryId)
  | jobExited (entry : EntryId)
  | jobFailed (entry : EntryId) (reason : String)
  | runsUsedUp (entry : EntryId)
  | drainingSlot (level tick count : Nat)
  | configNotLoaded (reason : String)
  | configRejected (reason : String)
  deriving Repr, DecidableEq

namespace LogLine

def severity : LogLine → Severity
  | timerStarted .. | timerResumed | timerStopped | timerClosed => .info
  | entryAdded .. | entryStopped _ | entryStarted _ | entryReset .. | entryClosed _
  | entryReinstalled _ | jobExited _ | runsUsedUp _ => .debug
  | jobFailed .. => .error
  | drainingSlot .. => .trace
  | configNotLoaded _ | configRejected _ => .warn

def message : LogLine → String
  | timerStarted .. => "timer started"
  | timerResumed => "timer resumed"
  | timerStopped => "timer stopped"
  | timerClosed => "timer closed"
  | entryAdded .. => "entry added"
  | entryStopped _ => "entry stopped"
  | entryStarted _ => "entry started"
  | entryReset .. => "entry reset"
  | entryClosed _ => "entry closed"
  | entryReinstalled _ => "entry reinstalled"
  | jobExited _ => "job exited, entry closed"
  | jobFailed .. => "job failed"
  | runsUsedUp _ => "entry used up its runs"
  | drainingSlot .. => "draining slot"
  | configNotLoaded reason => "Timer config load failed (" ++ reason ++ "), using defaults"
  | configRejected reason => "Default timer rejected config (" ++ reason ++ "), using defaults"

/-- The named values of the line. Numbers of entries are a matter of the simulation and are left
out. -/
def fields : LogLine → List (String × String)
  | timerStarted slots levels intervalMs =>
    [("slots", toString slots), ("levels", toString levels), ("interval_ms", toString intervalMs)]
  | entryAdded _ intervalMs singleton status level =>
    [("interval_ms", toString intervalMs), ("singleton", if singleton then "true" else "false"),
      ("status", status.name), ("level", toString level)]
  | entryReset _ limit => [("limit", toString limit.toCount)]
  | jobFailed _ reason => [("error", reason)]
  | drainingSlot level tick count =>
    [("level", toString level), ("tick", toString tick), ("count", toString count)]
  | _ => []

/-- Whether a log that shows lines up to a severity shows this one. -/
def shownAt (threshold : Severity) (line : LogLine) : Bool := line.severity.rank ≤ threshold.rank

end LogLine

/-- Something that happens in a simulated world. -/
inductive Event where
  /-- The owner of an entry does something with it. -/
  | controlled (entry : EntryId) (control : Control)
  /-- A tick of a level looks at an entry that it drained, at a time of the timer's own clock. -/
  | evaluated (entry : EntryId) (level tick nowMs : Nat) (verdict : Verdict)
  | started (entry : EntryId) (job : JobId) (label : String) (clockUs : Nat)
  /-- An execution that a tick put in flight ends. -/
  | completed (entry : EntryId)
  | logged (line : LogLine)
  deriving Repr, DecidableEq

end TimingWheel
