/-!
# Statuses

The life of a scheduled entry and of a timer, with their names in text (`ready`), in a structured
dump (`Ready`) and as numbers.
-/

namespace TimingWheel

/-- The life of a scheduled entry. -/
inductive EntryStatus where
  /-- Armed: it fires when its due tick arrives. -/
  | ready
  /-- An execution of its job is in flight. -/
  | running
  /-- Suspended: it still rotates through the wheel and never fires. -/
  | stopped
  /-- Its run limit was restored; it turns ready when its slot is next drained. -/
  | reset
  /-- Over: it leaves the wheel when its slot is next drained. -/
  | closed
  deriving Repr, DecidableEq, Inhabited

/-- Whether the levels of a timer handle their ticks. -/
inductive TimerStatus where
  | running
  /-- Ticks are lost while the timer is stopped. -/
  | stopped
  /-- Nothing is handled any more. -/
  | closed
  deriving Repr, DecidableEq, Inhabited

namespace EntryStatus

def all : List EntryStatus := [ready, running, stopped, reset, closed]

def name : EntryStatus → String
  | ready => "ready"
  | running => "running"
  | stopped => "stopped"
  | reset => "reset"
  | closed => "closed"

def dumpName : EntryStatus → String
  | ready => "Ready"
  | running => "Running"
  | stopped => "Stopped"
  | reset => "Reset"
  | closed => "Closed"

def code : EntryStatus → Nat
  | ready => 0
  | running => 1
  | stopped => 2
  | reset => 3
  | closed => 4

/-- The status with a given name; names are exact, letter case included. -/
def ofName? (text : String) : Option EntryStatus := all.find? (·.name == text)

/-- What is said of a name that no status has. -/
def unknownName (text : String) : String := "unknown entry status: " ++ text

theorem ofName?_name (s : EntryStatus) : ofName? s.name = some s := by
  cases s <;> decide

end EntryStatus

namespace TimerStatus

def all : List TimerStatus := [running, stopped, closed]

def name : TimerStatus → String
  | running => "running"
  | stopped => "stopped"
  | closed => "closed"

def dumpName : TimerStatus → String
  | running => "Running"
  | stopped => "Stopped"
  | closed => "Closed"

def code : TimerStatus → Nat
  | running => 0
  | stopped => 1
  | closed => 2

/-- The status with a given name; names are exact, letter case included. -/
def ofName? (text : String) : Option TimerStatus := all.find? (·.name == text)

theorem ofName?_name (s : TimerStatus) : ofName? s.name = some s := by
  cases s <;> decide

end TimerStatus

end TimingWheel
