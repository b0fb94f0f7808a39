import TimingWheel.Journal
import TimingWheel.Script
import TimingWheel.Timer

/-!
# The simulated world

One clock, at most one timer, and everything that was ever scheduled. The clock stands still unless
something moves it, and one thing happens at a time, so a world is a value and whatever happens is a
function on it.

Entries and jobs are numbered in the order in which they came to be and are never taken away; an
entry whose timer is gone keeps its status and can no longer be placed.
-/

namespace TimingWheel

structure World where
  /-- The clock in microseconds. -/
  clockUs : Nat := 0
  timer : Option Timer := none
  timers : Nat := 0
  entries : Array Entry := #[]
  jobs : Array Job := #[]
  handles : List (String × EntryId) := []
  /-- Executions launched and held back, the oldest first. -/
  held : List EntryId := []
  /-- Whether executions are held back when they are launched. -/
  holding : Bool := false
  /-- Whether the coarsest level is served first. -/
  coarseFirst : Bool := false
  /-- No more clock jumps than this can come out of the bodies scheduled so far. -/
  jumpBound : Nat := 0
  /-- How deep bodies that perform actions may be nested. Nothing changes it. -/
  nesting : Nat := 3
  /-- What has happened, the latest first. -/
  journal : List Event := []
  deriving Inhabited

namespace World

def tell (w : World) (e : Event) : World := { w with journal := e :: w.journal }

def log (w : World) (line : LogLine) : World := w.tell (.logged line)

def modifyEntry (w : World) (i : EntryId) (f : Entry → Entry) : World :=
  { w with entries := w.entries.modify i f }

def modifyTimer (w : World) (f : Timer → Timer) : World :=
  match w.timer with
  | none => w
  | some t => { w with timer := some (f t) }

/-- The clock of the timer in milliseconds, 0 without a timer. -/
def nowMs (w : World) : Nat := (w.timer.map (·.nowMs w.clockUs)).getD 0

/-- Whether the timer with a number is still there. -/
def hasTimer (w : World) (id : TimerId) : Bool := w.timer.any (·.id == id)

def lookup (w : World) (handle : String) : Option EntryId := w.handles.lookup handle

def drop (w : World) (handle : String) : World :=
  { w with handles := w.handles.filter (·.1 != handle) }

/-- Lets a handle stand for an entry and for nothing else. -/
def assign (w : World) (handle : String) (i : EntryId) : World :=
  { w with handles := (handle, i) :: w.handles.filter (·.1 != handle) }

/-- The world with an empty journal, and the events of the old one in their order. -/
def takeJournal (w : World) : List Event × World := (w.journal.reverse, { w with journal := [] })

end World

end TimingWheel
