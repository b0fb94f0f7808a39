import TimingWheel.Count

/-!
# Wheels

One level of the hierarchy: a ring of slots, each the list of the entries that are due for a look
when the ring gets there. A wheel knows entries only by number.

* `Wheel.ticksAhead` says how far ahead of the current tick a delay is put. The finest level rounds
  up, so that an entry is never looked at before it is due. A coarser one rounds down, so that it
  hands the entry on to a finer level no later than it is due; what is left of the delay is placed
  again then.
* `Wheel.install` puts an entry that far ahead, and `Wheel.turn` moves the ring by one slot and
  empties the slot it comes to.
-/

namespace TimingWheel

/-- The number of an entry. -/
abbrev EntryId := Nat

/-- One level of the hierarchy. -/
structure Wheel where
  /-- The level; 0 is the finest. -/
  level : Nat
  slotCount : Nat
  /-- Milliseconds from one tick to the next. -/
  resolutionMs : Nat
  /-- Ticks that moved the ring. -/
  ticks : Nat := 0
  /-- Ticks that fell due and were dealt with, those lost to a stopped timer included. -/
  served : Nat := 0
  /-- The entries of each slot, in the order in which they were put there. -/
  slots : Array (Array EntryId)
  deriving Repr, Inhabited

namespace Wheel

/-- How many ticks ahead a delay is put: at least one, at most one rotation. -/
def ticksAhead (level remainingMs resolutionMs slotCount : Nat) : Nat :=
  let ticks :=
    -- the finest level rounds up, a coarser one rounds down
    if level = 0 then (remainingMs + resolutionMs - 1) / resolutionMs
    else remainingMs / resolutionMs
  max 1 (min ticks slotCount)

def empty (level slotCount resolutionMs : Nat) : Wheel :=
  { level, slotCount, resolutionMs, slots := Array.replicate slotCount #[] }

/-- Milliseconds that one rotation covers. -/
def spanMs (w : Wheel) : Nat := mulCapped w.resolutionMs w.slotCount

/-- The tick at which an entry with this delay is looked at. -/
def target (w : Wheel) (remainingMs : Nat) : Nat :=
  w.ticks + ticksAhead w.level remainingMs w.resolutionMs w.slotCount

/-- Puts an entry last into the slot of a tick. -/
def install (w : Wheel) (entry : EntryId) (tick : Nat) : Wheel :=
  { w with slots := w.slots.modify (tick % w.slotCount) (·.push entry) }

/-- The entries of the slot that the next tick comes to. -/
def nextBatch (w : Wheel) : Array EntryId := w.slots.getD ((w.ticks + 1) % w.slotCount) #[]

/-- The wheel one tick later, the slot it came to emptied. -/
def turn (w : Wheel) : Wheel :=
  { w with
    ticks := w.ticks + 1
    slots := w.slots.modify ((w.ticks + 1) % w.slotCount) (fun _ => #[]) }

def pending (w : Wheel) : Nat := w.slots.foldl (fun n slot => n + slot.size) 0

theorem one_le_ticksAhead (level remainingMs resolutionMs slotCount : Nat) :
    1 ≤ ticksAhead level remainingMs resolutionMs slotCount := Nat.le_max_left _ _

theorem ticksAhead_le {slotCount : Nat} (h : 1 ≤ slotCount) (level remainingMs resolutionMs : Nat) :
    ticksAhead level remainingMs resolutionMs slotCount ≤ slotCount :=
  Nat.max_le.2 ⟨h, Nat.min_le_right _ _⟩

end Wheel

end TimingWheel
