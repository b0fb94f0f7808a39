import TimingWheel.World.Execution

/-!
# Ticks and the passing of time

* `World.turnWheel` moves one wheel by one tick and deals with every entry of the slot it comes to.
* `World.tick` is one due tick of a level: a running timer turns the wheel, a stopped one loses the
  tick, a closed one has no ticks.
* `World.settle` deals with everything that is due now, level by level.
* `World.advance` moves the clock from one due tick to the next, up to a target.

A body may move the clock while ticks are dealt with, so more may be due afterwards. Every such move
is an action that was scheduled with the body, and each of those happens at most once, so
`World.jumpBound` tells how often it is worth looking again.
-/

namespace TimingWheel.World

/-- Deals with one entry that a tick drained. -/
def dispatch (level tick nowMs : Nat) (w : World) (i : EntryId) : World :=
  match w.entries[i]? with
  | none => w
  | some e =>
    let (verdict, e') := e.evaluate nowMs
    let w := (w.modifyEntry i fun _ => e').tell (.evaluated i level tick nowMs verdict)
    match verdict with
    | .drop => w.release i
    | .wait => w.place i
    | .skip => (w.modifyEntry i (·.advanceDue nowMs)).place i
    | .run last =>
      -- the verdict was given before the body runs, and the body does not change it any more
      let w := w.launch i
      if last then w.release i else (w.modifyEntry i (·.advanceDue nowMs)).place i

/-- Moves a wheel by one tick and deals with the entries it comes to, at the time at which the slot
was drained. Whatever is put into a slot meanwhile waits for a later tick. -/
def turnWheel (w : World) (level : Nat) (wheel : Wheel) : World :=
  let batch := wheel.nextBatch
  let tick := wheel.ticks + 1
  let w := w.modifyTimer (·.modifyWheel level (·.turn))
  if batch.isEmpty then w
  else
    let w := w.log (.drainingSlot level tick batch.size)
    -- read once, since bodies may move the clock while the batch is dealt with
    batch.foldl (dispatch level tick w.nowMs) w

/-- Counts a due tick of a level as dealt with. -/
def serve (w : World) (level : Nat) : World :=
  w.modifyTimer (·.modifyWheel level fun wheel => { wheel with served := wheel.served + 1 })

/-- One due tick of a level. -/
def tick (w : World) (level : Nat) : World :=
  match w.timer with
  | none => w
  | some t =>
    match t.status, t.wheels[level]? with
    | .running, some wheel => (w.serve level).turnWheel level wheel
    | .stopped, some _ => w.serve level
    | _, _ => w

/-- Ticks of a level that are due now. -/
def overdue (w : World) (level : Nat) : Nat := (w.timer.map (·.ticksBy w.clockUs level)).getD 0

/-- The given number of ticks of a level, one after another. -/
def ticks (level : Nat) : Nat → World → World
  | 0, w => w
  | n + 1, w => ticks level n (w.tick level)

/-- Deals with all ticks of a level that are due, and again with those that became due meanwhile, at
most the given number of times. -/
def catchUp (level : Nat) : Nat → World → World
  | 0, w => w
  | rounds + 1, w =>
    match w.overdue level with
    | 0 => w
    | n + 1 => catchUp level rounds (ticks level (n + 1) w)

/-- The levels in the order in which they are served. -/
def servingOrder (w : World) : List Nat :=
  match w.timer with
  | none => []
  | some t => if w.coarseFirst then t.levels.reverse else t.levels

/-- Whether a tick of any level is due. -/
def isDue (w : World) : Bool := w.servingOrder.any fun level => w.overdue level != 0

/-- Serves levels once, one after another. -/
def serveAll (levels : List Nat) (w : World) : World :=
  levels.foldl (fun w level => catchUp level (w.jumpBound + 1) w) w

/-- Serves all levels once, in the order that is in force. -/
def pass (w : World) : World := w.serveAll w.servingOrder

/-- Serves all levels until nothing is due, at most the given number of times. -/
def settleWithin : Nat → World → World
  | 0, w => w
  | passes + 1, w => if w.isDue then settleWithin passes w.pass else w

/-- Deals with everything that is due. -/
def settle (w : World) : World := settleWithin (w.jumpBound + 1) w

/-- Settles, then moves the clock on to the next due tick and settles there, as long as that is not
past the target, at most the given number of times. -/
def advanceWithin (targetUs : Nat) : Nat → World → World
  | 0, w => w
  | n + 1, w =>
    let w := w.settle
    match w.timer.bind (·.earliestTickUs?) with
    | none => w
    | some due => if due ≤ targetUs then advanceWithin targetUs n { w with clockUs := due } else w

/-- Ticks of all levels that fall due up to a clock. -/
def ticksBy (w : World) (clockUs : Nat) : Nat :=
  match w.timer with
  | none => 0
  | some t => total (t.levels.map (t.ticksBy clockUs))

/-- Lets time pass, every tick dealt with when it falls due. The clock never moves back, even where
bodies moved it past the target. -/
def advance (w : World) (us : Nat) : World :=
  let target := w.clockUs + us
  let w := advanceWithin target (w.ticksBy target + 1) w
  { w with clockUs := max w.clockUs target }

end TimingWheel.World
