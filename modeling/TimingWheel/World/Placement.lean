import TimingWheel.World.Basic

/-!
# Placing entries

How entries get into the slots of the timer and out of the wheels' hands. An entry belongs to the
wheels while its `installed` mark is set; only an entry without the mark can be taken.

* `World.place` puts an entry that the wheels own where its remaining delay calls for.
* `World.reinstall` takes an entry that the wheels do not own, due one interval from now.
* `World.release` gives an entry up; one that was reset meanwhile is taken back at once.
* `World.register` adds a new entry.
-/

namespace TimingWheel.World

/-- Puts an entry that the wheels own into the slot that its remaining delay calls for. -/
def place (w : World) (i : EntryId) : World :=
  match w.timer, w.entries[i]? with
  | some t, some e =>
    let (level, tick) := t.position (e.remainingMs (t.nowMs w.clockUs))
    { w with
      timer := some (t.install i level tick)
      entries := w.entries.modify i (·.putAt level tick) }
  | _, _ => w

/-- Takes an entry that the wheels do not own, due one interval from now. Without the timer that it
was scheduled on nothing happens. -/
def reinstall (w : World) (i : EntryId) : World :=
  match w.entries[i]? with
  | none => w
  | some e =>
    if w.hasTimer e.owner && !e.installed then
      ((w.modifyEntry i (·.rearm w.nowMs)).log (.entryReinstalled i)).place i
    else w

/-- Gives up an entry that a tick drained. A reset that came while the wheels still owned the entry
could not reinstall it, so that is made up for. -/
def release (w : World) (i : EntryId) : World :=
  let w := w.modifyEntry i (·.release)
  match w.entries[i]? with
  | none => w
  | some e => if e.status = .reset then w.reinstall i else w

/-- Schedules a task on the timer: a new entry, placed unless it is over from the start. -/
def register (w : World) (r : Registration) (task : Task) : World :=
  match w.timer with
  | none => w
  | some t =>
    let i := w.entries.size
    let e := Entry.ofRegistration r task t.id w.nowMs
    let w :=
      if e.status = .closed then { w with entries := w.entries.push e }
      else { w with entries := w.entries.push { e with installed := true } }.place i
    -- an entry that is over from the start is told of as one of the finest level
    let level := (w.entries[i]?.map (·.level)).getD 0
    w.log (.entryAdded i r.intervalMs r.singleton e.status level)

end TimingWheel.World
