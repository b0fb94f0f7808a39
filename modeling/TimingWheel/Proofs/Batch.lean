import TimingWheel.Proofs.Clockwork
import TimingWheel.Proofs.Queue

/-!
# What a tick drains

A tick takes the contents of one slot and looks at them one after another, while the bodies that it
launches, and the tick itself, put entries into slots again: into the same slot, too, if that is one
rotation ahead.

* **`World.looks`** — the looks that the journal tells of, in their order.
* **`World.looks_dispatch`** — dealing with one entry takes one look at it, and what its body does
  takes none.
* **`World.Drains`** — what is to be said of one tick: whom it drains, in which order, at whom it
  looks, and where it leaves the counter.
* **`ticks_drain_own`** — the slots hold nothing but what is due within one rotation, so every tick
  drains its own entries and no others.
-/

namespace TimingWheel

/-- The looks that the journal tells of, in their order. -/
def World.looks (w : World) : List (EntryId × Nat × Nat × Nat) :=
  w.journal.reverse.filterMap Event.look?

namespace World

theorem looks_tell (w : World) (ev : Event) :
    (w.tell ev).looks = w.looks ++ ev.look?.toList := by
  unfold looks tell
  rw [List.reverse_cons, List.filterMap_append]
  cases hlook : ev.look? <;> simp [hlook]

/-- What is told besides looks changes nothing of them. -/
theorem looks_of_told {w w' : World} (h : TellsMore (·.look? = none) w.journal w'.journal) :
    w'.looks = w.looks := by
  obtain ⟨events, hevents, hnone⟩ := h
  have hempty : events.reverse.filterMap Event.look? = [] :=
    List.filterMap_eq_nil_iff.2 fun ev hev => hnone ev (List.mem_reverse.1 hev)
  rw [looks, hevents, List.reverse_append, List.filterMap_append, hempty, List.append_nil, looks]

end World

/-! ## What a body does -/

/-- While no tick is in progress and none is served, nobody looks at an entry. -/
theorem Move.no_look {law : Law} {m m' : Moment} (h : Move law.withinBody m m')
    (hm : m.sweep = none) :
    m'.sweep = none ∧ TellsMore (·.look? = none) m.world.journal m'.world.journal := by
  cases h with
  | act m a runTask allowed plain =>
    exact ⟨hm, (World.performed_perform plain runTask m.world).adds.told⟩
  | byHand m i known => exact ⟨hm, .cons rfl (.refl _)⟩
  | begin m i job label known => exact ⟨hm, .cons rfl (.refl _)⟩
  | conclude m i outcome known => exact ⟨hm, (m.world.idles_conclude i outcome).told⟩
  | enroll m i e r job known task there => exact ⟨hm, (m.world.adds_register r _).told⟩
  | complete m i inProgress => exact ⟨hm, (m.world.idles_complete i).told⟩
  | takeUp w n i allowed held => exact allowed.elim
  | lose w level t wheel allowed there stopped known due => exact allowed.elim
  | drain w level t wheel allowed there running known due => exact allowed.elim
  | wait w us allowed => exact allowed.elim
  | create w c allowed valid => exact allowed.elim
  | drop w allowed => exact allowed.elim
  | warn w reason rejected => exact ⟨hm, .cons rfl (.refl _)⟩
  | _ => simp at hm

/-- A body takes no look at any entry, whatever it does, if no tick is under way around it.
Induction on its moves. -/
theorem Moves.no_look {law : Law} {m m' : Moment} (h : Moves law.withinBody m m')
    (hm : m.sweep = none) :
    m'.sweep = none ∧ TellsMore (·.look? = none) m.world.journal m'.world.journal := by
  induction h with
  | refl => exact ⟨hm, .refl _⟩
  | tail _ hmove ih =>
    obtain ⟨hsweep, htold⟩ := ih
    obtain ⟨hsweep', htold'⟩ := hmove.no_look hsweep
    exact ⟨hsweep', htold.trans htold'⟩

namespace World

/-- An execution takes no look: neither its body does nor its end. -/
theorem looks_execute (w : World) (i : EntryId) : (w.execute i).2.looks = w.looks := by
  have hbody : Moves Law.free.withinBody ⟨w, none, none⟩ ⟨(invoke w.nesting i w).2, none, none⟩ :=
    invoke_moves w.nesting i w none none (allBodies_free w)
  have hend : (w.execute i).2 = (invoke w.nesting i w).2.complete i := rfl
  rw [hend, looks_of_told (idles_complete _ i).told, looks_of_told (Moves.no_look hbody rfl).2]

/-- A launch takes one look, before it counts the execution. -/
theorem looks_launching (w : World) (s : Sweep) (i : EntryId) (last : Bool) (e : Entry) :
    (w.launching s i last e).looks = w.looks ++ [(i, s.level, s.tick, s.nowMs)] := by
  have hlook := (w.modifyEntry i fun _ => e).looks_tell
    (.evaluated i s.level s.tick s.nowMs (.run last))
  unfold launching
  simp only
  split <;> exact hlook

/-- **Dealing with one entry takes one look at it**, before anything else is done. -/
theorem looks_dispatch {w : World} {i : EntryId} (hi : i < w.entries.size)
    (level tick nowMs : Nat) :
    (w.dispatch level tick nowMs i).looks = w.looks ++ [(i, level, tick, nowMs)] := by
  have he : w.entries[i]? = some w.entries[i] := Array.getElem?_eq_getElem hi
  by_cases hruns : ∃ last e', w.entries[i].evaluate nowMs = (.run last, e')
  · obtain ⟨last, e', hruns⟩ := hruns
    have hback (w' : World) : (w'.puttingBack nowMs i last).looks = w'.looks :=
      looks_of_told (adds_puttingBack w' nowMs i last).told
    have hlaunch := w.looks_launching ⟨level, tick, nowMs, [], none⟩ i last e'
    rw [dispatch_of_run ⟨level, tick, nowMs, [], none⟩ he hruns]
    simp only
    split
    · rw [hback, hlaunch]
    · rw [hback, looks_execute, hlaunch]
  · have rests : ∀ last, (w.entries[i].evaluate nowMs).1 ≠ .run last := fun last hlast =>
      hruns ⟨last, (w.entries[i].evaluate nowMs).2, Prod.ext hlast rfl⟩
    rw [looks_of_told (adds_dispatch he rests level tick).told, looks_tell]
    rfl

/-- A batch is looked at in its order, once each. -/
theorem looks_batch (level tick nowMs : Nat) (batch : List EntryId) : ∀ {w : World},
    (∀ i ∈ batch, i < w.entries.size) →
    (batch.foldl (dispatch level tick nowMs) w).looks
      = w.looks ++ batch.map fun i => (i, level, tick, nowMs) := by
  -- on what is left of the batch; entries never go away
  induction batch with
  | nil => intro w _; simp
  | cons i rest ih =>
    intro w hknown
    obtain ⟨hi, hrest⟩ := List.forall_mem_cons.1 hknown
    have hmoves : Moves .free ⟨w, some ⟨level, tick, nowMs, [i], none⟩, none⟩
        ⟨w.dispatch level tick nowMs i, some ⟨level, tick, nowMs, [], none⟩, none⟩ :=
      dispatch_moves rfl rfl (allBodies_free w)
    have hsize : w.entries.size ≤ (w.dispatch level tick nowMs i).entries.size := hmoves.size_le
    rw [List.foldl_cons, ih fun j hj => Nat.lt_of_lt_of_le (hrest j hj) hsize,
      looks_dispatch hi, List.map_cons, List.append_assoc, List.singleton_append]

theorem looks_drained (w : World) (level : Nat) (wheel : Wheel) :
    (w.drained level wheel).looks = w.looks := by
  obtain ⟨journal, hquiet, heq⟩ := w.drained_eq level wheel
  rw [heq]
  exact looks_of_told hquiet.told

/-! ## One tick -/

/-- What one tick of a level does. -/
structure Drains (w : World) (t : Timer) (level : Nat) (wheel : Wheel) : Prop where
  /-- It drains the entries that it is recorded for. -/
  own : ∀ i, i ∈ wheel.nextBatch.toList ↔ i ∈ t.contents
    ∧ ∃ e, w.entries[i]? = some e ∧ e.level = level ∧ e.installedTick = wheel.ticks + 1
  once : wheel.nextBatch.toList.Nodup
  /-- They stand in the order in which they were put there: whoever has been there for longer comes
  first. -/
  order : ∀ {before : List Moment}, Trail (⟨w, none, none⟩ :: before) →
    wheel.nextBatch.toList.Pairwise fun i j =>
      stay level ((wheel.ticks + 1) % wheel.slotCount) j (⟨w, none, none⟩ :: before)
        < stay level ((wheel.ticks + 1) % wheel.slotCount) i (⟨w, none, none⟩ :: before)
  /-- The slots hold all the others before it deals with the first of them. -/
  dealt : ∃ t', (w.drained level wheel).timer = some t'
    ∧ t.contents.Perm (wheel.nextBatch.toList ++ t'.contents)
    ∧ w.tick level = wheel.nextBatch.toList.foldl (dispatch level (wheel.ticks + 1) w.nowMs)
        (w.drained level wheel)
  /-- It looks at each of them once, in that order, and at nobody else. -/
  looked : (w.tick level).looks
    = w.looks ++ wheel.nextBatch.toList.map fun i => (i, level, wheel.ticks + 1, w.nowMs)
  /-- The counter of the level goes up by one. -/
  counted : ∃ t' wheel', (w.tick level).timer = some t' ∧ t'.wheels[level]? = some wheel'
    ∧ wheel'.ticks = wheel.ticks + 1

section

variable {w : World} {t : Timer} {level : Nat} {wheel : Wheel}

/-- A tick of a running timer drains the slot and then deals with the batch, entry by entry. -/
theorem tick_eq (ht : w.timer = some t) (hrunning : t.status = .running)
    (hwheel : t.wheels[level]? = some wheel) :
    w.tick level = wheel.nextBatch.toList.foldl (dispatch level (wheel.ticks + 1) w.nowMs)
      (w.drained level wheel) := by
  rw [← turnWheel_eq]
  simp only [tick, ht, hrunning, hwheel]

/-- A slot that a level comes to holds exactly the entries that are recorded for the tick. -/
theorem Custody.mem_batch_iff (h : w.Custody []) (ht : w.timer = some t)
    (hwheel : t.wheels[level]? = some wheel) (i : EntryId) :
    i ∈ wheel.nextBatch.toList ↔ i ∈ t.contents
      ∧ ∃ e, w.entries[i]? = some e ∧ e.level = level ∧ e.installedTick = wheel.ticks + 1 := by
  have hkeeps := h.keeps ht
  rw [Wheel.nextBatch_eq_slot hwheel, Timer.mem_slot]
  constructor
  · intro hslot
    have hin : i ∈ t.contents := Timer.mem_contents.2 ⟨level, _, hslot⟩
    obtain ⟨e, he, -⟩ := (hkeeps.owned i).1 (List.mem_append_left _ hin)
    have hbatch : i ∈ wheel.nextBatch.toList := by
      rw [Wheel.nextBatch_eq_slot hwheel, Timer.mem_slot]
      exact hslot
    exact ⟨hin, e, he, (h.batch ht hwheel hbatch he).2⟩
  · rintro ⟨hin, e, he, hlevel, htick⟩
    obtain ⟨level', k, hslot⟩ := Timer.mem_contents.1 hin
    obtain ⟨wheel', slot, hwheel', hj⟩ := hslot
    have hberth := hkeeps.berth ⟨wheel', slot, hwheel', hj⟩ he hwheel'
    obtain rfl : level = level' := hlevel.symm.trans hberth.level_eq
    obtain rfl : wheel = wheel' := Option.some.inj (hwheel.symm.trans hwheel')
    rw [← htick, hberth.slot]
    exact ⟨wheel, slot, hwheel, hj⟩

/-- The bodies that a tick launches leave the counters alone. -/
theorem counted_tick (ht : w.timer = some t) (hrunning : t.status = .running)
    (hwheel : t.wheels[level]? = some wheel) :
    ∃ t' wheel', (w.tick level).timer = some t' ∧ t'.wheels[level]? = some wheel'
      ∧ wheel'.ticks = wheel.ticks + 1 := by
  have hdealt : Moves Law.free.withinBody
      ⟨w.drained level wheel,
        some ⟨level, wheel.ticks + 1, w.nowMs, wheel.nextBatch.toList, none⟩, none⟩
      ⟨wheel.nextBatch.toList.foldl (dispatch level (wheel.ticks + 1) w.nowMs)
          (w.drained level wheel), some ⟨level, wheel.ticks + 1, w.nowMs, [], none⟩, none⟩ :=
    batch_moves level _ _ _ (allBodies_free _)
  have hworks : (w.tick level).timer.map Timer.works
      = some (t.modifyWheel level Wheel.comeRound).works := by
    rw [tick_eq ht hrunning hwheel]
    refine (Moves.onward hdealt).works.trans ?_
    obtain ⟨journal, -, heq⟩ := w.drained_eq level wheel
    rw [heq, ht]
    rfl
  obtain ⟨t', ht', hsame⟩ := Option.map_eq_some_iff.1 hworks
  have hturned : (t.modifyWheel level Wheel.comeRound).wheels[level]? = some wheel.comeRound := by
    simp only [Timer.modifyWheel, Array.getElem?_modify, if_true, hwheel, Option.map_some]
  obtain ⟨wheel', hwheel', hbare⟩ := Timer.wheel_of_works hsame.symm hturned
  have hticks : wheel'.ticks = wheel.comeRound.ticks := (congrArg (·.ticks) hbare).symm
  exact ⟨t', wheel', ht', hwheel', hticks⟩

/-- Whatever has gone before, the next tick of a running timer does what a tick should. -/
theorem drains_of_arises (h : Moment.Arises ⟨w, none, none⟩) (ht : w.timer = some t)
    (hrunning : t.status = .running) (hwheel : t.wheels[level]? = some wheel) :
    w.Drains t level wheel := by
  have hcustody : w.Custody [] := h.custody
  have hkeeps := hcustody.keeps ht
  -- what the tick takes in hand is the slot of the next tick, and that slot is in order
  have hslot : wheel.nextBatch.toList
      = w.slot level ((wheel.ticks + 1) % wheel.slotCount) := by
    rw [Wheel.nextBatch_eq_slot hwheel, slot, ht]
    rfl
  refine ⟨hcustody.mem_batch_iff ht hwheel, ?_, fun {before} htrail => ?_, ?_, ?_,
    counted_tick ht hrunning hwheel⟩
  · rw [hslot]
    exact h.nodup_slot level _
  · rw [hslot]
    exact htrail.longest_first level _
  · obtain ⟨journal, -, heq⟩ := w.drained_eq level wheel
    refine ⟨t.modifyWheel level Wheel.comeRound, ?_,
      hkeeps.shaped.contents_turn hwheel rfl, tick_eq ht hrunning hwheel⟩
    rw [heq, ht]
    rfl
  · rw [tick_eq ht hrunning hwheel, looks_batch, looks_drained]
    intro i hi
    obtain ⟨-, e, he, -⟩ := (hcustody.mem_batch_iff ht hwheel i).1 hi
    obtain ⟨journal, -, heq⟩ := w.drained_eq level wheel
    rw [heq]
    exact (Array.getElem?_eq_some_iff.1 he).1

end

end World

/-- **Every tick drains exactly its own entries.** At any moment the tick that is recorded for an
entry in a slot is one that its level comes to within the next rotation. So the tick that raises the
counter of a level drains the entries that are recorded for it, in the order in which they were put
there, and looks at each of them once and at nobody else. Whatever is put into a slot while it deals
with them, be it the same slot, waits for a later tick. -/
theorem ticks_drain_own :
    (∀ {m : Moment} {t : Timer} {level k : Nat} {i : EntryId}, m.Arises →
      m.world.timer = some t → t.SlotHas level k i →
      ∃ e wheel, m.world.entries[i]? = some e ∧ t.wheels[level]? = some wheel ∧ e.level = level
        ∧ wheel.ticks < e.installedTick ∧ e.installedTick ≤ wheel.ticks + wheel.slotCount)
    ∧ ∀ {w : World} {t : Timer} {level : Nat} {wheel : Wheel}, Moment.Arises ⟨w, none, none⟩ →
      w.timer = some t → t.status = .running → t.wheels[level]? = some wheel →
      w.Drains t level wheel := by
  refine ⟨fun {m t level k i} h ht hslot => ?_, World.drains_of_arises⟩
  have hkeeps := h.custody.keeps ht
  obtain ⟨e, he, -⟩ := (hkeeps.owned i).1
    (List.mem_append_left _ (Timer.mem_contents.2 ⟨level, k, hslot⟩))
  obtain ⟨wheel, slot, hwheel, hin⟩ := hslot
  have hberth := hkeeps.berth ⟨wheel, slot, hwheel, hin⟩ he hwheel
  exact ⟨e, wheel, he, hwheel, hberth.level_eq, hberth.ahead, hberth.within⟩

/-- A wheel with a single slot and two jobs in it, of which the first is closed. The body of the
second one schedules another job and resets the first. -/
def oneSlotDue : World := World.after {}
  [.create { slots := 1, levels := 1, intervalMs := 10 },
    .act (.schedule "b" (.repeating 10) none [] []),
    .act (.schedule "a" (.repeating 10) none []
      [[.schedule "c" (.repeating 10) none [] [], .control "b" .reset]]),
    .act (.control "b" .close), .act (.jump 10000)]

/-- The tick looks at the two that were there, and afterwards the slot holds the new job, the one
that was given up and came back, and the one that was launched. -/
theorem ticks_drain_own_of_one_slot : ∃ t wheel, oneSlotDue.timer = some t
    ∧ t.wheels[0]? = some wheel ∧ wheel.nextBatch.toList = [0, 1]
    ∧ (∃ e, oneSlotDue.entries[1]? = some e ∧ wheel.ticks < e.installedTick)
    ∧ oneSlotDue.Drains t 0 wheel
    ∧ (∃ before, Trail (⟨oneSlotDue, none, none⟩ :: before)
      ∧ stay 0 0 1 (⟨oneSlotDue, none, none⟩ :: before)
        < stay 0 0 0 (⟨oneSlotDue, none, none⟩ :: before))
    ∧ (oneSlotDue.tick 0).looks = [(0, 0, 1, 10), (1, 0, 1, 10)]
    ∧ (oneSlotDue.tick 0).slot 0 0 = [2, 0, 1] := by
  obtain ⟨t, ht⟩ : ∃ t, oneSlotDue.timer = some t := Option.isSome_iff_exists.1 (by decide +kernel)
  have hrunning : oneSlotDue.timer.map (·.status) = some .running := by decide +kernel
  have hwheels : (oneSlotDue.timer.bind (·.wheels[0]?)).isSome := by decide +kernel
  have hslot : oneSlotDue.timer.map (·.slot 0 0) = some [0, 1] := by decide +kernel
  have hbatch : (oneSlotDue.timer.bind (·.wheels[0]?)).map
      (fun wheel => (wheel.ticks, wheel.slotCount, wheel.nextBatch.toList))
        = some (0, 1, [0, 1]) := by decide +kernel
  rw [ht] at hrunning hwheels hslot hbatch
  obtain ⟨wheel, hwheel⟩ := Option.isSome_iff_exists.1 hwheels
  replace hwheel : t.wheels[0]? = some wheel := hwheel
  simp only [Option.bind_some, Option.map_some, hwheel, Option.some.injEq, Prod.mk.injEq]
    at hbatch hslot
  obtain ⟨hticks, hcount, hbatch⟩ := hbatch
  have harises : Moment.Arises ⟨oneSlotDue, none, none⟩ :=
    ((World.Reachable.fresh 3).after _).arises
  have hin : t.SlotHas 0 0 1 := Timer.mem_slot.1 (by simp [hslot])
  obtain ⟨e, wheel', he, hwheel', -, hahead, -⟩ := ticks_drain_own.1 harises ht hin
  obtain rfl : wheel = wheel' := Option.some.inj (hwheel.symm.trans hwheel')
  have hdrains := ticks_drain_own.2 harises ht (Option.some.inj hrunning) hwheel
  obtain ⟨before, htrail⟩ := harises.exists_trail
  have horder := hdrains.order htrail
  rw [hbatch, hticks, hcount] at horder
  refine ⟨t, wheel, ht, hwheel, hbatch, ⟨e, he, hahead⟩, hdrains,
    ⟨before, htrail, List.rel_of_pairwise_cons horder (List.mem_singleton_self 1)⟩, ?_,
    by decide +kernel⟩
  have hbefore : oneSlotDue.looks = [] := by decide +kernel
  have hnow : oneSlotDue.nowMs = 10 := by decide +kernel
  rw [hdrains.looked, hbefore, hbatch, hticks, hnow]
  rfl

end TimingWheel
