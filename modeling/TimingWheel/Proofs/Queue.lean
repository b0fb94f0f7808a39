import TimingWheel.Proofs.Life

/-!
# Slots are queues

Slots are reused: bodies and ticks put entries into a slot while the batch that was drained from it
is dealt with. What keeps that in order is that an entry is only ever put last, one at a time, and
that a slot is only ever emptied as a whole.

* **`World.Adds`** — an operation puts one entry last into a slot at most, and tells of no look.
  There is one lemma for each operation.
* **`Move.slot`** — what any move does to a slot.
* **`Trail`**, **`stay`** — a course of events, moment by moment, and for how long an entry has been
  in a slot.
* **`Trail.longest_first`** — a slot holds its entries in the order in which they came.
-/

namespace TimingWheel

/-- The entries that a slot of a timer holds, in its order. -/
def Timer.slot (t : Timer) (level k : Nat) : List EntryId :=
  ((t.wheels[level]?.bind (·.slots[k]?)).map Array.toList).getD []

/-- The entries that a slot holds, in its order. -/
def World.slot (w : World) (level k : Nat) : List EntryId :=
  (w.timer.map (·.slot level k)).getD []

/-- The look that an event tells of: at which entry, by which tick of which level, and when. -/
def Event.look? : Event → Option (EntryId × Nat × Nat × Nat)
  | .evaluated i level tick nowMs _ => some (i, level, tick, nowMs)
  | _ => none

theorem Event.look?_of_about {ev : Event} (h : ev.about = none) : ev.look? = none := by
  cases ev with
  | evaluated i level tick nowMs verdict => simp [about] at h
  | _ => rfl

/-- The list of a slot holds what the slot holds. -/
theorem Timer.mem_slot {t : Timer} {level k : Nat} {i : EntryId} :
    i ∈ t.slot level k ↔ t.SlotHas level k i := by
  unfold Timer.slot SlotHas
  constructor
  · intro hi
    cases hwheel : t.wheels[level]? with
    | none => simp [hwheel] at hi
    | some wheel =>
      cases hslot : wheel.slots[k]? with
      | none => simp [hwheel, hslot] at hi
      | some slot => exact ⟨wheel, slot, rfl, hslot, by simpa [hwheel, hslot] using hi⟩
  · rintro ⟨wheel, slot, hwheel, hslot, hi⟩
    simpa [hwheel, hslot] using hi

/-- The batch of the next tick is the slot that the level comes to. -/
theorem Wheel.nextBatch_eq_slot {t : Timer} {level : Nat} {wheel : Wheel}
    (hwheel : t.wheels[level]? = some wheel) :
    wheel.nextBatch.toList = t.slot level ((wheel.ticks + 1) % wheel.slotCount) := by
  unfold Wheel.nextBatch Timer.slot
  rw [Array.getD_eq_getD_getElem?, hwheel, Option.bind_some]
  cases wheel.slots[(wheel.ticks + 1) % wheel.slotCount]? <;> rfl

/-- An entry that is put into a slot becomes the last one there, and the other slots stay. -/
theorem Timer.slot_install (t : Timer) (i : EntryId) (level tick level' k : Nat) :
    (t.install i level tick).slot level' k = t.slot level' k
    ∨ (t.install i level tick).slot level' k = t.slot level' k ++ [i] := by
  unfold Timer.slot Timer.install Timer.modifyWheel
  rw [Array.getElem?_modify]
  split
  · cases t.wheels[level']? with
    | none => exact Or.inl rfl
    | some wheel =>
      simp only [Option.map_some, Option.bind_some, Wheel.install, Array.getElem?_modify]
      split
      · cases wheel.slots[k]? with
        | none => exact Or.inl rfl
        | some slot => exact Or.inr (by simp)
      · exact Or.inl rfl
  · exact Or.inl rfl

/-- A wheel that comes round empties one slot. -/
theorem Timer.slot_comeRound (t : Timer) (level level' k : Nat) :
    (t.modifyWheel level Wheel.comeRound).slot level' k = t.slot level' k
    ∨ (t.modifyWheel level Wheel.comeRound).slot level' k = [] := by
  unfold Timer.slot Timer.modifyWheel
  rw [Array.getElem?_modify]
  split
  · cases t.wheels[level']? with
    | none => exact Or.inl rfl
    | some wheel =>
      simp only [Option.map_some, Option.bind_some, Wheel.comeRound, Wheel.turn,
        Array.getElem?_modify]
      split
      · refine Or.inr ?_
        cases wheel.slots[k]? <;> rfl
      · exact Or.inl rfl
  · exact Or.inl rfl

/-- A timer without contents has empty slots. -/
theorem Timer.slot_eq_nil {t : Timer} (h : t.contents = []) (level k : Nat) :
    t.slot level k = [] := by
  rw [List.eq_nil_iff_forall_not_mem]
  intro i hi
  have hin := Timer.mem_contents.2 ⟨level, k, Timer.mem_slot.1 hi⟩
  simp [h] at hin

/-! ## What operations do to the slots -/

namespace World

/-- The slots stay as they are, and no look is told of. -/
structure Idles (w w' : World) : Prop where
  slots : ∀ level k, w'.slot level k = w.slot level k
  told : TellsMore (·.look? = none) w.journal w'.journal

/-- One entry is put last into a slot at most, and no look is told of. -/
structure Adds (w w' : World) : Prop where
  slots : ∀ level k, w'.slot level k = w.slot level k
    ∨ ∃ i, w'.slot level k = w.slot level k ++ [i]
  told : TellsMore (·.look? = none) w.journal w'.journal

section

variable {w w' : World} {i : EntryId}

theorem Idles.refl (w : World) : w.Idles w := ⟨fun _ _ => rfl, .refl _⟩

theorem Idles.adds (h : w.Idles w') : w.Adds w' := ⟨fun level k => Or.inl (h.slots level k), h.told⟩

theorem Idles.tell (h : w.Idles w') {ev : Event} (hev : ev.look? = none) :
    w.Idles (w'.tell ev) :=
  ⟨h.slots, h.told.cons hev⟩

theorem Idles.log (h : w.Idles w') (line : LogLine) : w.Idles (w'.log line) := h.tell rfl

theorem Idles.modifyEntry (h : w.Idles w') (i : EntryId) (f : Entry → Entry) :
    w.Idles (w'.modifyEntry i f) :=
  ⟨h.slots, h.told⟩

theorem Adds.log (h : w.Adds w') (line : LogLine) : w.Adds (w'.log line) :=
  ⟨h.slots, h.told.cons rfl⟩

/-- To put an entry somewhere is to put it last into one slot. -/
theorem Idles.place (h : w.Idles w') (i : EntryId) : w.Adds (w'.place i) := by
  unfold World.place
  split
  · next t e ht he =>
    refine ⟨fun level k => ?_, h.told⟩
    have hslot : w.slot level k = t.slot level k := by
      rw [← h.slots level k, World.slot, ht]
      rfl
    rw [hslot]
    exact (t.slot_install i _ _ level k).imp_right fun hadded => ⟨i, hadded⟩
  · exact h.adds

theorem Idles.reinstall (h : w.Idles w') (i : EntryId) : w.Adds (w'.reinstall i) := by
  unfold World.reinstall
  split
  · exact h.adds
  · split
    · exact ((h.modifyEntry i _).log _).place i
    · exact h.adds

/-- A released entry may come back into one slot, where it is last. -/
theorem Idles.release (h : w.Idles w') (i : EntryId) : w.Adds (w'.release i) := by
  have hgive := h.modifyEntry i (·.release)
  unfold World.release
  simp only
  split
  · exact hgive.adds
  · split
    · exact hgive.reinstall i
    · exact hgive.adds

/-- A registration puts the new entry last into one slot. -/
theorem adds_register (w : World) (r : Registration) (task : Task) :
    w.Adds (w.register r task) := by
  have hpush (e : Entry) : w.Idles { w with entries := w.entries.push e } :=
    ⟨fun _ _ => rfl, .refl _⟩
  unfold World.register
  split
  · exact (Idles.refl w).adds
  · refine Adds.log ?_ _
    split
    · exact (hpush _).adds
    · exact (hpush _).place _

/-- A control may bring its entry back into one slot. -/
theorem adds_control {c : Control} (hc : c ≠ .run) (runTask : EntryId → World → Outcome × World)
    (w : World) (i : EntryId) (e : Entry) : w.Adds (w.control runTask i e c).2 := by
  have htell : w.Idles (w.tell (.controlled i c)) := (Idles.refl w).tell rfl
  cases c with
  | stop =>
    simp only [World.control, stopEntry]
    split
    · exact htell.adds
    · exact ((htell.modifyEntry i _).log _).adds
  | start =>
    simp only [World.control, startEntry]
    split
    · exact ((htell.modifyEntry i _).log _).reinstall i
    · exact htell.adds
  | reset => exact ((htell.modifyEntry i _).log _).reinstall i
  | close =>
    simp only [World.control, closeEntry]
    split
    · exact htell.adds
    · exact ((htell.modifyEntry i _).log _).adds
  | run => exact absurd rfl hc
  | setRuns runs => exact (htell.modifyEntry i _).adds
  | setSingleton on => exact (htell.modifyEntry i _).adds

theorem idles_conclude (w : World) (i : EntryId) (outcome : Outcome) :
    w.Idles (w.conclude i outcome) := by
  cases outcome with
  | exit => exact ((Idles.refl w).modifyEntry i _).log _
  | failed reason => exact (Idles.refl w).log _
  | done => exact .refl w
  | crashed => exact .refl w

theorem idles_complete (w : World) (i : EntryId) : w.Idles (w.complete i) := by
  unfold World.complete
  split
  · exact .refl w
  · have hend : w.Idles ((w.modifyEntry i (·.complete)).tell (.completed i)) :=
      ((Idles.refl w).modifyEntry i _).tell rfl
    simp only
    split
    · exact hend.log _
    · exact hend

/-- After a launch the entry is put last into one slot, if it is kept. -/
theorem adds_puttingBack (w : World) (nowMs : Nat) (i : EntryId) (last : Bool) :
    w.Adds (w.puttingBack nowMs i last) := by
  unfold puttingBack
  split
  · exact (Idles.refl w).release i
  · exact ((Idles.refl w).modifyEntry i _).place i

/-- A look that launches nothing is told of before the entry is put anywhere. -/
theorem adds_dispatch {e : Entry} {nowMs : Nat} (he : w.entries[i]? = some e)
    (rests : ∀ last, (e.evaluate nowMs).1 ≠ .run last) (level tick : Nat) :
    ((w.modifyEntry i fun _ => (e.evaluate nowMs).2).tell
      (.evaluated i level tick nowMs (e.evaluate nowMs).1)).Adds
        (w.dispatch level tick nowMs i) := by
  unfold dispatch
  rw [he]
  simp only
  cases hv : (e.evaluate nowMs).1 with
  | drop => exact (Idles.refl _).release i
  | wait => exact (Idles.refl _).place i
  | skip => exact ((Idles.refl _).modifyEntry i _).place i
  | run last => exact absurd hv (rests last)

/-- What is told of no entry is no look. -/
theorem Quiet.told {journal : List Event} (h : w.Quiet journal) :
    TellsMore (·.look? = none) w.journal journal := by
  obtain ⟨events, hevents, rfl⟩ := h
  exact ⟨events, rfl, fun ev hev => Event.look?_of_about (hevents ev hev)⟩

/-- An action puts one entry last into a slot at most. -/
theorem Performed.adds {a : Action} (h : Performed w a w') : w.Adds w' := by
  cases h with
  | control handle i e c runTask known plain => exact adds_control plain runTask w i e
  | schedule handle r delayMs outcomes rounds =>
    obtain ⟨r', task, handles, heq⟩ := w.schedule_eq handle r delayMs { outcomes, rounds }
    rw [heq]
    have hregister := adds_register (w.withJob handle { outcomes, rounds }) r' task
    exact ⟨hregister.slots, hregister.told⟩
  | timer t c there =>
    obtain ⟨status, journal, hquiet, heq⟩ := controlTimer_eq w there c
    rw [heq]
    refine ⟨fun level k => Or.inl ?_, hquiet.told⟩
    simp only [slot, there]
    rfl
  | _ => exact ⟨fun _ _ => Or.inl rfl, .refl _⟩

theorem slot_launching (w : World) (s : Sweep) (i : EntryId) (last : Bool) (e : Entry)
    (level k : Nat) : (w.launching s i last e).slot level k = w.slot level k := by
  unfold launching
  simp only
  split <;> rfl

theorem slot_serve (w : World) (served level k : Nat) :
    (w.serve served).slot level k = w.slot level k := by
  rw [serve_eq]
  cases ht : w.timer with
  | none => simp only [slot, ht, Option.map_none]
  | some t =>
    simp only [slot, ht, Option.map_some, Option.getD_some, Timer.slot, Timer.modifyWheel,
      Array.getElem?_modify]
    split
    · cases t.wheels[level]? <;> rfl
    · rfl

end

end World

/-- **What a move does to a slot**: nothing, or it puts one entry last, or it empties the slot. -/
theorem Move.slot {law : Law} {m m' : Moment} (h : Move law m m') (level k : Nat) :
    m'.world.slot level k = m.world.slot level k
    ∨ (∃ i, m'.world.slot level k = m.world.slot level k ++ [i])
    ∨ m'.world.slot level k = [] := by
  have hadds {w w' : World} (h : w.Adds w') : w'.slot level k = w.slot level k
      ∨ (∃ i, w'.slot level k = w.slot level k ++ [i]) ∨ w'.slot level k = [] :=
    (h.slots level k).imp_right Or.inl
  -- most moves add one entry at the end or none
  cases h with
  | act m a runTask allowed plain =>
    exact hadds (World.performed_perform plain runTask m.world).adds
  | conclude m i outcome known => exact hadds (m.world.idles_conclude i outcome).adds
  | enroll m i e r job known task there => exact hadds (m.world.adds_register r _)
  | complete m i inProgress => exact hadds (m.world.idles_complete i).adds
  | lose w served t wheel allowed there stopped known due =>
    exact Or.inl (w.slot_serve served level k)
  -- the slot of the tick that comes is emptied
  | drain w drained t wheel allowed there running known due =>
    obtain ⟨journal, -, heq⟩ := w.drained_eq drained wheel
    rw [heq]
    simp only [World.slot, there, Option.map_some, Option.getD_some]
    exact (t.slot_comeRound drained level k).imp_right Or.inr
  | look w s i rest e next free known rests =>
    exact ((w.adds_dispatch known rests s.level s.tick).slots level k).imp_right Or.inl
  | launch w s i rest e e' last next free known runs =>
    exact Or.inl (w.slot_launching s i last e' level k)
  | putBack w s i last current => exact hadds (w.adds_puttingBack s.nowMs i last)
  | create w c allowed valid =>
    obtain ⟨journal, -, heq⟩ := w.startTimer_eq c
    rw [heq]
    have hempty := Timer.contents_ofConfig w.timers w.clockUs valid
    exact Or.inr (Or.inr (Timer.slot_eq_nil hempty level k))
  | drop w allowed =>
    obtain ⟨journal, -, heq⟩ := w.dropTimer_eq
    rw [heq]
    exact Or.inr (Or.inr rfl)
  | _ => exact Or.inl rfl

/-! ## The order of a slot -/

/-- A course of events, moment by moment, the latest one first. -/
inductive Trail : List Moment → Prop where
  | start (nesting : Nat) : Trail [⟨{ nesting }, none, none⟩]
  | move {m m' : Moment} {before : List Moment} (h : Trail (m :: before))
      (hmove : Move .free m m') : Trail (m' :: m :: before)

/-- What a course of events has come to arises. Induction on what was before. -/
theorem Trail.arises {m : Moment} {before : List Moment} (h : Trail (m :: before)) : m.Arises := by
  induction before generalizing m with
  | nil =>
    cases h with
    | start nesting => exact .start nesting
  | cons m₀ before ih =>
    cases h with
    | move h hmove => exact (ih h).tail hmove

/-- Some course of events leads to every moment that arises. -/
theorem Moment.Arises.exists_trail {m : Moment} (h : m.Arises) :
    ∃ before, Trail (m :: before) := by
  induction h using Moment.Arises.induction with
  | start nesting => exact ⟨[], .start nesting⟩
  | move _ hmove ih =>
    obtain ⟨before, htrail⟩ := ih
    exact ⟨_, htrail.move hmove⟩

/-- For how many moments up to the present one an entry has been in a slot. -/
def stay (level k : Nat) (i : EntryId) (trail : List Moment) : Nat :=
  (trail.takeWhile fun m => i ∈ m.world.slot level k).length

section

variable {level k : Nat} {i : EntryId} {m : Moment} {before : List Moment}

/-- An entry that is still in the slot has been there for one more moment. -/
theorem stay_of_mem (hi : i ∈ m.world.slot level k) :
    stay level k i (m :: before) = stay level k i before + 1 := by
  unfold stay
  rw [List.takeWhile_cons_of_pos (by simpa using hi), List.length_cons]

/-- One that is not has been there for none. -/
theorem stay_of_notMem (hi : i ∉ m.world.slot level k) : stay level k i (m :: before) = 0 := by
  unfold stay
  rw [List.takeWhile_cons_of_neg (by simpa using hi), List.length_nil]

/-- No slot holds an entry twice. -/
theorem Moment.Arises.nodup_slot (h : m.Arises) (level k : Nat) :
    (m.world.slot level k).Nodup := by
  unfold World.slot
  cases ht : m.world.timer with
  | none => exact List.nodup_nil
  | some t =>
    have hcontents : t.contents.Nodup := (List.nodup_append.1 (h.custody.keeps ht).once).1
    show (t.slot level k).Nodup
    unfold Timer.slot
    cases hwheel : t.wheels[level]? with
    | none => exact List.nodup_nil
    | some wheel =>
      cases hslot : wheel.slots[k]? with
      | none => simp [hslot]
      | some slot =>
        -- the slot is a part of the wheel, and the wheel of the timer
        have hin : slot.toList.Sublist wheel.contents := by
          unfold Wheel.contents
          rw [List.flatMap_def]
          refine List.sublist_flatten_of_mem (List.mem_map_of_mem ?_)
          simpa using Array.mem_of_getElem? hslot
        have hout : wheel.contents.Sublist t.contents := by
          unfold Timer.contents
          rw [List.flatMap_def]
          refine List.sublist_flatten_of_mem (List.mem_map_of_mem ?_)
          simpa using Array.mem_of_getElem? hwheel
        simpa [hslot] using hcontents.sublist (hin.trans hout)

end

/-- **A slot holds its entries in the order in which they came**: one that stands before another has
been there for longer. -/
theorem Trail.longest_first {m : Moment} {before : List Moment} (h : Trail (m :: before))
    (level k : Nat) : (m.world.slot level k).Pairwise fun i j =>
      stay level k j (m :: before) < stay level k i (m :: before) := by
  induction before generalizing m with
  | nil =>
    cases h
    exact List.Pairwise.nil
  | cons m₀ before ih =>
    have harises := h.arises
    cases h with
    | move htrail hmove =>
      have hbefore := ih htrail
      have hnodup := harises.nodup_slot level k
      -- those that were there stay for one moment more, if they stay
      have hmore (hkept : m₀.world.slot level k ⊆ m.world.slot level k) :
          (m₀.world.slot level k).Pairwise fun i j =>
            stay level k j (m :: m₀ :: before) < stay level k i (m :: m₀ :: before) := by
        refine hbefore.imp_of_mem fun {i j} hi hj hlonger => ?_
        rw [stay_of_mem (hkept hi), stay_of_mem (hkept hj)]
        omega
      rcases hmove.slot level k with hsame | ⟨i, hadded⟩ | hempty
      · rw [hsame]
        exact hmore (hsame ▸ List.Subset.refl _)
      · have hkept : m₀.world.slot level k ⊆ m.world.slot level k := by
          rw [hadded]
          exact List.subset_append_left _ _
        have hin : i ∈ m.world.slot level k := by simp [hadded]
        rw [hadded] at hnodup ⊢
        refine List.pairwise_append.2 ⟨hmore hkept, List.pairwise_singleton _ _, ?_⟩
        -- the one that came last was not there the moment before
        intro j hj i' hi'
        obtain rfl := List.mem_singleton.1 hi'
        have hnew : i' ∉ m₀.world.slot level k := fun hold =>
          (List.nodup_append.1 hnodup).2.2 i' hold i' hi' rfl
        rw [stay_of_mem (hkept hj), stay_of_mem hj, stay_of_mem hin, stay_of_notMem hnew]
        omega
      · rw [hempty]
        exact List.Pairwise.nil

end TimingWheel
