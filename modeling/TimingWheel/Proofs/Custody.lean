import TimingWheel.Proofs.Contents
import TimingWheel.Proofs.Moves

/-!
# Custody: which slot has which entry

An entry belongs to the wheels while its `installed` mark is set. Then it is either in exactly one
slot, the one that its recorded level and tick name, or in the hands of the tick that drained it.

* **`World.Custody`** — the invariant, said with the entries in hand as an argument. An operation
  that gives an entry to the wheels first takes it into the hand and then places it, so each half
  has a lemma of its own (`Custody.rearm`, `Custody.place`) and so has the way out
  (`Custody.letGo`).
* **`Move.custody`** — every move keeps it.
-/

namespace TimingWheel

/-- A slot of a timer holds an entry. -/
def Timer.SlotHas (t : Timer) (level k : Nat) (i : EntryId) : Prop :=
  ∃ wheel slot, t.wheels[level]? = some wheel ∧ wheel.slots[k]? = some slot ∧ i ∈ slot

/-- The slot that is recorded for an entry: the one of a level that its tick comes to, within the
next rotation. -/
structure Entry.Berth (e : Entry) (level k : Nat) (wheel : Wheel) : Prop where
  level_eq : e.level = level
  slot : e.installedTick % wheel.slotCount = k
  ahead : wheel.ticks < e.installedTick
  within : e.installedTick ≤ wheel.ticks + wheel.slotCount

/-- A timer has exactly the entries that are marked as its own: each is in one slot, the one that
is recorded for it, or in hand. -/
structure Timer.Keeps (t : Timer) (entries : Array Entry) (hand : List EntryId) : Prop where
  shaped : t.Shaped
  once : (t.contents ++ hand).Nodup
  owned : ∀ i, i ∈ t.contents ++ hand ↔
    ∃ e, entries[i]? = some e ∧ e.owner = t.id ∧ e.installed = true
  berth : ∀ {level k : Nat} {i : EntryId} {e : Entry} {wheel : Wheel}, t.SlotHas level k i →
    entries[i]? = some e → t.wheels[level]? = some wheel → e.Berth level k wheel

/-- The invariant: the timer, if there is one, keeps its entries, and no timer to come has any. -/
structure World.Custody (w : World) (hand : List EntryId) : Prop where
  owners : ∀ {i : EntryId} {e : Entry}, w.entries[i]? = some e → e.owner < w.timers
  numbered : ∀ {t : Timer}, w.timer = some t → t.id < w.timers
  keeps : ∀ {t : Timer}, w.timer = some t → t.Keeps w.entries hand
  idle : w.timer = none → hand = []

/-! ## Slots and contents -/

/-- The contents of a timer are what its slots hold. -/
theorem Timer.mem_contents {t : Timer} {i : EntryId} :
    i ∈ t.contents ↔ ∃ level k, t.SlotHas level k i := by
  unfold Timer.contents Wheel.contents
  simp only [List.mem_flatMap]
  constructor
  · rintro ⟨wheel, hwheel, slot, hslot, hi⟩
    obtain ⟨level, hlevel⟩ := List.mem_iff_getElem?.1 hwheel
    obtain ⟨k, hk⟩ := List.mem_iff_getElem?.1 hslot
    exact ⟨level, k, wheel, slot, by simpa using hlevel, by simpa using hk, by simpa using hi⟩
  · rintro ⟨level, k, wheel, slot, hwheel, hslot, hi⟩
    exact ⟨wheel, by simpa using Array.mem_of_getElem? hwheel, slot,
      by simpa using Array.mem_of_getElem? hslot, by simpa using hi⟩

/-- What a slot holds after an entry was put somewhere. -/
theorem Timer.SlotHas.of_install {t : Timer} {i j : EntryId} {level tick level' k : Nat}
    (h : (t.install i level tick).SlotHas level' k j) : t.SlotHas level' k j
      ∨ (j = i ∧ level' = level ∧ ∀ wheel, t.wheels[level]? = some wheel →
          tick % wheel.slotCount = k) := by
  obtain ⟨wheel', slot', hwheel', hslot', hj⟩ := h
  simp only [Timer.install, Timer.modifyWheel, Array.getElem?_modify] at hwheel'
  split at hwheel'
  · next hlevel =>
    obtain ⟨wheel, hwheel, rfl⟩ := Option.map_eq_some_iff.1 hwheel'
    simp only [Wheel.install, Array.getElem?_modify] at hslot'
    split at hslot'
    · next hk =>
      obtain ⟨slot, hslot, rfl⟩ := Option.map_eq_some_iff.1 hslot'
      rcases Array.mem_push.1 hj with hold | rfl
      · exact Or.inl ⟨wheel, slot, hwheel, hslot, hold⟩
      · refine Or.inr ⟨rfl, hlevel.symm, fun wheel₂ hwheel₂ => ?_⟩
        rw [hlevel, hwheel] at hwheel₂
        rw [← Option.some.inj hwheel₂]
        exact hk
    · exact Or.inl ⟨wheel, slot', hwheel, hslot', hj⟩
  · exact Or.inl ⟨wheel', slot', hwheel', hslot', hj⟩

/-- What a slot holds after a wheel was turned was there before, and it is not the slot that the
wheel came to. -/
theorem Timer.SlotHas.of_turn {t : Timer} {level level' k : Nat} {j : EntryId}
    (h : (t.modifyWheel level (·.turn)).SlotHas level' k j) : t.SlotHas level' k j
      ∧ (level' = level → ∀ wheel, t.wheels[level]? = some wheel →
          k ≠ (wheel.ticks + 1) % wheel.slotCount) := by
  obtain ⟨wheel', slot', hwheel', hslot', hj⟩ := h
  simp only [Timer.modifyWheel, Array.getElem?_modify] at hwheel'
  split at hwheel'
  · next hlevel =>
    obtain ⟨wheel, hwheel, rfl⟩ := Option.map_eq_some_iff.1 hwheel'
    simp only [Wheel.turn, Array.getElem?_modify] at hslot'
    split at hslot'
    · -- the slot that the wheel came to is empty
      obtain ⟨slot, hslot, rfl⟩ := Option.map_eq_some_iff.1 hslot'
      simp at hj
    · next hk =>
      refine ⟨⟨wheel, slot', hwheel, hslot', hj⟩, fun _ wheel₂ hwheel₂ hkeq => hk ?_⟩
      rw [hlevel, hwheel] at hwheel₂
      rw [hkeq, Option.some.inj hwheel₂]
  · next hlevel => exact ⟨⟨wheel', slot', hwheel', hslot', hj⟩, fun heq => absurd heq.symm hlevel⟩

/-- What changing one wheel does not change was the same before. -/
theorem Timer.wheel_before {β : Type} {t : Timer} {level level' : Nat} {f : Wheel → Wheel}
    {g : Wheel → β} (hf : ∀ wheel, g (f wheel) = g wheel) {wheel' : Wheel}
    (h : (t.modifyWheel level f).wheels[level']? = some wheel') :
    ∃ wheel, t.wheels[level']? = some wheel ∧ g wheel' = g wheel := by
  simp only [Timer.modifyWheel, Array.getElem?_modify] at h
  split at h
  · obtain ⟨wheel, hwheel, rfl⟩ := Option.map_eq_some_iff.1 h
    exact ⟨wheel, hwheel, hf wheel⟩
  · exact ⟨wheel', h, rfl⟩

/-! ## What leaves custody alone -/

/-- A change of one entry leaves a property of every entry as it was, if it does so for the entry
that is changed. -/
theorem map_getElem?_modify {β : Type} {g : Entry → β} {entries : Array Entry} {i : EntryId}
    {f : Entry → Entry} (hf : ∀ e, entries[i]? = some e → g (f e) = g e) (j : EntryId) :
    (entries.modify i f)[j]?.map g = entries[j]?.map g := by
  rw [Array.getElem?_modify]
  split
  · next hij =>
    subst hij
    cases he : entries[i]? with
    | none => rfl
    | some e => simp [hf e he]
  · rfl

/-- An entry that is there afterwards was there before, with the same value of the property. -/
theorem exists_of_same {β : Type} {g : Entry → β} {entries entries' : Array Entry}
    (h : ∀ j : EntryId, entries'[j]?.map g = entries[j]?.map g)
    {j : EntryId} {e' : Entry} (he' : entries'[j]? = some e') :
    ∃ e, entries[j]? = some e ∧ g e' = g e := by
  have hj := h j
  rw [he'] at hj
  obtain ⟨e, he, hsame⟩ := Option.map_eq_some_iff.1 hj.symm
  exact ⟨e, he, hsame.symm⟩

/-- Owner and mark decide whether a timer has an entry. -/
def Entry.mark (e : Entry) : TimerId × Bool := (e.owner, e.installed)

theorem marked_of_same {entries entries' : Array Entry} {id : TimerId} {i : EntryId}
    (h : ∀ j : EntryId, entries'[j]?.map Entry.mark = entries[j]?.map Entry.mark)
    (hmarked : ∃ e, entries'[i]? = some e ∧ e.owner = id ∧ e.installed = true) :
    ∃ e, entries[i]? = some e ∧ e.owner = id ∧ e.installed = true := by
  obtain ⟨e', he', howner, hinstalled⟩ := hmarked
  obtain ⟨e, he, hsame⟩ := exists_of_same h he'
  exact ⟨e, he, (congrArg (·.1) hsame).symm.trans howner,
    (congrArg (·.2) hsame).symm.trans hinstalled⟩

/-- Where no mark changes, the timer has the same entries. -/
theorem marked_iff_of_same {entries entries' : Array Entry} {id : TimerId} {i : EntryId}
    (h : ∀ j : EntryId, entries'[j]?.map Entry.mark = entries[j]?.map Entry.mark) :
    (∃ e, entries[i]? = some e ∧ e.owner = id ∧ e.installed = true)
      ↔ ∃ e, entries'[i]? = some e ∧ e.owner = id ∧ e.installed = true :=
  ⟨marked_of_same fun j => (h j).symm, marked_of_same h⟩

/-- The berth of an entry is a matter of its level, its tick and the counters of its wheel. -/
theorem Entry.Berth.of_same {e e' : Entry} {level k : Nat} {wheel wheel' : Wheel}
    (h : e.Berth level k wheel) (hlevel : e'.level = e.level)
    (htick : e'.installedTick = e.installedTick) (hcount : wheel'.slotCount = wheel.slotCount)
    (hticks : wheel'.ticks = wheel.ticks) : e'.Berth level k wheel' where
  level_eq := hlevel.trans h.level_eq
  slot := by rw [htick, hcount]; exact h.slot
  ahead := by rw [htick, hticks]; exact h.ahead
  within := by rw [htick, hticks, hcount]; exact h.within

/-- A timer keeps its entries as long as neither its wheels nor the seats of entries change. -/
theorem Timer.Keeps.of_seats {t t' : Timer} {entries entries' : Array Entry} {hand : List EntryId}
    (h : t.Keeps entries hand) (hid : t'.id = t.id) (hwheels : t'.wheels = t.wheels)
    (hseats : ∀ j : EntryId, entries'[j]?.map Entry.seat = entries[j]?.map Entry.seat) :
    t'.Keeps entries' hand := by
  have hcontents : t'.contents = t.contents := by
    unfold Timer.contents
    rw [hwheels]
  -- owner and mark are read off the seat, and so is where an entry says it lies
  have hmarks : ∀ j : EntryId, entries'[j]?.map Entry.mark = entries[j]?.map Entry.mark := by
    intro j
    have hmark := congrArg (Option.map fun seat : TimerId × Bool × Nat × Nat => (seat.1, seat.2.1))
      (hseats j)
    rw [Option.map_map, Option.map_map] at hmark
    exact hmark
  refine ⟨⟨by rw [hwheels]; exact h.shaped.wheels_pos, ?_⟩, ?_, ?_, ?_⟩
  · intro level wheel hwheel
    rw [hwheels] at hwheel
    exact h.shaped.wheel hwheel
  · rw [hcontents]
    exact h.once
  · intro i
    rw [hcontents, h.owned i, hid]
    exact marked_iff_of_same hmarks
  · rintro level k i e' wheel ⟨wheel₁, slot, hwheel₁, hslot, hi⟩ he' hwheel
    obtain ⟨e, he, hseat⟩ := exists_of_same hseats he'
    rw [hwheels] at hwheel hwheel₁
    have hberth := h.berth ⟨wheel₁, slot, hwheel₁, hslot, hi⟩ he hwheel
    exact hberth.of_same (congrArg (·.2.2.1) hseat) (congrArg (·.2.2.2) hseat) rfl rfl

/-- **What changes no seat and no wheel leaves custody alone.** Nearly every operation is of this
kind, and the others move one entry. -/
theorem World.Custody.of_seats {w w' : World} {hand : List EntryId} (h : w.Custody hand)
    (htimers : w'.timers = w.timers)
    (htimer : w'.timer.map (fun t => (t.id, t.wheels)) = w.timer.map fun t => (t.id, t.wheels))
    (hseats : ∀ j : EntryId, w'.entries[j]?.map Entry.seat = w.entries[j]?.map Entry.seat) :
    w'.Custody hand := by
  -- whatever timer there is now was there before, with the same wheels
  have hback : ∀ {t'}, w'.timer = some t' → ∃ t, w.timer = some t ∧ t'.id = t.id ∧
      t'.wheels = t.wheels := by
    intro t' ht'
    rw [ht'] at htimer
    obtain ⟨t, ht, heq⟩ := Option.map_eq_some_iff.1 htimer.symm
    exact ⟨t, ht, (congrArg (·.1) heq).symm, (congrArg (·.2) heq).symm⟩
  refine ⟨?_, ?_, ?_, ?_⟩
  · intro i e' he'
    obtain ⟨e, he, hseat⟩ := exists_of_same hseats he'
    rw [Entry.owner_of_seat hseat, htimers]
    exact h.owners he
  · intro t' ht'
    obtain ⟨t, ht, hid, -⟩ := hback ht'
    rw [hid, htimers]
    exact h.numbered ht
  · intro t' ht'
    obtain ⟨t, ht, hid, hwheels⟩ := hback ht'
    exact (h.keeps ht).of_seats hid hwheels hseats
  · intro hnone
    rw [hnone] at htimer
    exact h.idle (Option.map_eq_none_iff.1 htimer.symm)

/-- A change of an entry that leaves it in its seat keeps custody. -/
theorem World.Custody.modifyEntry {w : World} {hand : List EntryId} (h : w.Custody hand)
    {i : EntryId} {f : Entry → Entry}
    (hf : ∀ e, w.entries[i]? = some e → (f e).seat = e.seat) :
    (w.modifyEntry i f).Custody hand :=
  h.of_seats rfl rfl (map_getElem?_modify hf)

theorem World.Custody.tell {w : World} {hand : List EntryId} (h : w.Custody hand) (e : Event) :
    (w.tell e).Custody hand :=
  h.of_seats rfl rfl fun _ => rfl

theorem World.Custody.log {w : World} {hand : List EntryId} (h : w.Custody hand) (line : LogLine) :
    (w.log line).Custody hand :=
  h.tell _

/-! ## Into the slots and out of them -/

/-- An entry is in a slot or in the hand of the tick exactly if it belongs to the timer and
carries the mark of the wheels. -/
theorem World.Custody.mem_iff {w : World} {hand : List EntryId} (h : w.Custody hand) {t : Timer}
    (ht : w.timer = some t) {i : EntryId} {e : Entry} (he : w.entries[i]? = some e) :
    i ∈ t.contents ++ hand ↔ e.owner = t.id ∧ e.installed = true := by
  rw [(h.keeps ht).owned i]
  constructor
  · rintro ⟨e', he', howned⟩
    rw [he] at he'
    rwa [Option.some.inj he']
  · exact fun howned => ⟨e, he, howned⟩

/-- Between commands the entries of the timer that the wheels own are those that a slot holds. -/
theorem World.Custody.installed_iff {w : World} (h : w.Custody []) {t : Timer}
    (ht : w.timer = some t) {i : EntryId} {e : Entry} (he : w.entries[i]? = some e)
    (howner : e.owner = t.id) :
    e.installed = true ↔ ∃ level slot, t.SlotHas level slot i := by
  have hiff := h.mem_iff ht he
  rw [List.append_nil, Timer.mem_contents] at hiff
  rw [hiff]
  exact ⟨fun howned => ⟨howner, howned⟩, fun howned => howned.2⟩

/-- What a slot holds is an entry of the timer that the wheels own, at the level of the slot. -/
theorem World.Custody.seat_of_slot {w : World} {hand : List EntryId} (h : w.Custody hand)
    {t : Timer} (ht : w.timer = some t) {level slot : Nat} {i : EntryId}
    (hslot : t.SlotHas level slot i) {e : Entry} (he : w.entries[i]? = some e) :
    e.seat = (t.id, true, level, e.installedTick) := by
  obtain ⟨howner, howned⟩ := (h.mem_iff ht he).1
    (List.mem_append_left _ (Timer.mem_contents.2 ⟨level, slot, hslot⟩))
  obtain ⟨wheel, slots, hwheel, -⟩ := id hslot
  have hlevel := ((h.keeps ht).berth hslot he hwheel).level_eq
  rw [Entry.seat, howner, howned, hlevel]

/-- An entry in hand is an entry of the timer that is there. -/
theorem World.Custody.in_hand {w : World} {hand : List EntryId} (h : w.Custody hand)
    {i : EntryId} (hi : i ∈ hand) : ∃ t e, w.timer = some t ∧ w.entries[i]? = some e ∧
      e.owner = t.id ∧ e.installed = true := by
  cases ht : w.timer with
  | none => simp [h.idle ht] at hi
  | some t =>
    obtain ⟨e, he, howner, hinstalled⟩ :=
      ((h.keeps ht).owned i).1 (List.mem_append_right _ hi)
    exact ⟨t, e, rfl, he, howner, hinstalled⟩

/-- Changes of an entry do not give it to a timer that is still to come. -/
theorem World.Custody.owners_modify {w : World} {hand : List EntryId} (h : w.Custody hand)
    {i : EntryId} {f : Entry → Entry} (hf : ∀ e, (f e).owner = e.owner) {j : EntryId} {e' : Entry}
    (he' : (w.entries.modify i f)[j]? = some e') : e'.owner < w.timers := by
  obtain ⟨e, he, howner⟩ := exists_of_same (map_getElem?_modify fun e _ => hf e) he'
  rw [howner]
  exact h.owners he

/-- Placing an entry takes it out of the hand and puts it into the slot that it records. -/
theorem Timer.Keeps.install {t : Timer} {entries : Array Entry} {hand : List EntryId} {i : EntryId}
    (h : t.Keeps entries (i :: hand)) {level tick : Nat} (hlevel : level < t.wheels.size)
    (htick : ∀ {wheel}, t.wheels[level]? = some wheel →
      wheel.ticks < tick ∧ tick ≤ wheel.ticks + wheel.slotCount) :
    (t.install i level tick).Keeps (entries.modify i (·.putAt level tick)) hand := by
  -- the entry leaves the hand for the contents
  have hperm : ((t.install i level tick).contents ++ hand).Perm (t.contents ++ i :: hand) :=
    ((h.shaped.contents_install hlevel i tick).append_right hand).trans List.perm_middle.symm
  have hout : i ∉ t.contents := fun hi =>
    (List.nodup_cons.1 (List.perm_middle.nodup_iff.1 h.once)).1 (List.mem_append_left _ hi)
  refine ⟨h.shaped.modifyWheel level fun hwheel => hwheel.install i tick,
    hperm.nodup_iff.2 h.once, fun j => ?_, ?_⟩
  · rw [hperm.mem_iff, h.owned j]
    exact marked_iff_of_same (map_getElem?_modify fun _ _ => by rfl)
  · intro level' k j e' wheel' hslot he' hwheel'
    obtain ⟨wheel, hwheel, hsame⟩ :=
      Timer.wheel_before (g := fun wheel => (wheel.slotCount, wheel.ticks)) (fun _ => by rfl)
        hwheel'
    have hcount : wheel'.slotCount = wheel.slotCount := congrArg (·.1) hsame
    have hticks : wheel'.ticks = wheel.ticks := congrArg (·.2) hsame
    rw [Array.getElem?_modify] at he'
    rcases hslot.of_install with hold | ⟨rfl, rfl, hk⟩
    · -- what was in a slot before is another entry, and its tick is as far ahead as it was
      have hij : i ≠ j := fun hij => hout (hij ▸ Timer.mem_contents.2 ⟨level', k, hold⟩)
      rw [if_neg hij] at he'
      exact (h.berth hold he' hwheel).of_same rfl rfl hcount hticks
    · rw [if_pos rfl] at he'
      obtain ⟨e, -, rfl⟩ := Option.map_eq_some_iff.1 he'
      obtain ⟨hahead, hwithin⟩ := htick hwheel
      refine ⟨rfl, ?_, ?_, ?_⟩
      · rw [hcount]
        exact hk wheel hwheel
      · rw [hticks]
        exact hahead
      · rw [hticks, hcount]
        exact hwithin

/-- An entry in hand is put into a slot: the hand loses it, the slot gains it, and it has a berth
there. -/
theorem World.Custody.place {w : World} {hand : List EntryId} {i : EntryId}
    (h : w.Custody (i :: hand)) : (w.place i).Custody hand := by
  obtain ⟨t, e, ht, he, howner, hinstalled⟩ := h.in_hand List.mem_cons_self
  have hkeeps := h.keeps ht
  obtain ⟨level, tick, hposition⟩ :
      ∃ level tick, t.position (e.remainingMs (t.nowMs w.clockUs)) = (level, tick) := ⟨_, _, rfl⟩
  have hplace : w.place i = { w with
      timer := some (t.install i level tick)
      entries := w.entries.modify i (·.putAt level tick) } := by
    simp only [World.place, ht, he, hposition]
  -- the level it is put on exists, and its tick is one of those that lie ahead
  have hlevel := t.selectLevel_lt hkeeps.shaped.wheels_pos (e.remainingMs (t.nowMs w.clockUs))
  have htick := @Timer.Shaped.position_tick t hkeeps.shaped (e.remainingMs (t.nowMs w.clockUs))
  rw [hposition] at htick
  have hselected : Timer.selectLevel t.wheels (e.remainingMs (t.nowMs w.clockUs)) = level :=
    congrArg (·.1) hposition
  rw [hselected] at hlevel
  rw [hplace]
  refine ⟨fun he' => h.owners_modify (fun _ => by rfl) he', ?_, ?_, by simp⟩
  · intro t' ht'
    rw [← Option.some.inj ht']
    have hlt := h.numbered ht
    exact hlt
  · intro t' ht'
    rw [← Option.some.inj ht']
    exact hkeeps.install hlevel htick

/-- The slots do not notice a change of an entry that is in none of them. -/
theorem Timer.Keeps.berth_modify {t : Timer} {entries : Array Entry} {hand : List EntryId}
    (h : t.Keeps entries hand) {i : EntryId} (hout : i ∉ t.contents) {f : Entry → Entry}
    {level k : Nat} {j : EntryId} {e : Entry} {wheel : Wheel} (hslot : t.SlotHas level k j)
    (he : (entries.modify i f)[j]? = some e) (hwheel : t.wheels[level]? = some wheel) :
    e.Berth level k wheel := by
  have hij : i ≠ j := fun hij => hout (hij ▸ Timer.mem_contents.2 ⟨level, k, hslot⟩)
  rw [Array.getElem?_modify, if_neg hij] at he
  exact h.berth hslot he hwheel

/-- Taking an entry of the timer that the wheels do not have takes it into the hand. -/
theorem World.Custody.rearm {w : World} {hand : List EntryId} (h : w.Custody hand) {i : EntryId}
    {e : Entry} (he : w.entries[i]? = some e) (hthere : w.hasTimer e.owner = true)
    (hfree : e.installed = false) (nowMs : Nat) :
    (w.modifyEntry i (·.rearm nowMs)).Custody (i :: hand) := by
  cases ht : w.timer with
  | none => simp [World.hasTimer, ht] at hthere
  | some t =>
    have howner : e.owner = t.id := by
      simp only [World.hasTimer, ht, Option.any_some, beq_iff_eq] at hthere
      exact hthere.symm
    have hkeeps := h.keeps ht
    -- the wheels did not own the entry, so it is neither in a slot nor in hand
    have hout : i ∉ t.contents ++ hand := by
      rw [h.mem_iff ht he]
      simp [hfree]
    refine ⟨fun he' => h.owners_modify (fun _ => by rfl) he', h.numbered, ?_, ?_⟩
    · intro t' ht'
      obtain rfl : t = t' := Option.some.inj (ht.symm.trans ht')
      refine ⟨hkeeps.shaped, ?_, fun j => ?_,
        hkeeps.berth_modify fun hi => hout (List.mem_append_left _ hi)⟩
      · exact (List.perm_middle.nodup_iff).2 (List.nodup_cons.2 ⟨hout, hkeeps.once⟩)
      · have hperm : (t.contents ++ i :: hand).Perm (i :: (t.contents ++ hand)) := List.perm_middle
        have hget : (w.modifyEntry i (·.rearm nowMs)).entries[j]?
            = if i = j then w.entries[j]?.map (·.rearm nowMs) else w.entries[j]? :=
          Array.getElem?_modify
        rw [hperm.mem_iff, List.mem_cons, hkeeps.owned j, hget]
        constructor
        · rintro (rfl | howned)
          · exact ⟨e.rearm nowMs, by rw [if_pos rfl, he]; rfl, howner, rfl⟩
          · have hij : i ≠ j := fun hij => hout ((hkeeps.owned i).2 (hij ▸ howned))
            rwa [if_neg hij]
        · rintro ⟨e', he', howned⟩
          by_cases hij : i = j
          · exact Or.inl hij.symm
          · rw [if_neg hij] at he'
            exact Or.inr ⟨e', he', howned⟩
    · intro hnone
      simp [World.modifyEntry, ht] at hnone

/-- Taking the mark from an entry in hand lets it go. -/
theorem World.Custody.letGo {w : World} {hand : List EntryId} {i : EntryId}
    (h : w.Custody (i :: hand)) : (w.modifyEntry i (·.release)).Custody hand := by
  obtain ⟨t, e, ht, he, howner, hinstalled⟩ := h.in_hand List.mem_cons_self
  have hkeeps := h.keeps ht
  have hperm : (t.contents ++ i :: hand).Perm (i :: (t.contents ++ hand)) := List.perm_middle
  -- an entry lies in one place only: in hand, and hence in no slot
  have hout : i ∉ t.contents ++ hand := (List.nodup_cons.1 (hperm.nodup_iff.1 hkeeps.once)).1
  refine ⟨fun he' => h.owners_modify (fun _ => by rfl) he', h.numbered, ?_, ?_⟩
  · intro t' ht'
    obtain rfl : t = t' := Option.some.inj (ht.symm.trans ht')
    refine ⟨hkeeps.shaped, (List.nodup_cons.1 (hperm.nodup_iff.1 hkeeps.once)).2, fun j => ?_,
      hkeeps.berth_modify fun hi => hout (List.mem_append_left _ hi)⟩
    have hget : (w.modifyEntry i (·.release)).entries[j]?
        = if i = j then w.entries[j]?.map (·.release) else w.entries[j]? :=
      Array.getElem?_modify
    rw [hget]
    by_cases hij : i = j
    · subst hij
      rw [if_pos rfl, he]
      constructor
      · exact fun hi => absurd hi hout
      · rintro ⟨e', he', -, hinstalled'⟩
        rw [Option.map_some, Option.some.injEq] at he'
        rw [← he'] at hinstalled'
        simp [Entry.release] at hinstalled'
    · rw [if_neg hij, ← hkeeps.owned j, hperm.mem_iff, List.mem_cons]
      exact ⟨Or.inr, fun hj => hj.resolve_left (Ne.symm hij)⟩
  · intro hnone
    simp [World.modifyEntry, ht] at hnone

/-- A new entry leaves the earlier ones where they are. -/
theorem getElem?_push_of_some {entries : Array Entry} {j : EntryId} {e' : Entry}
    (he' : entries[j]? = some e') (e : Entry) : (entries.push e)[j]? = some e' := by
  have hlt := (Array.getElem?_eq_some_iff.1 he').1
  rw [Array.getElem?_push_lt hlt, ← he', Array.getElem?_eq_getElem hlt]

/-- What is there after a push was there before or is what was pushed. -/
theorem getElem?_push_cases {entries : Array Entry} {e e' : Entry} {j : EntryId}
    (he' : (entries.push e)[j]? = some e') :
    entries[j]? = some e' ∨ (j = entries.size ∧ e' = e) := by
  rw [Array.getElem?_push] at he'
  split at he'
  · next hj => exact Or.inr ⟨hj, (Option.some.inj he').symm⟩
  · exact Or.inl he'

/-- A new entry of the timer is in hand where it is marked, and nowhere where it is not. -/
theorem World.Custody.push {w : World} {hand : List EntryId} (h : w.Custody hand) {t : Timer}
    (ht : w.timer = some t) {e : Entry} (howner : e.owner = t.id) :
    ({ w with entries := w.entries.push e } : World).Custody
      (if e.installed then w.entries.size :: hand else hand) := by
  have hkeeps := h.keeps ht
  -- a new entry has a number that none had, so no slot can hold it
  have hout : w.entries.size ∉ t.contents ++ hand := by
    intro hi
    obtain ⟨e', he', -⟩ := (hkeeps.owned _).1 hi
    have hlt := (Array.getElem?_eq_some_iff.1 he').1
    omega
  have hperm : (t.contents ++ if e.installed then w.entries.size :: hand else hand).Perm
      (if e.installed then w.entries.size :: (t.contents ++ hand) else t.contents ++ hand) := by
    split
    · exact List.perm_middle
    · exact .refl _
  refine ⟨?_, h.numbered, ?_, fun hnone => by simp [ht] at hnone⟩
  · intro j e' he'
    rcases getElem?_push_cases he' with he' | ⟨-, rfl⟩
    · exact h.owners he'
    · rw [howner]
      exact h.numbered ht
  intro t' ht'
  obtain rfl : t = t' := Option.some.inj (ht.symm.trans ht')
  refine ⟨hkeeps.shaped, ?_, ?_, ?_⟩
  · rw [hperm.nodup_iff]
    split
    · exact List.nodup_cons.2 ⟨hout, hkeeps.once⟩
    · exact hkeeps.once
  · intro j
    rw [hperm.mem_iff]
    constructor
    · intro hj
      split at hj
      · next hinstalled =>
        rcases List.mem_cons.1 hj with rfl | hj
        · exact ⟨e, Array.getElem?_push_size, howner, hinstalled⟩
        · obtain ⟨e', he', howned⟩ := (hkeeps.owned j).1 hj
          exact ⟨e', getElem?_push_of_some he' e, howned⟩
      · obtain ⟨e', he', howned⟩ := (hkeeps.owned j).1 hj
        exact ⟨e', getElem?_push_of_some he' e, howned⟩
    · rintro ⟨e', he', howner', hinstalled'⟩
      rcases getElem?_push_cases he' with he' | ⟨rfl, rfl⟩
      · have hj := (hkeeps.owned j).2 ⟨e', he', howner', hinstalled'⟩
        split
        · exact List.mem_cons_of_mem _ hj
        · exact hj
      · rw [if_pos hinstalled']
        exact List.mem_cons_self
  · intro level k j e' wheel hslot he' hwheel
    rcases getElem?_push_cases he' with he' | ⟨rfl, -⟩
    · exact hkeeps.berth hslot he' hwheel
    · exact absurd (List.mem_append_left hand (Timer.mem_contents.2 ⟨level, k, hslot⟩)) hout

/-- Changing one wheel, where the entries that leave the slots are in hand afterwards. -/
theorem World.Custody.modifyWheel {w : World} {hand hand' : List EntryId} (h : w.Custody hand)
    {t : Timer} (ht : w.timer = some t) {level : Nat} {f : Wheel → Wheel}
    (hshaped : ∀ {wheel : Wheel} {level : Nat}, wheel.Shaped level → (f wheel).Shaped level)
    (hberth : ∀ {level' k : Nat} {j : EntryId} {e : Entry} {wheel' : Wheel},
      (t.modifyWheel level f).SlotHas level' k j → w.entries[j]? = some e →
      (t.modifyWheel level f).wheels[level']? = some wheel' → e.Berth level' k wheel')
    (hperm : (t.contents ++ hand).Perm ((t.modifyWheel level f).contents ++ hand')) :
    (w.modifyTimer (·.modifyWheel level f)).Custody hand' := by
  have hkeeps := h.keeps ht
  rw [World.modifyTimer_eq, ht]
  refine ⟨h.owners, ?_, ?_, fun hnone => by simp at hnone⟩
  · intro t' ht'
    rw [← Option.some.inj ht']
    have hlt := h.numbered ht
    exact hlt
  intro t' ht'
  rw [← Option.some.inj ht']
  refine ⟨hkeeps.shaped.modifyWheel level hshaped, hperm.nodup_iff.1 hkeeps.once, fun j => ?_,
    hberth⟩
  rw [← hperm.mem_iff]
  exact hkeeps.owned j

/-! ## What operations do to custody -/

namespace World.Custody

variable {w : World} {hand : List EntryId}

/-- An entry comes back to a slot only if it is in none, so it is held once. -/
theorem reinstall (h : w.Custody hand) (i : EntryId) : (w.reinstall i).Custody hand := by
  unfold World.reinstall
  split
  · exact h
  · next e he =>
    split
    · next hfree =>
      rw [Bool.and_eq_true, Bool.not_eq_true'] at hfree
      exact ((h.rearm he hfree.1 hfree.2 w.nowMs).log _).place
    · exact h

/-- An entry in hand is given up, and may come back into a slot at once. -/
theorem release {i : EntryId} (h : w.Custody (i :: hand)) : (w.release i).Custody hand := by
  unfold World.release
  simp only
  split
  · exact h.letGo
  · split
    · exact h.letGo.reinstall i
    · exact h.letGo

/-- A registration puts a new entry, which nothing holds yet, into one slot. -/
theorem register (h : w.Custody hand) (r : Registration) (task : Task) :
    (w.register r task).Custody hand := by
  unfold World.register
  split
  · exact h
  · next t ht =>
    refine Custody.log ?_ _
    split
    · exact h.push ht (e := Entry.ofRegistration r task t.id w.nowMs) rfl
    · have hin := h.push ht
        (e := { Entry.ofRegistration r task t.id w.nowMs with installed := true }) rfl
      exact hin.place

theorem stopEntry (h : w.Custody hand) (i : EntryId) (e : Entry) :
    (w.stopEntry i e).Custody hand := by
  unfold World.stopEntry
  split
  · exact h
  · exact (h.modifyEntry fun e _ => e.seat_stop).log _

theorem startEntry (h : w.Custody hand) (i : EntryId) (e : Entry) :
    (w.startEntry i e).Custody hand := by
  unfold World.startEntry
  split
  · exact ((h.modifyEntry fun e _ => e.seat_start).log _).reinstall i
  · exact h

theorem resetEntry (h : w.Custody hand) (i : EntryId) (e : Entry) :
    (w.resetEntry i e).Custody hand :=
  ((h.modifyEntry fun _ _ => by rfl).log _).reinstall i

theorem closeEntry (h : w.Custody hand) (i : EntryId) (e : Entry) :
    (w.closeEntry i e).Custody hand := by
  unfold World.closeEntry
  split
  · exact h
  · exact (h.modifyEntry fun _ _ => by rfl).log _

/-- Controls other than `run` keep custody. `start` and `reset` may bring the entry back, the
others leave it in its seat. -/
theorem control (h : w.Custody hand) {c : Control} (hc : c ≠ .run)
    (runTask : EntryId → World → Outcome × World) (i : EntryId) (e : Entry) :
    (w.control runTask i e c).2.Custody hand := by
  have htell := h.tell (.controlled i c)
  cases c with
  | stop => exact htell.stopEntry i e
  | start => exact htell.startEntry i e
  | reset => exact htell.resetEntry i e
  | close => exact htell.closeEntry i e
  | run => exact absurd rfl hc
  | setRuns runs => exact htell.modifyEntry fun _ _ => by rfl
  | setSingleton on => exact htell.modifyEntry fun _ _ => by rfl

/-- The end of an execution keeps custody, also where it brings the entry back. -/
theorem complete (h : w.Custody hand) (i : EntryId) : (w.complete i).Custody hand := by
  unfold World.complete
  split
  · exact h
  · have hend := (h.modifyEntry (i := i) fun e _ => e.seat_complete).tell (.completed i)
    simp only
    split
    · exact hend.log _
    · exact hend

theorem conclude (h : w.Custody hand) (i : EntryId) (outcome : Outcome) :
    (w.conclude i outcome).Custody hand := by
  cases outcome with
  | exit => exact (h.modifyEntry fun _ _ => by rfl).log _
  | failed reason => exact h.log _
  | done => exact h
  | crashed => exact h

/-- A look leaves the entry in its seat, whatever it finds. -/
theorem evaluated (h : w.Custody hand) {i : EntryId} {e : Entry} (he : w.entries[i]? = some e)
    (nowMs : Nat) (event : Event) :
    ((w.modifyEntry i fun _ => (e.evaluate nowMs).2).tell event).Custody hand := by
  refine (h.modifyEntry fun e' he' => ?_).tell event
  rw [he] at he'
  rw [← Option.some.inj he']
  exact e.seat_evaluate nowMs

/-- The tick deals with the first entry in hand and launches nothing. -/
theorem dispatch {i : EntryId} (h : w.Custody (i :: hand)) {e : Entry}
    (he : w.entries[i]? = some e) {nowMs : Nat} (rests : ∀ last, (e.evaluate nowMs).1 ≠ .run last)
    (level tick : Nat) : (w.dispatch level tick nowMs i).Custody hand := by
  have hlook := fun v => h.evaluated he nowMs (.evaluated i level tick nowMs v)
  unfold World.dispatch
  rw [he]
  simp only
  cases hv : (e.evaluate nowMs).1 with
  | drop => exact (hlook _).release
  | wait => exact (hlook _).place
  | skip => exact ((hlook _).modifyEntry fun _ _ => by rfl).place
  | run last => exact absurd hv (rests last)

/-- A tick is done with an entry: it leaves the hand for a slot, or it is released. -/
theorem puttingBack {i : EntryId} (h : w.Custody (i :: hand)) (nowMs : Nat) (last : Bool) :
    (w.puttingBack nowMs i last).Custody hand := by
  unfold World.puttingBack
  split
  · exact h.release
  · exact (h.modifyEntry fun _ _ => by rfl).place

/-- Counting a tick as dealt with does not touch the slots. -/
theorem serve (h : w.Custody hand) (level : Nat) : (w.serve level).Custody hand := by
  cases ht : w.timer with
  | none =>
    have hsame : w.serve level = w := by simp only [World.serve, World.modifyTimer, ht]
    rwa [hsame]
  | some t =>
    have hcontents : (t.modifyWheel level fun wheel =>
        { wheel with served := wheel.served + 1 }).contents = t.contents := by
      unfold Timer.contents Timer.modifyWheel
      simp only [List.flatMap_def, ← Array.toList_map]
      rw [map_modify_eq fun _ => by rfl]
    refine h.modifyWheel ht (fun hw => ⟨hw.level_eq, hw.slots_pos, hw.slots_size⟩) ?_
      (by rw [hcontents])
    rintro level' k j e wheel' ⟨wheel₁, slot, hwheel₁, hslot, hj⟩ he hwheel'
    obtain rfl : wheel₁ = wheel' := Option.some.inj (hwheel₁.symm.trans hwheel')
    obtain ⟨wheel, hwheel, hsame⟩ := Timer.wheel_before
      (g := fun wheel => (wheel.slots, wheel.slotCount, wheel.ticks)) (fun _ => by rfl) hwheel'
    have hslots : wheel₁.slots = wheel.slots := congrArg (·.1) hsame
    have hberth := (h.keeps ht).berth ⟨wheel, slot, hwheel, hslots ▸ hslot, hj⟩ he hwheel
    exact hberth.of_same rfl rfl (congrArg (·.2.1) hsame) (congrArg (·.2.2) hsame)

/-- Turning a wheel takes what its next slot holds into the hand. -/
theorem turn (h : w.Custody []) {t : Timer} (ht : w.timer = some t) {level : Nat} {wheel : Wheel}
    (hwheel : t.wheels[level]? = some wheel) :
    (w.modifyTimer (·.modifyWheel level (·.turn))).Custody wheel.nextBatch.toList := by
  have hkeeps := h.keeps ht
  refine h.modifyWheel ht (fun hw => hw.turn) ?_ ?_
  -- what is left in the slots lies ahead of the tick that the wheel came to
  · intro level' k j e wheel₁ hslot he hwheel₁
    obtain ⟨hold, hnext⟩ := hslot.of_turn
    simp only [Timer.modifyWheel, Array.getElem?_modify] at hwheel₁
    split at hwheel₁
    · next hlevel =>
      obtain ⟨wheel₀, hwheel₀, rfl⟩ := Option.map_eq_some_iff.1 hwheel₁
      have hberth := hkeeps.berth hold he hwheel₀
      have hahead := hberth.ahead
      have hwithin := hberth.within
      refine ⟨hberth.level_eq, hberth.slot, ?_, ?_⟩
      · -- its tick is not the one that the wheel came to
        have hother : e.installedTick ≠ wheel₀.ticks + 1 := by
          intro heq
          refine hnext hlevel.symm wheel₀ (hlevel ▸ hwheel₀) ?_
          rw [← heq]
          exact hberth.slot.symm
        show wheel₀.ticks + 1 < e.installedTick
        omega
      · show e.installedTick ≤ wheel₀.ticks + 1 + wheel₀.slotCount
        omega
    · exact hkeeps.berth hold he hwheel₁
  · rw [List.append_nil]
    exact (hkeeps.shaped.contents_turn hwheel rfl).trans List.perm_append_comm

/-- Draining a slot takes what it holds into the hand. -/
theorem drained (h : w.Custody []) {t : Timer} (ht : w.timer = some t) {level : Nat} {wheel : Wheel}
    (hwheel : t.wheels[level]? = some wheel) :
    (w.drained level wheel).Custody wheel.nextBatch.toList := by
  have hserved : (w.serve level).timer = some (t.modifyWheel level fun wheel =>
      { wheel with served := wheel.served + 1 }) := by
    rw [World.serve_eq]
    simp only [ht, Option.map_some]
  have hwheel' : (t.modifyWheel level fun wheel =>
      { wheel with served := wheel.served + 1 }).wheels[level]?
        = some { wheel with served := wheel.served + 1 } := by
    simp only [Timer.modifyWheel, Array.getElem?_modify, if_true, hwheel, Option.map_some]
  have hturn := (h.serve level).turn hserved hwheel'
  unfold World.drained
  simp only
  split
  · exact hturn
  · exact hturn.log _

/-- Controls of the timer change its status, not its wheels. -/
theorem controlTimer (h : w.Custody hand) {t : Timer} (ht : w.timer = some t) (c : TimerControl) :
    (w.controlTimer t c).Custody hand := by
  obtain ⟨status, journal, -, heq⟩ := w.controlTimer_eq ht c
  rw [heq]
  exact h.of_seats rfl (by simp [ht]) fun _ => rfl

/-- A timer that is dropped between ticks takes its slots with it; its entries keep a number that
no later timer has. -/
theorem dropTimer (h : w.Custody []) : w.dropTimer.Custody [] := by
  obtain ⟨journal, -, heq⟩ := w.dropTimer_eq
  rw [heq]
  exact ⟨h.owners, fun ht => by simp at ht, fun ht => by simp at ht, fun _ => rfl⟩

/-- A new timer holds nothing, and no entry is its own yet. -/
theorem startTimer (h : w.Custody []) {c : TimerConfig} (hc : c.validate = .ok ()) :
    (w.startTimer c).Custody [] := by
  obtain ⟨journal, -, heq⟩ := w.startTimer_eq c
  rw [heq]
  refine ⟨fun he => Nat.lt_succ_of_lt (h.owners he), ?_, ?_, fun _ => rfl⟩
  · intro t ht
    rw [← Option.some.inj ht]
    exact Nat.lt_succ_self _
  intro t ht
  rw [← Option.some.inj ht]
  -- nothing is in the slots of a new timer, and no entry has its number
  have hempty := Timer.contents_ofConfig w.timers w.clockUs hc
  have hnone : ∀ {level k i}, ¬ (Timer.ofConfig w.timers w.clockUs c).SlotHas level k i := by
    intro level k i hslot
    have hi := Timer.mem_contents.2 ⟨level, k, hslot⟩
    rw [hempty] at hi
    simp at hi
  refine ⟨Timer.shaped_ofConfig _ _ hc, by simp [hempty], fun i => ?_,
    fun hslot => (hnone hslot).elim⟩
  rw [hempty]
  constructor
  · intro hi
    simp at hi
  · rintro ⟨e, he, howner, -⟩
    have hlt : e.owner < w.timers := h.owners he
    rw [howner] at hlt
    exact absurd hlt (Nat.lt_irrefl _)

theorem performed (h : w.Custody hand) {a : Action} {w' : World} (hp : Performed w a w') :
    w'.Custody hand := by
  cases hp with
  | nothing => exact h
  | control handle i e c runTask known plain => exact h.control plain runTask i e
  | handles a handles => exact h.of_seats rfl rfl fun _ => rfl
  | schedule handle r delayMs outcomes rounds =>
    obtain ⟨r', task, handles, heq⟩ := w.schedule_eq handle r delayMs { outcomes, rounds }
    rw [heq]
    have hjob : (w.withJob handle { outcomes, rounds }).Custody hand :=
      h.of_seats rfl rfl fun _ => rfl
    exact (hjob.register r' task).of_seats rfl rfl fun _ => rfl
  | timer t c there => exact h.controlTimer there c
  | jump us => exact h.of_seats rfl rfl fun _ => rfl
  | hold on => exact h.of_seats rfl rfl fun _ => rfl
  | coarseFirst on => exact h.of_seats rfl rfl fun _ => rfl

end World.Custody

/-- **Every move keeps custody.** -/
theorem Move.custody {law : Law} {m m' : Moment} (h : Move law m m') (hm : m.world.Custody m.hand) :
    m'.world.Custody m'.hand := by
  cases h with
  | act m a runTask allowed plain =>
    exact hm.performed (World.performed_perform plain runTask m.world)
  | byHand m i known => exact hm.tell _
  | begin m i job label known => exact hm.of_seats rfl rfl fun _ => rfl
  | conclude m i outcome known => exact hm.conclude i outcome
  | enroll m i e r job known task there => exact hm.register r _
  | complete m i inProgress => exact hm.complete i
  | takeUp w n i allowed held => exact hm.of_seats rfl rfl fun _ => rfl
  | lose w level t wheel allowed there stopped known due => exact hm.serve level
  | drain w level t wheel allowed there running known due => exact hm.drained there known
  | look w s i rest e next free known rests =>
    simp only [Moment.hand, Option.map_some, Option.getD_some, Sweep.hand, next, free] at hm ⊢
    exact hm.dispatch known rests s.level s.tick
  | overlook w s i rest next free unknown =>
    -- what is in hand is an entry
    simp only [Moment.hand, Option.map_some, Option.getD_some, Sweep.hand, next, free] at hm
    obtain ⟨t, e, -, he, -⟩ := hm.in_hand List.mem_cons_self
    simp [unknown] at he
  | launch w s i rest e e' last next free known runs =>
    simp only [Moment.hand, Option.map_some, Option.getD_some, Sweep.hand, next, free] at hm ⊢
    have hlook := hm.evaluated known s.nowMs (.evaluated i s.level s.tick s.nowMs (.run last))
    rw [runs] at hlook
    unfold World.launching
    simp only
    split
    · exact hlook.of_seats rfl rfl fun _ => rfl
    · exact hlook
  | putBack w s i last current =>
    simp only [Moment.hand, Option.map_some, Option.getD_some, Sweep.hand, current] at hm ⊢
    exact hm.puttingBack s.nowMs last
  | done w s empty free =>
    simp only [Moment.hand, Option.map_some, Option.getD_some, Sweep.hand, empty, free] at hm ⊢
    exact hm
  | wait w us allowed => exact hm.of_seats rfl rfl fun _ => rfl
  | create w c allowed valid => exact hm.startTimer valid
  | drop w allowed => exact hm.dropTimer
  | warn w reason rejected => exact hm.log _

/-- **Custody holds in everything that arises.** Induction on the moves. -/
theorem Moment.Arises.custody {m : Moment} (h : m.Arises) : m.world.Custody m.hand := by
  induction h using Moment.Arises.induction with
  | start nesting =>
    exact ⟨fun he => by simp at he, fun ht => by simp at ht, fun ht => by simp at ht, fun _ => rfl⟩
  | move _ hmove ih => exact hmove.custody ih

end TimingWheel
