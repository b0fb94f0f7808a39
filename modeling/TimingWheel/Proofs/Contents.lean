import Mathlib.Data.List.Basic
import Mathlib.Data.List.Perm.Basic
import TimingWheel.Proofs.Effects
import TimingWheel.Proofs.Periods

/-!
# What the slots of a timer hold

The contents of a timer are the contents of its slots, slot after slot and level after level. A
permutation says what an operation does to them, whatever slot it works on:

* **`Timer.contents_install`** — putting an entry into a slot adds it to the contents.
* **`Timer.contents_turn`** — turning a wheel takes the batch of the next slot out of them.
* **`Timer.pending_stats`** — what a timer reports as pending is how many entries its slots hold.

All of it is about timers of a proper shape (`Timer.Shaped`), and the timers of accepted shapes are
(`Timer.shaped_ofConfig`).
-/

namespace TimingWheel

/-! ## One element of a list of lists -/

/-- The part of a flattened list that one element contributes can be taken to its front. -/
theorem exists_flatMap_modify_perm {α β : Type} {l : List α} {j : Nat} {x : α} (g : α → List β)
    (hj : l[j]? = some x) : ∃ rest, (l.flatMap g).Perm (g x ++ rest) ∧
      ∀ f, ((l.modify j f).flatMap g).Perm (g (f x) ++ rest) := by
  induction l generalizing j with
  | nil => simp at hj
  | cons y ys ih =>
    cases j with
    | zero =>
      obtain rfl : y = x := by simpa using hj
      exact ⟨ys.flatMap g, .refl _, fun f => .refl _⟩
    | succ j =>
      obtain ⟨rest, hsame, hchanged⟩ := ih (j := j) (by simpa using hj)
      have hswap : ∀ zs : List β, (g y ++ (zs ++ rest)).Perm (zs ++ (g y ++ rest)) := by
        intro zs
        rw [← List.append_assoc, ← List.append_assoc]
        exact List.perm_append_comm.append_right rest
      refine ⟨g y ++ rest, ?_, fun f => ?_⟩
      · rw [List.flatMap_cons]
        exact (hsame.append_left (g y)).trans (hswap _)
      · rw [List.modify_succ_cons, List.flatMap_cons]
        exact ((hchanged f).append_left (g y)).trans (hswap _)

/-! ## Contents -/

/-- The entries that the slots of a wheel hold. -/
def Wheel.contents (wheel : Wheel) : List EntryId := wheel.slots.toList.flatMap Array.toList

/-- The entries that the slots of a timer hold. -/
def Timer.contents (t : Timer) : List EntryId := t.wheels.toList.flatMap Wheel.contents

/-- A wheel of a proper shape: it has a slot, and as many as it says. -/
structure Wheel.Shaped (wheel : Wheel) (level : Nat) : Prop where
  level_eq : wheel.level = level
  slots_pos : 0 < wheel.slotCount
  slots_size : wheel.slots.size = wheel.slotCount

/-- A timer of a proper shape: there is a wheel, and the wheels have proper shapes. -/
structure Timer.Shaped (t : Timer) : Prop where
  wheels_pos : 0 < t.wheels.size
  wheel : ∀ {level : Nat} {wheel : Wheel}, t.wheels[level]? = some wheel → wheel.Shaped level

namespace Wheel

variable {wheel : Wheel} {level : Nat}

/-- Every tick has a slot, since there is at least one and ticks wrap around. -/
theorem Shaped.slot (h : wheel.Shaped level) (tick : Nat) :
    ∃ slot, wheel.slots[tick % wheel.slotCount]? = some slot := by
  have hlt : tick % wheel.slotCount < wheel.slots.size := by
    rw [h.slots_size]
    exact Nat.mod_lt _ h.slots_pos
  exact ⟨_, Array.getElem?_eq_getElem hlt⟩

theorem Shaped.install (h : wheel.Shaped level) (i : EntryId) (tick : Nat) :
    (wheel.install i tick).Shaped level :=
  ⟨h.level_eq, h.slots_pos, Array.size_modify.trans h.slots_size⟩

theorem Shaped.turn (h : wheel.Shaped level) : wheel.turn.Shaped level :=
  ⟨h.level_eq, h.slots_pos, Array.size_modify.trans h.slots_size⟩

/-- An installed entry is added to the contents of the wheel, and nothing is lost. -/
theorem Shaped.contents_install (h : wheel.Shaped level) (i : EntryId) (tick : Nat) :
    (wheel.install i tick).contents.Perm (i :: wheel.contents) := by
  obtain ⟨slot, hslot⟩ := h.slot tick
  rw [← Array.getElem?_toList] at hslot
  obtain ⟨rest, hsame, hchanged⟩ := exists_flatMap_modify_perm Array.toList hslot
  have hadd := hchanged (·.push i)
  rw [Array.toList_push, List.append_assoc] at hadd
  unfold Wheel.install Wheel.contents
  rw [Array.toList_modify]
  exact hadd.trans (List.perm_middle.trans (hsame.symm.cons i))

/-- A turn of the wheel parts its contents into the batch of the tick and what stays. -/
theorem Shaped.contents_turn (h : wheel.Shaped level) :
    wheel.contents.Perm (wheel.nextBatch.toList ++ wheel.turn.contents) := by
  obtain ⟨slot, hslot⟩ := h.slot (wheel.ticks + 1)
  have hbatch : wheel.nextBatch = slot := by
    unfold Wheel.nextBatch
    rw [Array.getD_eq_getD_getElem?, hslot]
    rfl
  rw [← Array.getElem?_toList] at hslot
  obtain ⟨rest, hsame, hchanged⟩ := exists_flatMap_modify_perm Array.toList hslot
  -- what is left is all that the other slots hold
  have hempty : (wheel.turn.contents).Perm rest := by
    have := hchanged fun _ => #[]
    unfold Wheel.turn Wheel.contents
    rw [Array.toList_modify]
    simpa using this
  rw [hbatch]
  exact hsame.trans (hempty.symm.append_left _)

/-- The pending count of a wheel is the number of entries in its slots. -/
theorem pending_eq_length (wheel : Wheel) : wheel.pending = wheel.contents.length := by
  have hfold : ∀ (slots : List (Array EntryId)) (n : Nat),
      slots.foldl (fun n slot => n + slot.size) n = n + (slots.flatMap Array.toList).length := by
    intro slots
    induction slots with
    | nil => intro n; rfl
    | cons slot rest ih =>
      intro n
      rw [List.foldl_cons, ih, List.flatMap_cons, List.length_append, Nat.add_assoc]
      rfl
  unfold pending contents
  rw [← Array.foldl_toList, hfold]
  omega

end Wheel

namespace Timer

variable {t : Timer}

/-- A timer keeps its shape if the wheel that changes does. -/
theorem Shaped.modifyWheel (h : t.Shaped) (level : Nat) {f : Wheel → Wheel}
    (hf : ∀ {wheel : Wheel} {level : Nat}, wheel.Shaped level → (f wheel).Shaped level) :
    (t.modifyWheel level f).Shaped := by
  refine ⟨by simpa [Timer.modifyWheel] using h.wheels_pos, ?_⟩
  intro level' wheel' hwheel'
  simp only [Timer.modifyWheel, Array.getElem?_modify] at hwheel'
  split at hwheel'
  · obtain ⟨wheel, hwheel, rfl⟩ := Option.map_eq_some_iff.1 hwheel'
    exact hf (h.wheel hwheel)
  · exact h.wheel hwheel'

/-- An installed entry is added to the contents of the timer. -/
theorem Shaped.contents_install (h : t.Shaped) {level : Nat} (hlevel : level < t.wheels.size)
    (i : EntryId) (tick : Nat) : (t.install i level tick).contents.Perm (i :: t.contents) := by
  have hwheel : t.wheels[level]? = some t.wheels[level] := Array.getElem?_eq_getElem hlevel
  have hlist := hwheel
  rw [← Array.getElem?_toList] at hlist
  obtain ⟨rest, hsame, hchanged⟩ := exists_flatMap_modify_perm Wheel.contents hlist
  have hinstall := (h.wheel hwheel).contents_install i tick
  unfold Timer.install Timer.modifyWheel Timer.contents
  rw [Array.toList_modify]
  exact (hchanged _).trans ((hinstall.append_right rest).trans (hsame.symm.cons i))

/-- A turn of one wheel parts the contents of the timer into the batch and what stays, on this
level and on all others. -/
theorem Shaped.contents_turn (h : t.Shaped) {level : Nat} {wheel : Wheel}
    (hwheel : t.wheels[level]? = some wheel) {f : Wheel → Wheel}
    (hf : (f wheel).contents = wheel.turn.contents) :
    t.contents.Perm (wheel.nextBatch.toList ++ (t.modifyWheel level f).contents) := by
  have hlist := hwheel
  rw [← Array.getElem?_toList] at hlist
  obtain ⟨rest, hsame, hchanged⟩ := exists_flatMap_modify_perm Wheel.contents hlist
  have hafter : (t.modifyWheel level f).contents.Perm (wheel.turn.contents ++ rest) := by
    unfold Timer.modifyWheel Timer.contents
    rw [Array.toList_modify, ← hf]
    exact hchanged f
  have hturn := (h.wheel hwheel).contents_turn.append_right rest
  rw [List.append_assoc] at hturn
  exact (hsame.trans hturn).trans (hafter.symm.append_left _)

/-- The pending count that the statistics report is the number of entries in all slots. -/
theorem pending_stats (t : Timer) : t.stats.pending = t.contents.length := by
  have htotal : ∀ wheels : List Wheel, total ((wheels.map fun w : Wheel =>
      (⟨w.level, w.resolutionMs, w.ticks, w.pending⟩ : LevelStats)).map (·.pending))
        = (wheels.flatMap Wheel.contents).length := by
    intro wheels
    induction wheels with
    | nil => rfl
    | cons wheel rest ih =>
      rw [List.map_cons, List.map_cons, total, ih, List.flatMap_cons, List.length_append,
        wheel.pending_eq_length]
  exact htotal t.wheels.toList

/-- The level that a delay calls for is there. -/
theorem selectLevel_lt (hpos : 0 < t.wheels.size) (remainingMs : Nat) :
    selectLevel t.wheels remainingMs < t.wheels.size := by
  unfold selectLevel
  cases hfind : t.wheels.findIdx? fun w => decide (remainingMs ≤ w.spanMs) with
  | none =>
    -- no rotation is long enough, so the coarsest level is taken
    show t.wheels.size - 1 < t.wheels.size
    omega
  | some level =>
    exact (Array.findIdx?_eq_some_iff_findIdx_eq.1 hfind).1

/-- The rotations of all finer levels are too short for the delay. -/
theorem spanMs_lt {remainingMs level : Nat} {wheel : Wheel}
    (h : level < selectLevel t.wheels remainingMs) (hwheel : t.wheels[level]? = some wheel) :
    wheel.spanMs < remainingMs := by
  unfold selectLevel at h
  apply Nat.lt_of_not_le
  intro hspan
  cases hfind : t.wheels.findIdx? fun w => decide (remainingMs ≤ w.spanMs) with
  | none =>
    have hnone := Array.findIdx?_eq_none_iff.1 hfind wheel (Array.mem_of_getElem? hwheel)
    simp [hspan] at hnone
  | some found =>
    rw [hfind, Option.getD_some] at h
    obtain ⟨hlt, -, hbefore⟩ := Array.findIdx?_eq_some_iff_getElem.1 hfind
    obtain ⟨hin, hget⟩ := Array.getElem?_eq_some_iff.1 hwheel
    have hnot := hbefore level h
    rw [hget] at hnot
    simp [hspan] at hnot

/-- Where any rotation is long enough for the delay, that of the level it calls for is. -/
theorem le_spanMs {remainingMs level : Nat} {wheel selected : Wheel}
    (hwheel : t.wheels[level]? = some wheel) (hspan : remainingMs ≤ wheel.spanMs)
    (hselected : t.wheels[selectLevel t.wheels remainingMs]? = some selected) :
    remainingMs ≤ selected.spanMs := by
  unfold selectLevel at hselected
  cases hfind : t.wheels.findIdx? fun w => decide (remainingMs ≤ w.spanMs) with
  | none =>
    have hnone := Array.findIdx?_eq_none_iff.1 hfind wheel (Array.mem_of_getElem? hwheel)
    simp [hspan] at hnone
  | some found =>
    rw [hfind, Option.getD_some] at hselected
    obtain ⟨hlt, hfound, -⟩ := Array.findIdx?_eq_some_iff_getElem.1 hfind
    obtain ⟨hin, hget⟩ := Array.getElem?_eq_some_iff.1 hselected
    rw [hget] at hfound
    exact of_decide_eq_true hfound

/-- The tick that an entry is put at lies within the next rotation of its wheel. -/
theorem Shaped.position_tick (h : t.Shaped) (remainingMs : Nat) {wheel : Wheel}
    (hwheel : t.wheels[(t.position remainingMs).1]? = some wheel) :
    wheel.ticks < (t.position remainingMs).2
      ∧ (t.position remainingMs).2 ≤ wheel.ticks + wheel.slotCount := by
  have hone := Wheel.one_le_ticksAhead wheel.level remainingMs wheel.resolutionMs wheel.slotCount
  have hmost := Wheel.ticksAhead_le (h.wheel hwheel).slots_pos wheel.level remainingMs
    wheel.resolutionMs
  have htick : (t.position remainingMs).2 = wheel.target remainingMs := by
    simp only [position] at hwheel ⊢
    rw [hwheel]
    rfl
  rw [htick]
  unfold Wheel.target
  omega

/-! ## Timers of accepted shapes -/

/-- The slots of a new timer are empty. -/
theorem contents_ofConfig (id : TimerId) (clockUs : Nat) {c : TimerConfig}
    (hc : c.validate = .ok ()) : (ofConfig id clockUs c).contents = [] := by
  unfold Timer.contents
  rw [List.flatMap_eq_nil_iff]
  intro wheel hwheel
  rw [ofConfig_wheels id clockUs hc, Array.toList_map, List.mem_map] at hwheel
  obtain ⟨level, -, rfl⟩ := hwheel
  unfold Wheel.empty Wheel.contents
  simp [List.flatMap_replicate]

end Timer

/-- A timer of an accepted shape has wheels, and every wheel has slots. -/
theorem Timer.shaped_ofConfig (id : TimerId) (clockUs : Nat) {c : TimerConfig}
    (h : c.validate = .ok ()) : (Timer.ofConfig id clockUs c).Shaped := by
  obtain ⟨hslots, -, hlevels⟩ := TimerConfig.pos_of_validate h
  refine ⟨by rwa [size_ofConfig id clockUs h], ?_⟩
  intro level wheel hwheel
  rw [ofConfig_wheel id clockUs h] at hwheel
  split at hwheel
  · rw [← Option.some.inj hwheel]
    exact ⟨rfl, hslots, Array.size_replicate⟩
  · simp at hwheel

end TimingWheel
