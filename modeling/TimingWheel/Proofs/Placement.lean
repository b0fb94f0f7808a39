import TimingWheel.Proofs.Residue
import TimingWheel.Proofs.Shapes

/-!
# Where a delay is put

A delay is put on the finest level of which a rotation covers it, or on the coarsest where none
does, and there a number of whole ticks ahead. The finest level rounds this number up and a coarser
one rounds it down; it is cut off at one tick and at one rotation.

* **`TimerConfig.Puts`** — what this makes of a delay: bounds on the level and on the ticks, which
  leave no choice of either (`TimerConfig.Puts.unique`).
* **`Timer.selectLevel_mono`** — a shorter delay is put no coarser.
* **`Timer.BuiltTo.places`** — the wheels that a shape calls for put delays in this way.
-/

namespace TimingWheel

/-! ## Rounding -/

namespace Wheel

variable {level remainingMs resolutionMs slotCount : Nat}

/-- A delay that is longer than a rotation is put one rotation ahead. -/
theorem ticksAhead_of_long (hres : 0 < resolutionMs) (hslots : 1 ≤ slotCount)
    (hlong : resolutionMs * slotCount < remainingMs) :
    ticksAhead level remainingMs resolutionMs slotCount = slotCount := by
  have hmany : ∀ ms, remainingMs ≤ ms → slotCount ≤ ms / resolutionMs := by
    intro ms hms
    rw [Nat.le_div_iff_mul_le hres, Nat.mul_comm]
    omega
  simp only [ticksAhead]
  split
  · rw [Nat.min_eq_right (hmany _ (by omega)), Nat.max_eq_right hslots]
  · rw [Nat.min_eq_right (hmany _ (Nat.le_refl _)), Nat.max_eq_right hslots]

/-- The finest level does not put an entry a tick further than it has to. -/
theorem pred_ticksAhead_finest (hres : 0 < resolutionMs)
    (hfar : ticksAhead 0 remainingMs resolutionMs slotCount ≠ 1) :
    (ticksAhead 0 remainingMs resolutionMs slotCount - 1) * resolutionMs < remainingMs := by
  have hround := roundUp_lt hres remainingMs
  unfold roundUp at hround
  simp only [ticksAhead, if_true] at hfar ⊢
  generalize (remainingMs + resolutionMs - 1) / resolutionMs = ticks at *
  -- it is the rounding that took the delay further, not the one tick that it is put at least
  obtain ⟨ahead, hahead⟩ : ∃ ahead, max 1 (min ticks slotCount) = ahead + 1 :=
    ⟨_, (Nat.sub_add_cancel (Nat.le_max_left _ _)).symm⟩
  have hle : ahead + 1 ≤ ticks := by omega
  have hput := Nat.mul_le_mul_right resolutionMs hle
  rw [Nat.succ_mul] at hput
  rw [hahead, Nat.add_sub_cancel]
  omega

end Wheel

/-! ## The level -/

namespace Timer

variable {t : Timer} {remainingMs : Nat}

/-- A level of which no rotation covers the delay that it is taken for is the coarsest one. -/
theorem selectLevel_coarsest {selected : Wheel}
    (hselected : t.wheels[selectLevel t.wheels remainingMs]? = some selected)
    (hlong : selected.spanMs < remainingMs) :
    selectLevel t.wheels remainingMs + 1 = t.wheels.size := by
  obtain ⟨hlt, -⟩ := Array.getElem?_eq_some_iff.1 hselected
  cases hfind : t.wheels.findIdx? fun w => decide (remainingMs ≤ w.spanMs) with
  | none =>
    unfold selectLevel at hlt ⊢
    rw [hfind, Option.getD_none] at hlt ⊢
    omega
  | some level =>
    -- what the search finds covers the delay
    obtain ⟨hin, hcovers, -⟩ := Array.findIdx?_eq_some_iff_getElem.1 hfind
    have hcovered := le_spanMs (Array.getElem?_eq_getElem hin) (of_decide_eq_true hcovers) hselected
    omega

/-- **A shorter delay is put no coarser.** -/
theorem selectLevel_mono (hpos : 0 < t.wheels.size) {shorterMs : Nat}
    (h : shorterMs ≤ remainingMs) :
    selectLevel t.wheels shorterMs ≤ selectLevel t.wheels remainingMs := by
  apply Nat.le_of_not_lt
  intro hcoarser
  have hin := t.selectLevel_lt hpos remainingMs
  have hselected := Array.getElem?_eq_getElem hin
  -- the shorter delay is too long for this level, so the longer one is, too
  have hshort := spanMs_lt hcoarser hselected
  have hcoarsest := selectLevel_coarsest hselected (Nat.lt_of_lt_of_le hshort h)
  have hlt := t.selectLevel_lt hpos shorterMs
  omega

end Timer

/-! ## The wheels of a shape -/

/-- The wheels of a shape put a delay on a level, a number of ticks ahead. -/
structure TimerConfig.Puts (c : TimerConfig) (remainingMs level ahead : Nat) : Prop where
  level_lt : level < c.levels
  /-- All finer levels are too short for the delay. -/
  least : ∀ finer < level, c.resolutionMs finer * c.slots < remainingMs
  /-- If the level is too short, too, there is no coarser one. -/
  coarsest : c.resolutionMs level * c.slots < remainingMs → level + 1 = c.levels
  one_le : 1 ≤ ahead
  le_slots : ahead ≤ c.slots
  /-- A coarser level is left before the delay is over. -/
  early : 1 ≤ level →
    c.resolutionMs level < remainingMs ∧ ahead * c.resolutionMs level ≤ remainingMs
  /-- Less than a tick of a coarser level is left of the delay then, if a rotation covers it. -/
  left : 1 ≤ level → remainingMs ≤ c.resolutionMs level * c.slots →
    remainingMs - ahead * c.resolutionMs level < c.resolutionMs level
  /-- A delay that no rotation covers is put as far ahead as there are slots. -/
  rotation : c.resolutionMs level * c.slots < remainingMs → ahead = c.slots
  /-- The finest level is not left before the delay is over. -/
  late : level = 0 → remainingMs ≤ c.resolutionMs 0 * c.slots →
    remainingMs ≤ ahead * c.resolutionMs 0
  /-- No earlier tick of the finest level would do. -/
  exact : level = 0 → ahead ≠ 1 → (ahead - 1) * c.resolutionMs 0 < remainingMs

section

variable {c : TimerConfig} {remainingMs level level' ahead ahead' : Nat}

/-- A level that a delay is put on is no coarser than any other: it is too short for the delay
only if it is the coarsest there is. -/
theorem TimerConfig.Puts.level_le (h : c.Puts remainingMs level ahead)
    (h' : c.Puts remainingMs level' ahead') : level ≤ level' := by
  apply Nat.le_of_not_lt
  intro hless
  have hcoarsest := h'.coarsest (h.least level' hless)
  have hlt := h.level_lt
  omega

/-- Of the numbers of ticks that a delay is put ahead on a level none is less than any other. -/
theorem TimerConfig.Puts.ahead_le (hc : c.validate = .ok ()) (h : c.Puts remainingMs level ahead)
    (h' : c.Puts remainingMs level ahead') : ahead ≤ ahead' := by
  have hperiod := TimerConfig.resolutionMs_pos hc level
  by_cases hlong : c.resolutionMs level * c.slots < remainingMs
  · rw [h'.rotation hlong]
    exact h.le_slots
  have hcovered := Nat.le_of_not_lt hlong
  rcases Nat.eq_zero_or_pos level with rfl | hlevel
  · by_cases hone : ahead = 1
    · rw [hone]
      exact h'.one_le
    · have hless := Nat.lt_of_mul_lt_mul_right
        (Nat.lt_of_lt_of_le (h.exact rfl hone) (h'.late rfl hcovered))
      omega
  · have hearly := (h.early hlevel).2
    have hleft := h'.left hlevel hcovered
    apply Nat.le_of_lt_succ
    apply Nat.lt_of_mul_lt_mul_right (a := c.resolutionMs level)
    rw [Nat.succ_mul]
    omega

/-- **The rules leave no choice.** -/
theorem TimerConfig.Puts.unique (hc : c.validate = .ok ()) (h : c.Puts remainingMs level ahead)
    (h' : c.Puts remainingMs level' ahead') : level = level' ∧ ahead = ahead' := by
  obtain rfl := Nat.le_antisymm (h.level_le h') (h'.level_le h)
  exact ⟨rfl, Nat.le_antisymm (h.ahead_le hc h') (h'.ahead_le hc h)⟩

end

/-- The wheels of a timer put every delay as the shape says. -/
structure Timer.Places (t : Timer) (c : TimerConfig) : Prop where
  puts : ∀ remainingMs, ∃ wheel : Wheel,
    t.wheels[Timer.selectLevel t.wheels remainingMs]? = some wheel
    ∧ t.position remainingMs = (Timer.selectLevel t.wheels remainingMs, wheel.ticks
        + Wheel.ticksAhead wheel.level remainingMs wheel.resolutionMs wheel.slotCount)
    ∧ c.Puts remainingMs (Timer.selectLevel t.wheels remainingMs)
        (Wheel.ticksAhead wheel.level remainingMs wheel.resolutionMs wheel.slotCount)
  /-- Where the shape says is where the delay is put. -/
  only : ∀ {remainingMs level ahead : Nat}, c.Puts remainingMs level ahead →
    ∃ wheel : Wheel, t.wheels[level]? = some wheel
      ∧ t.position remainingMs = (level, wheel.ticks + ahead)
  mono : ∀ {shorterMs remainingMs : Nat}, shorterMs ≤ remainingMs →
    Timer.selectLevel t.wheels shorterMs ≤ Timer.selectLevel t.wheels remainingMs

/-- The level and the ticks that a delay calls for are those that the shape says. -/
theorem Timer.BuiltTo.puts {t : Timer} {c : TimerConfig} (hc : c.validate = .ok ())
    (h : t.BuiltTo c) (remainingMs : Nat) {wheel : Wheel}
    (hwheel : t.wheels[selectLevel t.wheels remainingMs]? = some wheel) :
    c.Puts remainingMs (selectLevel t.wheels remainingMs)
      (Wheel.ticksAhead wheel.level remainingMs wheel.resolutionMs wheel.slotCount) := by
  obtain ⟨hslots, -, -⟩ := TimerConfig.pos_of_validate hc
  have hspan : ∀ {level : Nat} {wheel : Wheel}, t.wheels[level]? = some wheel →
      wheel.spanMs = c.resolutionMs level * c.slots := by
    intro level wheel hwheel
    rw [(h.wheel hwheel).spanMs, ← c.resolutionMs_eq, TimerConfig.resolutionMs]
  have hfiner := @spanMs_lt t remainingMs
  have hcoarsest := @selectLevel_coarsest t remainingMs
  generalize selectLevel t.wheels remainingMs = level at *
  have hbuilt := h.wheel hwheel
  have hres := TimerConfig.resolutionMs_pos hc level
  have hperiod : wheel.resolutionMs = c.resolutionMs level := by
    rw [hbuilt.resolutionMs, c.resolutionMs_eq]
  rw [hbuilt.level_eq, hbuilt.slotCount, hperiod]
  have hlt : level < t.wheels.size := (Array.getElem?_eq_some_iff.1 hwheel).1
  have hleast : ∀ finer < level, c.resolutionMs finer * c.slots < remainingMs := by
    intro finer hless
    have hthere := Array.getElem?_eq_getElem (Nat.lt_trans hless hlt)
    rw [← hspan hthere]
    exact hfiner hless hthere
  -- a tick of the level is a rotation of the next finer one, which is too short
  have hcoarse : 1 ≤ level → c.resolutionMs level < remainingMs := by
    intro hlevel
    obtain ⟨finer, rfl⟩ := Nat.exists_eq_add_of_le' hlevel
    exact hleast finer (Nat.lt_succ_self finer)
  refine ⟨?_, hleast, fun hlong => ?_, Wheel.one_le_ticksAhead _ _ _ _,
    Wheel.ticksAhead_le hslots _ _ _, fun hlevel => ⟨hcoarse hlevel, ?_⟩, fun hlevel hcovered => ?_,
    fun hlong => Wheel.ticksAhead_of_long hres hslots hlong, ?_, ?_⟩
  · rwa [← h.size]
  · rw [← h.size]
    exact hcoarsest hwheel (by rwa [hspan hwheel])
  · exact Wheel.ticksAhead_coarse (Nat.ne_of_gt hlevel) (Nat.le_of_lt (hcoarse hlevel)) hres _
  · have hlast := Wheel.lt_ticksAhead_coarse (Nat.ne_of_gt hlevel) hres hcovered
    rw [Nat.succ_mul] at hlast
    omega
  · rintro rfl hcovered
    exact Wheel.le_ticksAhead_finest hres hcovered
  · rintro rfl hfar
    exact Wheel.pred_ticksAhead_finest hres hfar

/-- **The wheels that a shape calls for put every delay as the shape says.** -/
theorem Timer.BuiltTo.places {t : Timer} {c : TimerConfig} (hc : c.validate = .ok ())
    (h : t.BuiltTo c) : t.Places c := by
  obtain ⟨-, -, hlevels⟩ := TimerConfig.pos_of_validate hc
  have hpos : 0 < t.wheels.size := by
    rw [h.size]
    exact hlevels
  have hputs : ∀ remainingMs, ∃ wheel : Wheel,
      t.wheels[selectLevel t.wheels remainingMs]? = some wheel
      ∧ t.position remainingMs = (selectLevel t.wheels remainingMs, wheel.target remainingMs)
      ∧ c.Puts remainingMs (selectLevel t.wheels remainingMs)
          (Wheel.ticksAhead wheel.level remainingMs wheel.resolutionMs wheel.slotCount) := by
    intro remainingMs
    have hwheel := Array.getElem?_eq_getElem (t.selectLevel_lt hpos remainingMs)
    refine ⟨_, hwheel, ?_, h.puts hc remainingMs hwheel⟩
    simp only [position, hwheel, Option.map_some, Option.getD_some]
  refine ⟨hputs, fun {remainingMs level ahead} hsays => ?_, fun hle => selectLevel_mono hpos hle⟩
  obtain ⟨wheel, hwheel, hposition, hdoes⟩ := hputs remainingMs
  obtain ⟨rfl, rfl⟩ := hsays.unique hc hdoes
  exact ⟨wheel, hwheel, hposition⟩

/-- **Delays are put as exactly as the wheels allow.** The level is the finest of which a rotation
covers the delay, or the coarsest where none does, and grows with the delay; on it the delay is
rounded to whole ticks within one rotation, up on the finest level and down on a coarser one, which
never hands an entry on after it is due. This holds of the wheels that an accepted shape is built
with, and of those of the timer in whatever world commands lead to. -/
theorem delays_put_exactly :
    (∀ (c : TimerConfig) (id : TimerId) (clockUs : Nat), c.validate = .ok () →
        (Timer.ofConfig id clockUs c).BuiltTo c ∧ (Timer.ofConfig id clockUs c).Places c)
      ∧ ∀ (w : World) (t : Timer), w.Reachable → w.timer = some t →
          ∃ c : TimerConfig, c.validate = .ok () ∧ t.BuiltTo c ∧ t.Places c := by
  constructor
  · intro c id clockUs hc
    have hbuilt := Timer.BuiltTo.of_forms hc (Timer.shaped_ofConfig id clockUs hc)
      (Timer.forms_ofConfig id clockUs hc)
    exact ⟨hbuilt, hbuilt.places hc⟩
  · intro w t hreachable ht
    obtain ⟨c, hc, hbuilt⟩ := hreachable.arises.builtTo ht
    exact ⟨c, hc, hbuilt, hbuilt.places hc⟩

/-- Of three levels of ten slots, the coarsest rounds a second and a half down to one of its ticks,
and puts what is longer than its rotation as far ahead as it can. -/
theorem delays_put_exactly_of_three_levels :
    (⟨10, 3, 10, 1⟩ : TimerConfig).validate = .ok ()
      ∧ (⟨10, 3, 10, 1⟩ : TimerConfig).Puts 1500 2 1
      ∧ (⟨10, 3, 10, 1⟩ : TimerConfig).Puts 50000 2 10
      ∧ (World.step {} (.create ⟨10, 3, 10, 1⟩)).2.Reachable
      ∧ ∃ t, (World.step {} (.create ⟨10, 3, 10, 1⟩)).2.timer = some t
        ∧ ∃ c : TimerConfig, c.validate = .ok () ∧ t.BuiltTo c ∧ t.Places c := by
  have hvalid : (⟨10, 3, 10, 1⟩ : TimerConfig).validate = .ok () := by decide
  obtain ⟨-, hplaces⟩ := delays_put_exactly.1 ⟨10, 3, 10, 1⟩ 0 0 hvalid
  have hlevel : ∀ remainingMs ∈ [1500, 50000],
      Timer.selectLevel (Timer.ofConfig 0 0 ⟨10, 3, 10, 1⟩).wheels remainingMs = 2 := by
    decide +kernel
  have hputs : ∀ remainingMs ∈ [1500, 50000], (⟨10, 3, 10, 1⟩ : TimerConfig).Puts remainingMs 2
      (Wheel.ticksAhead 2 remainingMs 1000 10) := by
    intro remainingMs hmem
    obtain ⟨wheel, hwheel, -, hputs⟩ := hplaces.puts remainingMs
    rw [hlevel remainingMs hmem] at hwheel hputs
    obtain rfl : Wheel.empty 2 10 1000 = wheel := Option.some.inj hwheel
    exact hputs
  have hreachable : (World.step {} (.create ⟨10, 3, 10, 1⟩)).2.Reachable := .step _ (.fresh 3)
  refine ⟨hvalid, hputs 1500 (by decide), hputs 50000 (by decide), hreachable,
    Timer.ofConfig 0 0 ⟨10, 3, 10, 1⟩, ?_, ?_⟩
  · rfl
  · exact delays_put_exactly.2 _ _ hreachable rfl

end TimingWheel
