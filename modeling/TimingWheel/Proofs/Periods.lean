import TimingWheel.Timer

/-!
# The periods of the levels

Two loops go up the levels of a shape. The check multiplies as long as the products are counts, and
refuses the shape at the first one that is none. Building the wheels multiplies, too, with products
that stay at the largest count. They come to the same: the check lets a shape pass exactly if the
rotation of its coarsest level is a count, and then no product of either loop is cut off.

* **`TimerConfig.resolutionMs`** — how long a tick of each level takes, exactly.
* **`TimerConfig.rotationMs?_eq`** — what the check comes to.
* **`TimerConfig.resolutionMs_le`** — every product of an accepted shape is a count.
* **`Timer.wheelsFrom_eq`**, **`Timer.ofConfig_wheels`** — so its wheels have the exact periods.
-/

namespace TimingWheel

namespace TimerConfig

variable {c : TimerConfig}

/-- Milliseconds from one tick of a level to the next: a tick of each level takes as long as one
rotation of the level below it. -/
def resolutionMs (c : TimerConfig) : Nat → Nat
  | 0 => c.intervalMs
  | level + 1 => c.resolutionMs level * c.slots

/-- The resolution of a level in closed form. -/
theorem resolutionMs_eq (c : TimerConfig) (level : Nat) :
    c.resolutionMs level = c.intervalMs * Nat.pow c.slots level := by
  induction level with
  | zero => exact (Nat.mul_one _).symm
  | succ level ih =>
    rw [resolutionMs, ih, Nat.mul_assoc]
    rfl

/-- A coarser level does not tick faster. -/
theorem resolutionMs_mono (hslots : 1 ≤ c.slots) {level level' : Nat} (h : level ≤ level') :
    c.resolutionMs level ≤ c.resolutionMs level' := by
  rw [resolutionMs_eq, resolutionMs_eq]
  exact Nat.mul_le_mul_left _ (Nat.pow_le_pow_right hslots h)

/-! ## The loop of the check -/

/-- The check goes on with the next level as long as its product is a count. -/
theorem rotationMs?_of_some {slots tickMs spanMs : Nat} (h : mulChecked tickMs slots = some spanMs)
    (levels : Nat) : rotationMs? slots (levels + 1) tickMs = rotationMs? slots levels spanMs := by
  simp only [rotationMs?, h]

/-- It ends with the first product that is none. -/
theorem rotationMs?_of_none {slots tickMs : Nat} (h : mulChecked tickMs slots = none)
    (levels : Nat) : rotationMs? slots (levels + 1) tickMs = none := by
  simp only [rotationMs?, h]

/-- **The checked products come to the exact one if that is a count, and to none otherwise.** A
product that is no count stays none when it is multiplied on, so it does no harm that the loop ends
with the first of them. -/
theorem rotationMs?_eq (hslots : 1 ≤ c.slots) (n : Nat) : ∀ level,
    rotationMs? c.slots (n + 1) (c.resolutionMs level)
      = if c.resolutionMs (level + (n + 1)) ≤ ceiling then some (c.resolutionMs (level + (n + 1)))
        else none := by
  induction n with
  | zero =>
    intro level
    rw [Nat.zero_add]
    by_cases hspan : c.resolutionMs (level + 1) ≤ ceiling
    · rw [if_pos hspan]
      exact rotationMs?_of_some (mulChecked_eq_some.2 ⟨hspan, rfl⟩) 0
    · rw [if_neg hspan]
      exact rotationMs?_of_none (mulChecked_eq_none.2 (Nat.lt_of_not_le hspan)) 0
  | succ n ih =>
    intro level
    have hlevel : level + (n + 1 + 1) = level + 1 + (n + 1) := by omega
    rw [hlevel]
    by_cases hspan : c.resolutionMs (level + 1) ≤ ceiling
    · rw [rotationMs?_of_some (mulChecked_eq_some.2 ⟨hspan, rfl⟩)]
      exact ih (level + 1)
    · have hlonger := resolutionMs_mono hslots (Nat.le_add_right (level + 1) (n + 1))
      rw [rotationMs?_of_none (mulChecked_eq_none.2 (Nat.lt_of_not_le hspan)), if_neg (by omega)]

/-- A shape passes the loop exactly if the rotation of its coarsest level is a count. -/
theorem rotationMs?_ne_none (hslots : 1 ≤ c.slots) (hlevels : 1 ≤ c.levels) :
    rotationMs? c.slots c.levels c.intervalMs ≠ none ↔ c.resolutionMs c.levels ≤ ceiling := by
  obtain ⟨n, hn⟩ := Nat.exists_eq_add_of_le' hlevels
  have hloop := rotationMs?_eq hslots n 0
  rw [Nat.zero_add, ← hn] at hloop
  show rotationMs? c.slots c.levels (c.resolutionMs 0) ≠ none ↔ _
  rw [hloop]
  split <;> simp_all

/-- An accepted shape has slots, levels and a base interval. -/
theorem pos_of_validate (h : c.validate = .ok ()) :
    0 < c.slots ∧ 0 < c.intervalMs ∧ 0 < c.levels := by
  unfold validate at h
  split at h
  · simp at h
  · split at h
    · simp at h
    · split at h
      · simp at h
      · omega

/-- **No product of an accepted shape is longer than a count can tell.** -/
theorem resolutionMs_le (h : c.validate = .ok ()) {level : Nat} (hlevel : level ≤ c.levels) :
    c.resolutionMs level ≤ ceiling := by
  obtain ⟨hslots, hinterval, hlevels⟩ := pos_of_validate h
  have hpassed : rotationMs? c.slots c.levels c.intervalMs ≠ none := by
    intro hnone
    unfold validate at h
    rw [if_neg (by omega), if_neg (by omega), if_neg (by omega), hnone] at h
    split at h <;> simp at h
  exact Nat.le_trans (resolutionMs_mono hslots hlevel)
    ((rotationMs?_ne_none hslots hlevels).1 hpassed)

/-- Every level of an accepted shape takes time from one tick to the next. -/
theorem resolutionMs_pos (h : c.validate = .ok ()) (level : Nat) : 0 < c.resolutionMs level := by
  obtain ⟨hslots, hinterval, -⟩ := pos_of_validate h
  rw [resolutionMs_eq]
  exact Nat.mul_pos hinterval (Nat.pow_pos hslots)

end TimerConfig

/-! ## The loop that builds the wheels -/

namespace Timer

variable {c : TimerConfig}

/-- **The capped products are exact** as long as the rotation of the last level is a count. -/
theorem wheelsFrom_eq (hslots : 1 ≤ c.slots) (n : Nat) : ∀ level,
    c.resolutionMs (level + n) ≤ ceiling →
    wheelsFrom c.slots level (c.resolutionMs level) n
      = (List.range' level n).map fun level => .empty level c.slots (c.resolutionMs level) := by
  induction n with
  | zero => exact fun _ _ => rfl
  | succ n ih =>
    intro level hlast
    have hlevel : level + (n + 1) = level + 1 + n := by omega
    rw [hlevel] at hlast
    have hspan : c.resolutionMs (level + 1) ≤ ceiling :=
      Nat.le_trans (TimerConfig.resolutionMs_mono hslots (Nat.le_add_right _ n)) hlast
    have hnext : mulCapped (c.resolutionMs level) c.slots = c.resolutionMs (level + 1) :=
      mulCapped_eq hspan
    rw [wheelsFrom, hnext, ih (level + 1) hlast, List.range'_succ, List.map_cons]

/-- **The wheels of an accepted shape have the exact periods.** -/
theorem ofConfig_wheels (id : TimerId) (clockUs : Nat) (hc : c.validate = .ok ()) :
    (ofConfig id clockUs c).wheels
      = (Array.range c.levels).map fun level => .empty level c.slots (c.resolutionMs level) := by
  obtain ⟨hslots, -, -⟩ := TimerConfig.pos_of_validate hc
  have hlast : c.resolutionMs (0 + c.levels) ≤ ceiling :=
    TimerConfig.resolutionMs_le hc (Nat.le_of_eq (Nat.zero_add _))
  have hwheels := wheelsFrom_eq hslots c.levels 0 hlast
  apply Array.toList_inj.1
  show wheelsFrom c.slots 0 (c.resolutionMs 0) c.levels = _
  rw [hwheels, Array.toList_map, Array.toList_range, List.range_eq_range']

/-- Each wheel of an accepted shape, and no more of them than there are levels. -/
theorem ofConfig_wheel (id : TimerId) (clockUs : Nat) (hc : c.validate = .ok ()) (level : Nat) :
    (ofConfig id clockUs c).wheels[level]?
      = if level < c.levels then some (.empty level c.slots (c.resolutionMs level)) else none := by
  rw [ofConfig_wheels id clockUs hc, Array.getElem?_map, Array.getElem?_range]
  split <;> rfl

/-- A timer has as many wheels as its shape has levels. -/
theorem size_ofConfig (id : TimerId) (clockUs : Nat) (hc : c.validate = .ok ()) :
    (ofConfig id clockUs c).wheels.size = c.levels := by
  rw [ofConfig_wheels id clockUs hc, Array.size_map, Array.size_range]

end Timer

end TimingWheel
