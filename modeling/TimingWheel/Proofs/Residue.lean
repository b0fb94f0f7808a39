import TimingWheel.Proofs.Unstopped

/-!
# What is left of a delay

A coarser level rounds a delay down, and the tick at which its ring stands may be almost one tick
past. So when it empties the slot of an entry, almost two of its ticks may be left of the delay. The
finest level rounds up and leaves one tick at most. An entry that is placed on the same level again
is put one tick further, since a level that empties a slot stands at the tick of that slot.

* **`Clockwork.Near`** — how much is left after so many looks that a level took too early.
* **`Timer.InStep.near`** — a new due time is near to the tick at which the entry is put.
* **`Timer.InStep.near_again`** — an entry that is placed again for the same time comes to a level
  that is no coarser, and as near as before if it is the same level.
* **`View.Meshed`** — what the wheels do with an entry, as its view shows it.
-/

namespace TimingWheel

/-! ## The bound -/

/-- What is left of a delay at a tick of a level that has looked at the entry a number of times
before, and too early each time. -/
structure Clockwork.Near (k : Clockwork) (level tick looks dueMs : Nat) : Prop where
  level_lt : level < k.config.levels
  spanned : dueMs ≤ k.tickMs level tick + k.config.resolutionMs (level + 1)
  left : if level = 0
    then dueMs + looks * k.config.resolutionMs level
      ≤ k.tickMs level tick + k.config.resolutionMs level
    else dueMs + looks * k.config.resolutionMs level
      < k.tickMs level tick + 2 * k.config.resolutionMs level

section

variable {k : Clockwork} {level tick looks dueMs : Nat}

/-- A level looks too early once at most if it is the finest one, and twice at most otherwise. -/
theorem Clockwork.Near.looks_lt (h : k.Near level tick looks dueMs)
    (early : k.tickMs level tick < dueMs) : looks < if level = 0 then 1 else 2 := by
  have hleft := h.left
  apply Nat.lt_of_mul_lt_mul_right (a := k.config.resolutionMs level)
  split at hleft
  · next hlevel =>
    rw [if_pos hlevel, Nat.one_mul]
    omega
  · next hlevel =>
    rw [if_neg hlevel]
    omega

end

/-! ## Where an entry is put -/

section

variable {k : Clockwork} {t : Timer} {runUs level tick looks dueMs nowMs remainingMs : Nat}
  {wheel : Wheel}

/-- One rotation of a level is one tick of the next. -/
theorem Wheel.InStep.spanMs (h : wheel.InStep k level runUs) (hlevel : level < k.config.levels) :
    wheel.spanMs = k.config.resolutionMs (level + 1) := by
  have hle : k.config.resolutionMs (level + 1) ≤ ceiling :=
    TimerConfig.resolutionMs_le k.valid hlevel
  rw [Wheel.spanMs, h.resolutionMs, h.slotCount]
  exact mulCapped_eq hle

/-- The level that a delay calls for is the finest one of which a rotation is long enough. -/
theorem Timer.InStep.position (h : t.InStep k runUs) (remainingMs : Nat) :
    (t.position remainingMs).1 < k.config.levels
    ∧ (∃ wheel, t.wheels[(t.position remainingMs).1]? = some wheel
      ∧ (t.position remainingMs).2 = wheel.ticks + Wheel.ticksAhead (t.position remainingMs).1
          remainingMs (k.config.resolutionMs (t.position remainingMs).1) k.config.slots)
    ∧ ((t.position remainingMs).1 ≠ 0 →
        k.config.resolutionMs (t.position remainingMs).1 < remainingMs)
    ∧ ∀ level < k.config.levels, remainingMs ≤ k.config.resolutionMs (level + 1) →
      (t.position remainingMs).1 ≤ level
      ∧ remainingMs ≤ k.config.resolutionMs ((t.position remainingMs).1 + 1) := by
  obtain ⟨-, -, hlevels⟩ := TimerConfig.pos_of_validate k.valid
  have hlt := t.selectLevel_lt (by rw [h.size]; exact hlevels) remainingMs
  have hlevel : (t.position remainingMs).1 = selectLevel t.wheels remainingMs := rfl
  have hfiner := @Timer.spanMs_lt t remainingMs
  have hcovers := @Timer.le_spanMs t remainingMs
  obtain ⟨wheel, hwheel⟩ : ∃ wheel, t.wheels[selectLevel t.wheels remainingMs]? = some wheel :=
    ⟨_, Array.getElem?_eq_getElem hlt⟩
  have htick : (t.position remainingMs).2 = wheel.target remainingMs := by
    simp only [Timer.position, hwheel, Option.map_some, Option.getD_some]
  rw [htick, hlevel]
  rw [h.size] at hlt
  generalize selectLevel t.wheels remainingMs = selected at *
  have hw := h.wheel hwheel
  have hget : ∀ level < k.config.levels, ∃ wheel, t.wheels[level]? = some wheel := by
    intro level hlevel
    rw [← h.size] at hlevel
    exact ⟨_, Array.getElem?_eq_getElem hlevel⟩
  refine ⟨hlt, ⟨wheel, hwheel, ?_⟩, fun hcoarse => ?_, fun level hlevel hspan => ?_⟩
  · rw [Wheel.target, hw.level_eq, hw.resolutionMs, hw.slotCount]
  -- the level before the selected one does not reach as far
  · obtain ⟨finer, rfl⟩ := Nat.exists_eq_succ_of_ne_zero hcoarse
    obtain ⟨wheel', hwheel'⟩ := hget finer (Nat.lt_of_succ_lt hlt)
    have hshort := hfiner (Nat.lt_succ_self finer) hwheel'
    rwa [(h.wheel hwheel').spanMs (Nat.lt_of_succ_lt hlt)] at hshort
  · obtain ⟨wheel', hwheel'⟩ := hget level hlevel
    have hlong : remainingMs ≤ wheel'.spanMs := by
      rwa [(h.wheel hwheel').spanMs hlevel]
    -- a level that reaches as far is not passed over
    refine ⟨Nat.le_of_not_lt fun hcoarser => ?_, ?_⟩
    · exact absurd hlong (Nat.not_le.2 (hfiner hcoarser hwheel'))
    · have hcovered := hcovers hwheel' hlong hwheel
      rwa [hw.spanMs hlt] at hcovered

/-- The finest level does not put an entry before it is due. -/
theorem Wheel.le_ticksAhead_finest {resolutionMs slotCount : Nat} (hres : 0 < resolutionMs)
    (hspan : remainingMs ≤ resolutionMs * slotCount) :
    remainingMs ≤ ticksAhead 0 remainingMs resolutionMs slotCount * resolutionMs := by
  have hfew : (remainingMs + resolutionMs - 1) / resolutionMs ≤ slotCount := by
    apply Nat.le_of_lt_succ
    rw [Nat.div_lt_iff_lt_mul hres, Nat.succ_mul, Nat.mul_comm slotCount]
    omega
  refine Nat.le_trans (le_roundUp hres remainingMs) (Nat.mul_le_mul_right _ ?_)
  unfold ticksAhead
  rw [if_pos rfl]
  exact Nat.le_trans (Nat.le_min.2 ⟨Nat.le_refl _, hfew⟩) (Nat.le_max_right _ _)

/-- A coarser level puts an entry less than one tick too early. -/
theorem Wheel.lt_ticksAhead_coarse {resolutionMs slotCount : Nat} (hlevel : level ≠ 0)
    (hres : 0 < resolutionMs) (hspan : remainingMs ≤ resolutionMs * slotCount) : remainingMs
      < (ticksAhead level remainingMs resolutionMs slotCount + 1) * resolutionMs := by
  have hfew : remainingMs / resolutionMs ≤ slotCount :=
    Nat.div_le_of_le_mul hspan
  refine Nat.lt_of_lt_of_le (Nat.lt_mul_of_div_lt (Nat.lt_succ_self _) hres)
    (Nat.mul_le_mul_right _ (Nat.succ_le_succ ?_))
  unfold ticksAhead
  rw [if_neg hlevel]
  exact Nat.le_trans (Nat.le_min.2 ⟨Nat.le_refl _, hfew⟩) (Nat.le_max_right _ _)

/-- **A new due time is near to the tick at which the entry is put.** -/
theorem Timer.InStep.near (h : t.InStep k runUs) (hnow : nowMs = min (runUs / 1000) ceiling)
    (hcount : dueMs ≤ ceiling) (hspan : dueMs ≤ nowMs + k.config.resolutionMs k.config.levels) :
    k.Near (t.position (dueMs - nowMs)).1 (t.position (dueMs - nowMs)).2 0 dueMs := by
  obtain ⟨hslots, -, hlevels⟩ := TimerConfig.pos_of_validate k.valid
  obtain ⟨hlt, ⟨wheel, hwheel, htick⟩, hcoarse, hfits⟩ := h.position (dueMs - nowMs)
  obtain ⟨coarsest, hcoarsest⟩ : ∃ n, k.config.levels = n + 1 := Nat.exists_eq_add_one.2 hlevels
  rw [hcoarsest] at hspan
  obtain ⟨-, hcovered⟩ := hfits coarsest (by omega) (by omega)
  rw [htick]
  generalize (t.position (dueMs - nowMs)).1 = level at *
  have hw := h.wheel hwheel
  have hres := k.resolutionMs_pos level
  -- the clock is at most one tick past the tick of the ring
  have hclock : nowMs ≤ k.tickMs level wheel.ticks + k.config.resolutionMs level := by
    have hahead := hw.ahead
    rw [Clockwork.tickMs, Nat.succ_mul] at hahead
    rw [Clockwork.tickMs]
    omega
  have hrotation :
      k.config.resolutionMs (level + 1) = k.config.resolutionMs level * k.config.slots := rfl
  have hleft : if level = 0
      then dueMs - nowMs ≤ Wheel.ticksAhead level (dueMs - nowMs) (k.config.resolutionMs level)
        k.config.slots * k.config.resolutionMs level
      else dueMs - nowMs < (Wheel.ticksAhead level (dueMs - nowMs) (k.config.resolutionMs level)
        k.config.slots + 1) * k.config.resolutionMs level := by
    split
    · next hlevel =>
      subst hlevel
      exact Wheel.le_ticksAhead_finest hres hcovered
    · next hlevel => exact Wheel.lt_ticksAhead_coarse hlevel hres hcovered
  generalize Wheel.ticksAhead level (dueMs - nowMs) (k.config.resolutionMs level) k.config.slots
    = ahead
    at *
  have hput : k.tickMs level (wheel.ticks + ahead)
      = k.tickMs level wheel.ticks + ahead * k.config.resolutionMs level := Nat.add_mul _ _ _
  refine ⟨hlt, ?_, ?_⟩ <;> rw [hput]
  · split at hleft
    · have hone : k.config.resolutionMs level ≤ k.config.resolutionMs (level + 1) :=
        k.resolutionMs_mono (Nat.le_succ level)
      omega
    · next hlevel =>
      -- a coarser level is called for only if there is more than one slot
      have htwo : 2 * k.config.resolutionMs level ≤ k.config.resolutionMs (level + 1) := by
        have hlong := hcoarse hlevel
        rw [hrotation, Nat.mul_comm]
        refine Nat.mul_le_mul_left _ (Nat.lt_of_not_le fun hone => ?_)
        have hshort := Nat.mul_le_mul_left (k.config.resolutionMs level) hone
        omega
      rw [Nat.succ_mul] at hleft
      omega
  · split at hleft
    · next hlevel =>
      rw [if_pos hlevel]
      omega
    · next hlevel =>
      rw [if_neg hlevel]
      rw [Nat.succ_mul] at hleft
      omega

/-- **An entry that is placed again for the same time** comes to a level that is no coarser, and is
as near as before to the tick at which it is put there if it is the same level. -/
theorem Timer.InStep.near_again (h : t.InStep k runUs) (hnow : nowMs = min (runUs / 1000) ceiling)
    (hcount : dueMs ≤ ceiling) (hrun : runUs = k.tickMs level tick * 1000)
    (hturned : ∀ wheel, t.wheels[level]? = some wheel → wheel.ticks = tick)
    (hnear : k.Near level tick looks dueMs) (early : nowMs < dueMs) :
    nowMs = k.tickMs level tick ∧ (t.position (dueMs - nowMs)).1 ≤ level
    ∧ ((t.position (dueMs - nowMs)).1 = level →
      k.Near level (t.position (dueMs - nowMs)).2 (looks + 1) dueMs) := by
  have hreading : nowMs = k.tickMs level tick := by
    rw [hrun, Nat.mul_div_cancel _ (by decide)] at hnow
    omega
  obtain ⟨-, ⟨wheel, hwheel, htick⟩, -, hfits⟩ := h.position (dueMs - nowMs)
  have hspanned := hnear.spanned
  obtain ⟨hfiner, -⟩ := hfits level hnear.level_lt (by omega)
  refine ⟨hreading, hfiner, fun hsame => ?_⟩
  rw [htick, hsame]
  rw [hsame] at hwheel
  have hone :=
    Wheel.one_le_ticksAhead level (dueMs - nowMs) (k.config.resolutionMs level) k.config.slots
  generalize Wheel.ticksAhead level (dueMs - nowMs) (k.config.resolutionMs level) k.config.slots
    = ahead
    at *
  -- the level stands at the tick of the slot, so the entry is put one tick further at least
  have hput : k.tickMs level tick + k.config.resolutionMs level
      ≤ k.tickMs level (wheel.ticks + ahead) := by
    rw [hturned wheel hwheel, Clockwork.tickMs, Clockwork.tickMs, Nat.add_mul]
    exact Nat.add_le_add_left (Nat.le_mul_of_pos_left _ hone) _
  have hleft := hnear.left
  refine ⟨hnear.level_lt, Nat.le_trans hspanned (by omega), ?_⟩
  rw [Nat.succ_mul]
  split at hleft
  · next hlevel =>
    rw [if_pos hlevel]
    omega
  · next hlevel =>
    rw [if_neg hlevel]
    omega

end

/-! ## What a view shows of the wheels -/

/-- What the wheels of its timer do with an entry. -/
structure View.Meshed (k : Clockwork) (v : View) : Prop where
  there : v.there = true
  near : ∀ {dueMs : Nat}, dueMs ≤ ceiling →
    dueMs ≤ v.nowMs + k.config.resolutionMs k.config.levels →
    k.Near (v.aim (dueMs - v.nowMs)).1 (v.aim (dueMs - v.nowMs)).2 0 dueMs
  again : ∀ {level tick nowMs looks dueMs : Nat}, v.stage = .drained level tick nowMs →
    k.Near level tick looks dueMs → dueMs ≤ ceiling → v.nowMs < dueMs →
    v.nowMs = k.tickMs level tick ∧ (v.aim (dueMs - v.nowMs)).1 ≤ level
    ∧ ((v.aim (dueMs - v.nowMs)).1 = level →
      k.Near level (v.aim (dueMs - v.nowMs)).2 (looks + 1) dueMs)
  drained : ∀ {level tick nowMs : Nat}, v.stage = .drained level tick nowMs → nowMs = v.nowMs
  launched : ∀ {nowMs : Nat} {last : Bool}, v.stage = .launched nowMs last → nowMs = v.nowMs

/-- The view of an entry meshes with the clockwork of its timer, whose counters are in gear. -/
theorem Moment.Geared.meshed {k : Clockwork} {m : Moment} (hm : m.Geared k) {i : EntryId} {v : View}
    (hv : m.view i = some v) (howner : v.entry.owner = k.id) : v.Meshed k := by
  -- what the view reads is what the clockwork says, be it closed or not
  obtain ⟨hpage, hstage, -⟩ := Moment.view_eq_some.1 hv
  obtain ⟨-, -, hthere, hnow, haim⟩ := World.page_eq_some.1 hpage
  obtain ⟨t, ht, hid, hstep⟩ := hm.exists_timer
  have haim' : v.aim = t.position := by
    rw [haim]
    exact funext fun remainingMs => World.aim_eq ht remainingMs
  have hclock : v.nowMs = min (m.world.runUs k / 1000) ceiling := by
    have hread := hm.inStep.world.nowMs
    simp only [World.nowMs_asRunning, World.runUs_asRunning] at hread
    rw [hnow, hread]
  refine ⟨?_, fun {dueMs} hcount hspan => ?_, fun {level tick nowMs looks dueMs} hdrained => ?_,
    fun {level tick nowMs} hdrained => ?_, fun {nowMs last} hlaunched => ?_⟩
  · rw [hthere]
    simp [World.hasTimer, ht, hid, howner]
  · rw [haim']
    exact hstep.near hclock hcount hspan
  · intro hnear hcount early
    -- the tick in progress is the one that its wheel stands at
    obtain ⟨s, hs, rfl, rfl, -⟩ := Moment.sweep_of_drained (hstage.symm.trans hdrained)
    obtain ⟨-, hrun⟩ := hm.inStep.sweep hs
    rw [haim']
    exact hstep.near_again hclock hcount hrun (fun wheel hwheel => hm.turned hs ht hwheel) hnear
      early
  · obtain ⟨s, hs, -, -, rfl⟩ := Moment.sweep_of_drained (hstage.symm.trans hdrained)
    have hread := (hm.inStep.sweep hs).1
    rw [World.nowMs_asRunning] at hread
    rw [hnow]
    exact hread
  · obtain ⟨s, hs, rfl⟩ := Moment.sweep_of_launched (hstage.symm.trans hlaunched)
    have hread := (hm.inStep.sweep hs).1
    rw [World.nowMs_asRunning] at hread
    rw [hnow]
    exact hread

end TimingWheel
