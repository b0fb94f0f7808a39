import TimingWheel.Proofs.Clockwork
import TimingWheel.Proofs.Custody

/-!
# Shapes, and the wheels built to them

A shape is checked by multiplying its way up the levels until a product is no count, and built by
multiplying its way up with products that stay at the largest count. The two agree: a shape is
accepted exactly if `intervalMs * slots ^ levels` is a count, and then none of the products is cut
off. The memory that the slots take is taken to be there, `slots` of them on each level.

* **`ShapeRule`** — what a shape has to satisfy, in the order in which it is checked.
* **`TimerConfig.validate_ok_iff`**, **`TimerConfig.validate_of_firstBroken`** — the check accepts a
  shape if it satisfies every rule, and names the first rule that is broken if not.
* **`Timer.BuiltTo`** — the wheels that a shape calls for, with periods that are exact products.
* **`Moment.Arises.builtTo`** — whatever happened, the wheels are those of an accepted shape.
-/

namespace TimingWheel

/-- The first, in a given order, of which something does not hold. -/
def FirstFailing {α : Type} [DecidableEq α] (order : List α) (p : α → Prop) (x : α) : Prop :=
  ¬ p x ∧ ∀ y, order.idxOf y < order.idxOf x → p y

/-- Where something does not hold of all, there is a first of which it does not. -/
theorem exists_firstFailing {α : Type} [DecidableEq α] (order : List α) {p : α → Prop}
    (h : ¬ ∀ x, p x) : ∃ x, FirstFailing order p x := by
  obtain ⟨x, hx⟩ := Classical.not_forall.1 h
  induction hrank : order.idxOf x using Nat.strongRecOn generalizing x with
  | ind rank ih =>
    by_cases hfirst : ∀ y, order.idxOf y < rank → p y
    · exact ⟨x, hx, by rwa [hrank]⟩
    · obtain ⟨y, hy⟩ := Classical.not_forall.1 hfirst
      obtain ⟨hless, hy⟩ := Classical.not_imp.1 hy
      exact ih _ hless y hy rfl

/-! ## The rules -/

/-- What a shape has to satisfy. -/
inductive ShapeRule where
  | someSlots
  | someInterval
  | someLevels
  | someJobThreads
  /-- One rotation of the coarsest wheel is a count of milliseconds. -/
  | countable
  deriving DecidableEq

namespace ShapeRule

/-- The rules in the order in which a shape is checked for them. -/
def all : List ShapeRule := [someSlots, someInterval, someLevels, someJobThreads, countable]

/-- What a rule asks of a shape. The last one asks that the period of a level beyond the coarsest
is still a count. -/
def Holds (c : TimerConfig) : ShapeRule → Prop
  | someSlots => 1 ≤ c.slots
  | someInterval => 1 ≤ c.intervalMs
  | someLevels => 1 ≤ c.levels
  | someJobThreads => 1 ≤ c.maxJobThreads
  | countable => c.intervalMs * Nat.pow c.slots c.levels ≤ Nat.pow 2 64 - 1

theorem countable_iff {c : TimerConfig} :
    Holds c countable ↔ c.resolutionMs c.levels ≤ ceiling := by
  rw [c.resolutionMs_eq]
  rfl

/-- What is wrong with a shape that breaks the rule. -/
def fault (c : TimerConfig) : ShapeRule → ConfigFault
  | someSlots => .noSlots
  | someInterval => .noInterval
  | someLevels => .noLevels
  | someJobThreads => .noJobThreads
  | countable => .tooLong c.intervalMs c.slots c.levels

/-- The shape breaks the rule and satisfies all that come before it. -/
def FirstBroken (c : TimerConfig) : ShapeRule → Prop := FirstFailing all (Holds c)

end ShapeRule

namespace TimerConfig

variable {c : TimerConfig}

/-- The checks are made in the order of the rules, and the first that fails is reported. -/
theorem validate_of_firstBroken {rule : ShapeRule} (h : rule.FirstBroken c) :
    c.validate = .error (rule.fault c) := by
  obtain ⟨hbroken, hearlier⟩ := h
  have hslots := hearlier .someSlots
  have hinterval := hearlier .someInterval
  have hlevels := hearlier .someLevels
  have hthreads := hearlier .someJobThreads
  unfold validate
  -- the rules before the broken one hold, so its check is the first that fails
  cases rule with
  | someSlots =>
    have hnone : c.slots = 0 := Nat.eq_zero_of_not_pos hbroken
    rw [if_pos hnone]
    rfl
  | someInterval =>
    have hslots : 1 ≤ c.slots := hslots (by decide)
    have hnone : c.intervalMs = 0 := Nat.eq_zero_of_not_pos hbroken
    rw [if_neg (by omega), if_pos hnone]
    rfl
  | someLevels =>
    have hslots : 1 ≤ c.slots := hslots (by decide)
    have hinterval : 1 ≤ c.intervalMs := hinterval (by decide)
    have hnone : c.levels = 0 := Nat.eq_zero_of_not_pos hbroken
    rw [if_neg (by omega), if_neg (by omega), if_pos hnone]
    rfl
  | someJobThreads =>
    have hslots : 1 ≤ c.slots := hslots (by decide)
    have hinterval : 1 ≤ c.intervalMs := hinterval (by decide)
    have hlevels : 1 ≤ c.levels := hlevels (by decide)
    have hnone : c.maxJobThreads = 0 := Nat.eq_zero_of_not_pos hbroken
    rw [if_neg (by omega), if_neg (by omega), if_neg (by omega), if_pos hnone]
    rfl
  | countable =>
    have hslots : 1 ≤ c.slots := hslots (by decide)
    have hinterval : 1 ≤ c.intervalMs := hinterval (by decide)
    have hlevels : 1 ≤ c.levels := hlevels (by decide)
    have hthreads : 1 ≤ c.maxJobThreads := hthreads (by decide)
    have hlong : rotationMs? c.slots c.levels c.intervalMs = none := by
      -- the loop of checked multiplications stops early exactly if the last product is no count
      by_contra hpassed
      exact hbroken (ShapeRule.countable_iff.2 ((rotationMs?_ne_none hslots hlevels).1 hpassed))
    rw [if_neg (by omega), if_neg (by omega), if_neg (by omega), if_neg (by omega), hlong]
    rfl

/-- **Exactly the shapes that satisfy every rule are accepted.** -/
theorem validate_ok_iff : c.validate = .ok () ↔ ∀ rule : ShapeRule, rule.Holds c := by
  constructor
  · intro hvalid
    apply Classical.byContradiction
    intro hbroken
    obtain ⟨rule, hfirst⟩ := exists_firstFailing ShapeRule.all hbroken
    rw [validate_of_firstBroken hfirst] at hvalid
    simp at hvalid
  · intro hall
    have hslots : 1 ≤ c.slots := hall .someSlots
    have hinterval : 1 ≤ c.intervalMs := hall .someInterval
    have hlevels : 1 ≤ c.levels := hall .someLevels
    have hthreads : 1 ≤ c.maxJobThreads := hall .someJobThreads
    have hpassed :=
      (rotationMs?_ne_none hslots hlevels).2 (ShapeRule.countable_iff.1 (hall .countable))
    obtain ⟨spanMs, hspan⟩ := Option.ne_none_iff_exists'.1 hpassed
    unfold validate
    rw [if_neg (by omega), if_neg (by omega), if_neg (by omega), if_neg (by omega), hspan]

end TimerConfig

/-! ## The wheels that a shape calls for -/

/-- What a wheel is: its level, how many slots it has, and how long its tick takes. -/
def Wheel.form (wheel : Wheel) : Nat × Nat × Nat :=
  (wheel.level, wheel.slotCount, wheel.resolutionMs)

/-- The wheel of a level, with periods that are exact products. -/
structure Wheel.BuiltTo (wheel : Wheel) (c : TimerConfig) (level : Nat) : Prop where
  level_eq : wheel.level = level
  slotCount : wheel.slotCount = c.slots
  slots_size : wheel.slots.size = c.slots
  resolutionMs : wheel.resolutionMs = c.intervalMs * Nat.pow c.slots level
  spanMs : wheel.spanMs = c.intervalMs * Nat.pow c.slots (level + 1)
  /-- The product that the next wheel is built with does not reach past the largest count. -/
  exact : wheel.resolutionMs * wheel.slotCount ≤ Nat.pow 2 64 - 1

/-- The wheels of a shape, and no division by zero in the placing of an entry. -/
structure Timer.BuiltTo (t : Timer) (c : TimerConfig) : Prop where
  size : t.wheels.size = c.levels
  wheel : ∀ {level : Nat} {wheel : Wheel}, t.wheels[level]? = some wheel → wheel.BuiltTo c level
  /-- One rotation of a wheel is one tick of the next. -/
  next : ∀ {level : Nat} {wheel coarser : Wheel}, t.wheels[level]? = some wheel →
    t.wheels[level + 1]? = some coarser → coarser.resolutionMs = wheel.spanMs
  spanMs_le : ∀ {level level' : Nat} {wheel coarser : Wheel}, level ≤ level' →
    t.wheels[level]? = some wheel → t.wheels[level']? = some coarser → wheel.spanMs ≤ coarser.spanMs
  /-- Whatever the delay, there is a wheel to place it on; its tick and its number of slots, which
  the delay and the tick are divided by, are not zero, and there is a slot for the tick. -/
  placed : ∀ remainingMs : Nat, ∃ wheel, t.wheels[(t.position remainingMs).1]? = some wheel
    ∧ 0 < wheel.resolutionMs ∧ 0 < wheel.slotCount
    ∧ (t.position remainingMs).2 = wheel.target remainingMs
    ∧ (t.position remainingMs).2 % wheel.slotCount < wheel.slots.size

namespace TimerConfig

variable {c : TimerConfig}

/-- What the wheels of a shape are. -/
def forms (c : TimerConfig) : Array (Nat × Nat × Nat) :=
  (Array.range c.levels).map fun level => (level, c.slots, c.intervalMs * Nat.pow c.slots level)

end TimerConfig

namespace Timer

variable {t t' : Timer} {c : TimerConfig}

/-- What the wheels of a timer are. -/
def forms (t : Timer) : Array (Nat × Nat × Nat) := t.wheels.map Wheel.form

theorem forms_of_works (h : t'.works = t.works) : t'.forms = t.forms := by
  have hbare : t'.wheels.map Wheel.bare = t.wheels.map Wheel.bare := congrArg (·.2.2) h
  have hform : ∀ wheels : Array Wheel, wheels.map Wheel.form
      = (wheels.map Wheel.bare).map Wheel.form := by
    intro wheels
    rw [Array.map_map]
    rfl
  rw [forms, forms, hform t'.wheels, hform t.wheels, hbare]

/-- The form of every level, read off the forms of all of them. -/
theorem form_of_forms (h : t.forms = c.forms) {level : Nat} {wheel : Wheel}
    (hwheel : t.wheels[level]? = some wheel) :
    level < c.levels ∧ wheel.form = (level, c.slots, c.intervalMs * Nat.pow c.slots level) := by
  have hget : t.forms[level]? = c.forms[level]? := by rw [h]
  rw [forms, TimerConfig.forms, Array.getElem?_map, Array.getElem?_map, hwheel] at hget
  obtain ⟨level', hlevel', hform⟩ := Option.map_eq_some_iff.1 hget.symm
  obtain ⟨hlt, rfl⟩ : level < c.levels ∧ level = level' := by
    simpa [Array.getElem?_eq_some_iff] using hlevel'
  exact ⟨hlt, hform.symm⟩

/-- Wheels of the right forms are those that the shape calls for. -/
theorem BuiltTo.of_forms (hc : c.validate = .ok ()) (hshaped : t.Shaped) (h : t.forms = c.forms) :
    t.BuiltTo c := by
  have hall := TimerConfig.validate_ok_iff.1 hc
  have hslots : 1 ≤ c.slots := hall .someSlots
  have hinterval : 1 ≤ c.intervalMs := hall .someInterval
  have hsize : t.wheels.size = c.levels := by
    simpa [forms, TimerConfig.forms] using congrArg Array.size h
  -- form, number of slots and resolution are what was computed, and nothing was cut off
  have hwheel : ∀ {level : Nat} {wheel : Wheel}, t.wheels[level]? = some wheel →
      wheel.BuiltTo c level := by
    intro level wheel hget
    obtain ⟨hlt, hform⟩ := form_of_forms h hget
    have hcount : wheel.slotCount = c.slots := congrArg (·.2.1) hform
    have hresolution : wheel.resolutionMs = c.intervalMs * Nat.pow c.slots level :=
      congrArg (·.2.2) hform
    have hproduct :
        wheel.resolutionMs * wheel.slotCount = c.intervalMs * Nat.pow c.slots (level + 1) := by
      rw [hresolution, hcount, Nat.mul_assoc]
      rfl
    have hexact : wheel.resolutionMs * wheel.slotCount ≤ Nat.pow 2 64 - 1 := by
      rw [hproduct, ← c.resolutionMs_eq]
      exact TimerConfig.resolutionMs_le hc hlt
    have hspan : wheel.spanMs = c.intervalMs * Nat.pow c.slots (level + 1) :=
      (mulCapped_eq hexact).trans hproduct
    exact ⟨congrArg (·.1) hform, hcount, (hshaped.wheel hget).slots_size.trans hcount, hresolution,
      hspan, hexact⟩
  refine ⟨hsize, hwheel, ?_, ?_, ?_⟩
  · intro level wheel coarser hget hnext
    -- no coarser level has less of a span
    rw [(hwheel hnext).resolutionMs, (hwheel hget).spanMs]
  · intro level level' wheel coarser hle hget hget'
    rw [(hwheel hget).spanMs, (hwheel hget').spanMs]
    exact Nat.mul_le_mul_left _ (Nat.pow_le_pow_right hslots (Nat.succ_le_succ hle))
  · intro remainingMs
    have hlt := t.selectLevel_lt hshaped.wheels_pos remainingMs
    obtain ⟨wheel, hget⟩ : ∃ wheel, t.wheels[selectLevel t.wheels remainingMs]? = some wheel :=
      ⟨_, Array.getElem?_eq_getElem hlt⟩
    have hbuilt := hwheel hget
    have htarget : (t.position remainingMs).2 = wheel.target remainingMs := by
      simp only [position, hget, Option.map_some, Option.getD_some]
    have hcount : 0 < wheel.slotCount := by
      rw [hbuilt.slotCount]
      exact hslots
    refine ⟨wheel, hget, ?_, hcount, htarget, ?_⟩
    · rw [hbuilt.resolutionMs]
      exact Nat.mul_pos hinterval (Nat.pow_pos hslots)
    · rw [hbuilt.slots_size, ← hbuilt.slotCount]
      exact Nat.mod_lt _ hcount

/-- The products that the wheels are built with are exact. -/
theorem forms_ofConfig (id : TimerId) (clockUs : Nat) (hc : c.validate = .ok ()) :
    (ofConfig id clockUs c).forms = c.forms := by
  rw [forms, TimerConfig.forms, ofConfig_wheels id clockUs hc, Array.map_map]
  congr 1
  funext level
  rw [← c.resolutionMs_eq]
  rfl

end Timer

/-! ## Whatever happens -/

/-- The timer that is started has the wheels of its shape. -/
theorem World.startTimer_timer (w : World) (c : TimerConfig) :
    (w.startTimer c).timer = some (.ofConfig w.timers w.clockUs c) := by
  obtain ⟨journal, -, heq⟩ := w.startTimer_eq c
  rw [heq]

/-- The form of a wheel has to do with neither contents of slots nor the clock. -/
theorem World.Still.forms {w w' : World} (h : w.Still w') :
    w'.timer.map Timer.forms = w.timer.map Timer.forms :=
  h.read fun hworks _ => Timer.forms_of_works hworks

/-- No action of a body changes the form of a wheel. -/
theorem World.Performed.forms {w w' : World} {a : Action} (h : Performed w a w') :
    w'.timer.map Timer.forms = w.timer.map Timer.forms := by
  cases h with
  | control handle i e c runTask known plain => exact (control_aside plain runTask w i e).forms
  | schedule handle r delayMs outcomes rounds =>
    obtain ⟨r', task, handles, heq⟩ := w.schedule_eq handle r delayMs { outcomes, rounds }
    rw [heq]
    exact (register_aside (w.withJob handle { outcomes, rounds }) r' task).forms
  | timer t c there =>
    obtain ⟨status, journal, -, heq⟩ := controlTimer_eq w there c
    rw [heq, there]
    rfl
  | _ => rfl

/-- A move leaves the timer with the wheels it has, or leaves no timer, or starts one. -/
theorem Move.forms {law : Law} {m m' : Moment} (h : Move law m m') :
    m'.world.timer.map Timer.forms = m.world.timer.map Timer.forms ∨ m'.world.timer = none
      ∨ ∃ c : TimerConfig, c.validate = .ok () ∧ m'.world.timer.map Timer.forms = some c.forms := by
  have hmodify : ∀ (w : World) (level : Nat) (f : Wheel → Wheel),
      (∀ wheel, (f wheel).form = wheel.form) →
      (w.timer.map (·.modifyWheel level f)).map Timer.forms = w.timer.map Timer.forms := by
    intro w level f hf
    rw [Option.map_map]
    congr 1
    funext t
    exact map_modify_eq hf
  -- no move but the creation and the drop of a timer touches the form of a wheel
  cases h with
  | act m a runTask allowed plain =>
    exact Or.inl (World.performed_perform plain runTask m.world).forms
  | conclude m i outcome known => exact Or.inl (World.conclude_aside _ i outcome).forms
  | enroll m i e r job known task there =>
    exact Or.inl (World.register_aside _ r _).forms
  | complete m i inProgress => exact Or.inl (World.complete_aside _ i).forms
  | lose w level t wheel allowed there stopped known due =>
    rw [World.serve_eq]
    exact Or.inl (hmodify w level _ fun _ => rfl)
  | drain w level t wheel allowed there running known due =>
    obtain ⟨journal, -, heq⟩ := w.drained_eq level wheel
    rw [heq]
    exact Or.inl (hmodify w level _ fun _ => rfl)
  | look w s i rest e next free known rests =>
    exact Or.inl (World.dispatch_aside known rests _ _).forms
  | launch w s i rest e e' last next free known runs =>
    refine Or.inl ?_
    unfold World.launching
    simp only
    split <;> rfl
  | putBack w s i last current =>
    exact Or.inl (World.puttingBack_aside w _ i last).forms
  | create w c allowed valid =>
    refine Or.inr (Or.inr ⟨c, valid, ?_⟩)
    show (w.startTimer c).timer.map Timer.forms = _
    rw [World.startTimer_timer, Option.map_some, Timer.forms_ofConfig _ _ valid]
  | drop w allowed =>
    obtain ⟨journal, -, heq⟩ := w.dropTimer_eq
    rw [heq]
    exact Or.inr (Or.inl rfl)
  | _ => exact Or.inl rfl

/-- **Whatever happened, the wheels of a timer are those of an accepted shape.** -/
theorem Moment.Arises.builtTo {m : Moment} (h : m.Arises) {t : Timer}
    (ht : m.world.timer = some t) : ∃ c : TimerConfig, c.validate = .ok () ∧ t.BuiltTo c := by
  have hforms : ∀ t, m.world.timer = some t →
      ∃ c : TimerConfig, c.validate = .ok () ∧ t.forms = c.forms := by
    clear ht
    induction h using Moment.Arises.induction with
    | start nesting => exact fun t ht => by simp at ht
    | move _ hmove ih =>
      intro t ht
      rcases hmove.forms with hsame | hnone | ⟨c, hc, hbuilt⟩
      · rw [ht] at hsame
        obtain ⟨t₀, ht₀, hforms⟩ := Option.map_eq_some_iff.1 hsame.symm
        rw [← hforms]
        exact ih t₀ ht₀
      · rw [hnone] at ht
        simp at ht
      · rw [ht] at hbuilt
        exact ⟨c, hc, Option.some.inj hbuilt⟩
  obtain ⟨c, hc, hbuilt⟩ := hforms t ht
  exact ⟨c, hc, .of_forms hc (h.custody.keeps ht).shaped hbuilt⟩

/-- **A shape is accepted exactly if its hierarchy can be built exactly.** The check accepts the
shapes with at least one slot, millisecond, level and job thread whose coarsest rotation is a count;
otherwise it names the first rule that is broken, and no timer is created. Of an accepted shape the
wheels have the exact periods, and they keep them in whatever world commands lead to. The check asks
nothing about memory, and the slots are taken to find room. -/
theorem accepted_iff_built_exactly (c : TimerConfig) :
    (c.validate = .ok () ↔ 1 ≤ c.slots ∧ 1 ≤ c.intervalMs ∧ 1 ≤ c.levels ∧ 1 ≤ c.maxJobThreads
        ∧ c.intervalMs * Nat.pow c.slots c.levels ≤ Nat.pow 2 64 - 1)
      ∧ (∀ fault, c.validate = .error fault ↔
          ∃ rule : ShapeRule, rule.FirstBroken c ∧ fault = rule.fault c)
      ∧ (∀ (w : World) (rule : ShapeRule), rule.FirstBroken c →
          w.step (.create c) = (.refused (.config (rule.fault c).message), w))
      ∧ (∀ w : World, c.validate = .ok () → (w.step (.create c)).1 = .done
          ∧ ∃ t, (w.step (.create c)).2.timer = some t ∧ t.BuiltTo c)
      ∧ ∀ (w : World) (t : Timer), w.Reachable → w.timer = some t →
          ∃ c : TimerConfig, c.validate = .ok () ∧ t.BuiltTo c := by
  refine ⟨?_, ?_, ?_, ?_, ?_⟩
  · rw [TimerConfig.validate_ok_iff]
    constructor
    · intro hall
      exact ⟨hall .someSlots, hall .someInterval, hall .someLevels, hall .someJobThreads,
        hall .countable⟩
    · rintro ⟨hslots, hinterval, hlevels, hthreads, hcountable⟩ rule
      cases rule <;> assumption
  · intro fault
    constructor
    -- of the rules that are broken one comes first
    · intro hfault
      have hbroken : ¬ ∀ rule : ShapeRule, rule.Holds c := fun hall => by
        rw [TimerConfig.validate_ok_iff.2 hall] at hfault
        simp at hfault
      obtain ⟨rule, hfirst⟩ := exists_firstFailing ShapeRule.all hbroken
      rw [TimerConfig.validate_of_firstBroken hfirst] at hfault
      exact ⟨rule, hfirst, (Except.error.inj hfault).symm⟩
    · rintro ⟨rule, hfirst, rfl⟩
      exact TimerConfig.validate_of_firstBroken hfirst
  · intro w rule hfirst
    simp only [World.step, World.create, TimerConfig.validate_of_firstBroken hfirst]
    rfl
  · intro w hc
    have hcreate : w.step (.create c) = (.done, w.startTimer c) := by
      simp only [World.step, World.create, hc]
    rw [hcreate]
    exact ⟨rfl, _, w.startTimer_timer c,
      .of_forms hc (Timer.shaped_ofConfig _ _ hc) (Timer.forms_ofConfig _ _ hc)⟩
  · intro w t hreachable ht
    exact hreachable.arises.builtTo ht

/-- The longest tick of three levels of two slots each, which fills the counts to the last one but
seven; one millisecond more is refused. -/
theorem accepted_iff_built_exactly_of_longest :
    (⟨2, 3, Nat.pow 2 61 - 1, 1⟩ : TimerConfig).validate = .ok ()
      ∧ (∃ t, (World.step {} (.create ⟨2, 3, Nat.pow 2 61 - 1, 1⟩)).2.timer = some t
          ∧ t.BuiltTo ⟨2, 3, Nat.pow 2 61 - 1, 1⟩)
      ∧ ShapeRule.countable.FirstBroken ⟨2, 3, Nat.pow 2 61, 1⟩
      ∧ World.step {} (.create ⟨2, 3, Nat.pow 2 61, 1⟩) = (.refused (.config
          "interval is too large with level: 2305843009213693952ms x 2 slots x 3 levels"), {}) := by
  have hvalid : (⟨2, 3, Nat.pow 2 61 - 1, 1⟩ : TimerConfig).validate = .ok () :=
    (accepted_iff_built_exactly _).1.2 (by decide)
  have hbroken : ShapeRule.countable.FirstBroken ⟨2, 3, Nat.pow 2 61, 1⟩ := by
    refine ⟨by unfold ShapeRule.Holds; decide, fun earlier hearlier => ?_⟩
    cases earlier <;> first | exact absurd hearlier (by decide) | (unfold ShapeRule.Holds; decide)
  obtain ⟨-, hbuilt⟩ := (accepted_iff_built_exactly _).2.2.2.1 {} hvalid
  exact ⟨hvalid, hbuilt, hbroken, (accepted_iff_built_exactly _).2.2.1 {} .countable hbroken⟩

end TimingWheel
