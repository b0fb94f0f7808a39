import TimingWheel.Proofs.Custody
import TimingWheel.Proofs.History

/-!
# The life of an entry

Most of what there is to say about an entry does not depend on the other entries, on the wheels or
on what else goes on. A `View` is what a moment shows of one entry, and every move of the world
shows in it as one of a few things (`View.EntryStep`), whatever else the move does.

* **`Move.lives`** — what a move means for an entry: its life goes on, it is born, or it is still to
  come.
* **`Moment.Arises.life`** — the view of an entry in a moment that arises is one that its life can
  lead to (`View.Life`), so what holds of every life holds in every such moment.
-/

namespace TimingWheel

/-- Where the tick in progress has an entry. -/
inductive Stage where
  /-- Nowhere: the tick has nothing to do with the entry, or not any more. -/
  | free
  /-- The tick of a level drained it at a time of the timer's clock and has not looked at it yet. -/
  | drained (level tick nowMs : Nat)
  /-- The tick launched an execution of it, of its last run or not, and has not put it back. -/
  | launched (nowMs : Nat) (last : Bool)

/-- Where a tick has an entry. -/
def Sweep.stage (s : Sweep) (i : EntryId) : Stage :=
  match s.launched with
  | some (j, last) =>
    if j = i then .launched s.nowMs last
    else if i ∈ s.waiting then .drained s.level s.tick s.nowMs
    else .free
  | none => if i ∈ s.waiting then .drained s.level s.tick s.nowMs else .free

/-- The executions of an entry that were launched and have not ended. -/
structure Flight where
  /-- Executions that are held back. -/
  held : Nat
  /-- Whether an execution is in progress. -/
  executing : Bool

namespace Flight

variable {f : Flight}

/-- How many executions have not ended. -/
def count (f : Flight) : Nat := f.held + f.executing.toNat

theorem eq_of_count (h : f.count = 0) : f = ⟨0, false⟩ := by
  obtain ⟨held, executing⟩ := f
  cases executing with
  | true => exact absurd h (Nat.succ_ne_zero held)
  | false => exact congrArg (Flight.mk · false) (show held = 0 from h)

theorem count_of_executing (h : f.executing = true) : f.count = f.held + 1 := by
  rw [count, h, Bool.toNat_true]

/-- A held execution that is taken up has not ended. -/
theorem count_takeUp (held : 1 ≤ f.held) (idle : f.executing = false) :
    count ⟨f.held - 1, true⟩ = f.count := by
  rw [count, count, idle]
  exact Nat.sub_add_cancel held

/-- A launch adds one execution, whether it is held or begun at once. -/
theorem count_launch (holding : Bool) (idle : f.executing = false) :
    count ⟨f.held + holding.toNat, !holding⟩ = f.count + 1 := by
  rw [count, count, idle]
  cases holding <;> rfl

end Flight

/-- What a moment shows of an entry. -/
structure View extends Page where
  stage : Stage
  flight : Flight

/-- Executions launched and not ended. -/
def View.unfinished (v : View) : Nat := v.flight.count

namespace Moment

/-- Where the tick in progress has an entry. -/
def stage (m : Moment) (i : EntryId) : Stage := (m.sweep.map (·.stage i)).getD .free

/-- The executions of an entry that were launched and have not ended. -/
def flight (m : Moment) (i : EntryId) : Flight := ⟨m.world.held.count i, m.executing = some i⟩

/-- What a moment shows of an entry. -/
def view (m : Moment) (i : EntryId) : Option View :=
  (m.world.page i).map fun p => { p with stage := m.stage i, flight := m.flight i }

/-- The executions of an entry that a moment shows are the unfinished ones. -/
theorem count_flight (m : Moment) (i : EntryId) : (m.flight i).count = m.unfinished i := by
  unfold flight Flight.count unfinished
  by_cases h : m.executing = some i <;> simp [h]

end Moment

namespace View

/-- One thing that happens to an entry under a law. -/
inductive EntryStep (law : Law) (i : EntryId) : View → View → Prop where
  /-- Something happens that has nothing to do with the entry. Its timer may be gone after it. -/
  | passes (v : View) (there : Bool) (nowMs : Nat) (aim : Nat → Nat × Nat)
      (gone : there = true → v.there = true) : EntryStep law i v { v with there, nowMs, aim }
  /-- Somebody is about to run the body by hand. -/
  | byHand (v : View) : EntryStep law i v { v with toPage := v.toPage.tell (.controlled i .run) }
  /-- A body of the entry starts. -/
  | begins (v : View) (job : JobId) (label : String) (clockUs : Nat) :
      EntryStep law i v { v with toPage := v.toPage.tell (.started i job label clockUs) }
  /-- A body of the entry ends. -/
  | concludes (v : View) (outcome : Outcome) :
      EntryStep law i v { v with toPage := v.toPage.conclude i outcome }
  /-- The owner controls the entry. -/
  | controls (v : View) (c : Control) (plain : c ≠ .run) :
      EntryStep law i v { v with toPage := v.toPage.control i c }
  /-- A launched execution ends. -/
  | completes (v : View) (executing : v.flight.executing = true) :
      EntryStep law i v { v with
        toPage := v.toPage.complete i
        flight := { v.flight with executing := false } }
  /-- A held execution is taken up. -/
  | takesUp (v : View) (allowed : law.takes i) (held : 1 ≤ v.flight.held)
      (idle : v.flight.executing = false) :
      EntryStep law i v { v with flight := ⟨v.flight.held - 1, true⟩ }
  /-- The tick that is recorded for the entry drains its slot. -/
  | drains (v : View) (aim : Nat → Nat × Nat) (free : v.stage = .free)
      (owned : v.entry.installed = true) :
      EntryStep law i v { v with
        aim := aim
        stage := .drained v.entry.level v.entry.installedTick v.nowMs }
  /-- The tick looks at the entry and launches nothing. -/
  | rests (v : View) (level tick nowMs : Nat) (drained : v.stage = .drained level tick nowMs)
      (idle : ∀ last, (v.entry.evaluate nowMs).1 ≠ .run last) :
      EntryStep law i v { v with
        toPage := (v.toPage.look i level tick nowMs).rest i nowMs (v.entry.evaluate nowMs).1
        stage := .free }
  /-- The tick looks at the entry and launches an execution. -/
  | launches (v : View) (level tick nowMs : Nat) (last holding : Bool)
      (drained : v.stage = .drained level tick nowMs) (idle : v.flight.executing = false)
      (runs : (v.entry.evaluate nowMs).1 = .run last) :
      EntryStep law i v { v with
        toPage := v.toPage.look i level tick nowMs
        stage := .launched nowMs last
        flight := ⟨v.flight.held + holding.toNat, !holding⟩ }
  /-- The tick places the entry that it launched again, or gives it up. -/
  | putsBack (v : View) (nowMs : Nat) (last : Bool) (launched : v.stage = .launched nowMs last)
      (idle : v.flight.executing = false) :
      EntryStep law i v { v with toPage := v.toPage.putBack i nowMs last, stage := .free }

/-- Nothing that is told of an entry is ever taken back. -/
theorem EntryStep.suffix {law : Law} {i : EntryId} {v v' : View} (h : v.EntryStep law i v') :
    v.history <:+ v'.history := by
  cases h with
  | byHand => exact v.toPage.suffix_tell _
  | begins job label clockUs => exact v.toPage.suffix_tell _
  | concludes outcome => exact v.toPage.suffix_conclude i outcome
  | controls c plain =>
    exact (v.toPage.suffix_tell (.controlled i c)).trans (v.toPage.suffix_control i c)
  | completes executing => exact v.toPage.suffix_complete i
  | rests level tick nowMs drained idle =>
    exact (v.toPage.suffix_look i level tick nowMs).trans (Page.suffix_rest _ i nowMs _)
  | launches level tick nowMs last holding drained idle runs =>
    exact v.toPage.suffix_look i level tick nowMs
  | putsBack nowMs last launched idle => exact v.toPage.suffix_putBack i nowMs last
  | _ => exact List.suffix_rfl

/-- The view of an entry that was just added. -/
def Born (i : EntryId) (v : View) : Prop := ∃ r task owner nowMs aim,
  v = { Page.registered i r task owner nowMs aim with stage := .free, flight := ⟨0, false⟩ }

/-- The views that the life of an entry can lead to. -/
inductive Life (i : EntryId) : View → Prop where
  | born {v : View} (h : v.Born i) : Life i v
  | step {v v' : View} (h : Life i v) (step : v.EntryStep .free i v') : Life i v'

end View

namespace Moment

variable {law : Law} {m m' : Moment} {i : EntryId}

/-- Nothing is known of an entry that is still to come. -/
structure Blank (m : Moment) (i : EntryId) : Prop where
  entry : m.world.entries[i]? = none
  history : m.world.history i = []
  flight : m.flight i = ⟨0, false⟩

/-- What happens from one moment to the next means for an entry that its life goes on, that it is
born, or that it is still to come. -/
structure Lives (law : Law) (i : EntryId) (m m' : Moment) : Prop where
  step : ∀ {v}, m.view i = some v → ∃ v', m'.view i = some v' ∧ v.EntryStep law i v'
  comes : m.Blank i → m'.Blank i ∨ ∃ v', m'.view i = some v' ∧ v'.Born i

/-- What a view is, part by part. -/
theorem view_eq_some {v : View} : m.view i = some v ↔ m.world.page i = some v.toPage
    ∧ v.stage = m.stage i ∧ v.flight = m.flight i := by
  unfold view
  rw [Option.map_eq_some_iff]
  constructor
  · rintro ⟨p, hp, rfl⟩
    exact ⟨hp, rfl, rfl⟩
  · rintro ⟨hp, hstage, hflight⟩
    refine ⟨v.toPage, hp, ?_⟩
    rw [← hstage, ← hflight]

theorem unfinished_of_view {v : View} (h : m.view i = some v) : v.unfinished = m.unfinished i := by
  obtain ⟨-, -, hflight⟩ := view_eq_some.1 h
  rw [View.unfinished, hflight, count_flight]

/-- A tick that has not got an entry in hand has nothing to do with it. -/
theorem stage_of_notMem (h : i ∉ m.hand) : m.stage i = .free := by
  unfold stage hand at *
  cases hs : m.sweep with
  | none => rfl
  | some s =>
    rw [hs] at h
    simp only [Option.map_some, Option.getD_some, Sweep.hand, Sweep.stage] at h ⊢
    rw [List.mem_append, not_or] at h
    cases hl : s.launched with
    | none => simp only [if_neg h.2]
    | some launched =>
      have hne : launched.1 ≠ i := by
        intro heq
        simp [hl, heq] at h
      simp only [if_neg hne, if_neg h.2]

/-- A tick that has nothing to do with an entry has not got it in hand. -/
theorem notMem_of_free (h : m.stage i = .free) : i ∉ m.hand := by
  unfold stage hand at *
  cases hs : m.sweep with
  | none => simp
  | some s =>
    rw [hs] at h
    simp only [Option.map_some, Option.getD_some, Sweep.hand, Sweep.stage] at h ⊢
    split at h
    · next j last hl =>
      split at h
      · simp at h
      · next hne =>
        split at h
        · simp at h
        · next hwaiting => simp [hl, hwaiting, Ne.symm hne]
    · next hl =>
      split at h
      · simp at h
      · next hwaiting => simp [hl, hwaiting]

/-- An entry that was drained was drained by the tick in progress, at its level and tick. -/
theorem sweep_of_drained {level tick nowMs : Nat}
    (h : m.stage i = .drained level tick nowMs) :
    ∃ s, m.sweep = some s ∧ s.level = level ∧ s.tick = tick ∧ s.nowMs = nowMs := by
  unfold Moment.stage at h
  cases hs : m.sweep with
  | none => simp [hs] at h
  | some s =>
    rw [hs, Option.map_some, Option.getD_some] at h
    unfold Sweep.stage at h
    split at h
    · split at h
      · simp at h
      · split at h
        · rw [Stage.drained.injEq] at h
          exact ⟨s, rfl, h⟩
        · simp at h
    · split at h
      · rw [Stage.drained.injEq] at h
        exact ⟨s, rfl, h⟩
      · simp at h

/-- An entry whose launch is not dealt with yet was launched by the tick in progress. -/
theorem sweep_of_launched {nowMs : Nat} {last : Bool}
    (h : m.stage i = .launched nowMs last) : ∃ s, m.sweep = some s ∧ s.nowMs = nowMs := by
  unfold Moment.stage at h
  cases hs : m.sweep with
  | none => simp [hs] at h
  | some s =>
    rw [hs, Option.map_some, Option.getD_some] at h
    unfold Sweep.stage at h
    split at h
    · split at h
      · rw [Stage.launched.injEq] at h
        exact ⟨s, rfl, h.1⟩
      · split at h <;> simp at h
    · split at h <;> simp at h

/-- An entry that is spared goes on living, or is still to come. -/
theorem Lives.of_spares (h : World.Spares i m.world m'.world)
    (hthere : ∀ e, m.world.entries[i]? = some e → m'.world.hasTimer e.owner = true →
      m.world.hasTimer e.owner = true)
    (hstage : m'.stage i = m.stage i) (hflight : m'.flight i = m.flight i) :
    m.Lives law i m' := by
  refine ⟨fun {v} hv => ?_, fun hblank => Or.inl ?_⟩
  · obtain ⟨hpage, hstage₁, hflight₁⟩ := view_eq_some.1 hv
    obtain ⟨hentry, hhistory, hthere₁, -, -⟩ := World.page_eq_some.1 hpage
    have hgone : m'.world.hasTimer v.entry.owner = true → v.there = true := by
      rw [hthere₁]
      exact hthere v.entry hentry
    refine ⟨_, view_eq_some.2 ⟨World.page_eq_some.2 ⟨?_, ?_, ?_, ?_, ?_⟩, ?_, ?_⟩,
      .passes v (m'.world.hasTimer v.entry.owner) m'.world.nowMs m'.world.aim hgone⟩
    · exact h.entry.trans hentry
    · exact hhistory.trans h.history.symm
    · rfl
    · rfl
    · rfl
    · exact hstage₁.trans hstage.symm
    · exact hflight₁.trans hflight.symm
  · exact ⟨h.entry.trans hblank.entry, h.history.trans hblank.history,
      hflight.trans hblank.flight⟩

/-- Doing something to entries and slots only, which spares this entry. -/
theorem Lives.of_aside {w w' : World} {sweep sweep' : Option Sweep} {executing : Option EntryId}
    (h : World.Spares i w w') (haside : w.Aside w')
    (hstage : stage ⟨w', sweep', executing⟩ i = stage ⟨w, sweep, executing⟩ i) :
    Lives law i ⟨w, sweep, executing⟩ ⟨w', sweep', executing⟩ := by
  refine .of_spares h (fun e _ => ?_) hstage ?_
  · rw [haside.hasTimer]
    exact id
  · simp only [flight, haside.held]

theorem exists_view {e : Entry} (he : m.world.entries[i]? = some e) :
    ∃ v, m.view i = some v ∧ m.world.page i = some v.toPage ∧ v.entry = e
      ∧ v.stage = m.stage i ∧ v.flight = m.flight i := by
  let p : Page := ⟨e, m.world.history i, m.world.hasTimer e.owner, m.world.nowMs, m.world.aim⟩
  have hpage : m.world.page i = some p := World.page_eq_some.2 ⟨he, rfl, rfl, rfl, rfl⟩
  exact ⟨{ p with stage := m.stage i, flight := m.flight i },
    view_eq_some.2 ⟨hpage, rfl, rfl⟩, hpage, rfl, rfl, rfl⟩

theorem entry_of_page {v : View} (h : m.world.page i = some v.toPage) {e : Entry}
    (he : m.world.entries[i]? = some e) : v.entry = e :=
  Option.some.inj ((World.page_eq_some.1 h).1.symm.trans he)

/-- An entry that is there is not still to come. -/
theorem not_blank {e : Entry} (he : m.world.entries[i]? = some e) : ¬ m.Blank i := by
  intro hblank
  rw [hblank.entry] at he
  simp at he

/-- One entry is acted on: it shows in the view of that entry, and the others are spared. -/
theorem Lives.of_one (j : EntryId) (hknown : ¬ m.Blank j) (hothers : j ≠ i → m.Lives law i m')
    (hself : ∀ v : View, m.world.page j = some v.toPage → v.stage = m.stage j →
      v.flight = m.flight j → ∃ v', v.EntryStep law j v' ∧ m'.view j = some v') :
    m.Lives law i m' := by
  by_cases hji : j = i
  · subst hji
    refine ⟨fun {v} hv => ?_, fun hblank => absurd hblank hknown⟩
    obtain ⟨hpage, hstage, hflight⟩ := view_eq_some.1 hv
    obtain ⟨v', hstepped, hv'⟩ := hself v hpage hstage hflight
    exact ⟨v', hv', hstepped⟩
  · exact hothers hji

/-- An operation on one entry that leaves the tick and the executions alone. -/
theorem Lives.of_operation {w w' : World} {sweep : Option Sweep} {executing : Option EntryId}
    {j : EntryId} {e : Entry} (he : w.entries[j]? = some e) (haside : w.Aside w')
    (hspares : j ≠ i → World.Spares i w w')
    (hself : ∀ v : View, w.page j = some v.toPage → v.entry = e →
      ∃ p, w'.page j = some p ∧ v.EntryStep law j { v with toPage := p }) :
    Lives law i ⟨w, sweep, executing⟩ ⟨w', sweep, executing⟩ := by
  refine .of_one j (not_blank he) (fun hji => .of_aside (hspares hji) haside rfl)
    fun v hpage hstage hflight => ?_
  obtain ⟨p, hp, hstepped⟩ := hself v hpage (entry_of_page (m := ⟨w, sweep, executing⟩) hpage he)
  refine ⟨_, hstepped, view_eq_some.2 ⟨hp, hstage, hflight.trans ?_⟩⟩
  simp only [flight, haside.held]

end Moment

/-! ## Moves in the life of an entry -/

/-- A new entry is born, and the others are spared. -/
theorem World.register_lives (law : Law) {w : World} {sweep : Option Sweep}
    {executing : Option EntryId} (hw : w.Custody (Moment.hand ⟨w, sweep, executing⟩))
    (r : Registration) (task : Task) (i : EntryId) :
    Moment.Lives law i ⟨w, sweep, executing⟩ ⟨w.register r task, sweep, executing⟩ := by
  -- the entry that is added has its life before it; the others are spared
  by_cases hnew : w.entries.size = i
  · subst hnew
    have hnone : w.entries[w.entries.size]? = none := Array.getElem?_size
    refine ⟨fun {v} hv => ?_, fun hblank => ?_⟩
    · have hentry := (page_eq_some.1 (Moment.view_eq_some.1 hv).1).1
      rw [hnone] at hentry
      simp at hentry
    · cases ht : w.timer with
      | none =>
        have hsame : w.register r task = w := by simp only [register, ht]
        rw [hsame]
        exact Or.inl hblank
      | some t =>
        have hpage := page_register ht hblank.history r task
        refine Or.inr ⟨_, Moment.view_eq_some.2 ⟨hpage, ?_, ?_⟩, r, task, t.id, w.nowMs, w.aim, rfl⟩
        · -- what a tick has is an entry already
          have hout : w.entries.size ∉ Moment.hand ⟨w, sweep, executing⟩ := by
            intro hin
            obtain ⟨t', e, -, he, -⟩ := hw.in_hand hin
            rw [hnone] at he
            simp at he
          exact (Moment.stage_of_notMem hout).symm
        · have hheld := (register_aside w r task).held
          have hnone := hblank.flight
          simp only [Moment.flight] at hnone ⊢
          rw [hheld]
          exact hnone.symm
  · exact .of_aside (register_spares w hnew r task) (register_aside w r task) rfl

/-- An action shows in the view of the entry it controls or adds, and spares all others. -/
theorem World.Performed.lives {law : Law} {w w' : World} {a : Action} (h : Performed w a w')
    {sweep : Option Sweep} {executing : Option EntryId}
    (hw : w.Custody (Moment.hand ⟨w, sweep, executing⟩)) (i : EntryId) :
    Moment.Lives law i ⟨w, sweep, executing⟩ ⟨w', sweep, executing⟩ := by
  have hsame : ∀ {w'}, World.Spares i w w' → w'.timer = w.timer → w'.held = w.held →
      Moment.Lives law i ⟨w, sweep, executing⟩ ⟨w', sweep, executing⟩ := by
    intro w' hspares htimer hheld
    refine .of_spares hspares (fun e _ => ?_) rfl ?_
    · simp only [World.hasTimer, htimer]
      exact id
    · simp only [Moment.flight, hheld]
  cases h with
  | nothing => exact hsame (.refl w) rfl rfl
  | control handle j e c runTask known plain =>
    refine .of_operation known (control_aside plain runTask w j e)
      (fun hji => control_spares plain runTask w hji e) fun v hpage hentry => ?_
    have hcontrol := page_control hpage plain runTask
    rw [hentry] at hcontrol
    exact ⟨_, hcontrol, .controls v c plain⟩
  | handles => exact hsame ⟨rfl, rfl⟩ rfl rfl
  | schedule handle r delayMs outcomes rounds =>
    obtain ⟨r', task, handles, heq⟩ := w.schedule_eq handle r delayMs { outcomes, rounds }
    rw [heq]
    -- neither the jobs nor the handles are seen in a view
    have hjob : (w.withJob handle { outcomes, rounds }).Custody
        (Moment.hand ⟨w.withJob handle { outcomes, rounds }, sweep, executing⟩) :=
      hw.of_seats rfl rfl fun _ => rfl
    have hlives := register_lives law hjob r' task i
    refine ⟨fun hv => hlives.step hv, fun hblank => ?_⟩
    rcases hlives.comes ⟨hblank.entry, hblank.history, hblank.flight⟩ with hblank' | hborn
    · exact Or.inl ⟨hblank'.entry, hblank'.history, hblank'.flight⟩
    · exact Or.inr hborn
  | timer t c there =>
    obtain ⟨status, journal, hquiet, heq⟩ := controlTimer_eq w there c
    rw [heq]
    refine .of_spares (hquiet.spares w.clockUs _ w.timers) (fun e _ => ?_) rfl rfl
    simp only [World.hasTimer, there, Option.any_some]
    exact id
  | jump us => exact hsame ⟨rfl, rfl⟩ rfl rfl
  | hold on => exact hsame ⟨rfl, rfl⟩ rfl rfl
  | coarseFirst on => exact hsame ⟨rfl, rfl⟩ rfl rfl

/-- A tick has no entry in hand twice. -/
theorem World.Custody.nodup_hand {w : World} {hand : List EntryId} (h : w.Custody hand) :
    hand.Nodup := by
  cases ht : w.timer with
  | none => rw [h.idle ht]; exact List.nodup_nil
  | some t => exact (List.nodup_append.1 (h.keeps ht).once).2.1

/-- The batch that a tick drains are entries whose recorded tick it is. -/
theorem World.Custody.batch {w : World} (h : w.Custody []) {t : Timer} (ht : w.timer = some t)
    {level : Nat} {wheel : Wheel} (hwheel : t.wheels[level]? = some wheel) {i : EntryId}
    (hi : i ∈ wheel.nextBatch.toList) {e : Entry} (he : w.entries[i]? = some e) :
    e.installed = true ∧ e.level = level ∧ e.installedTick = wheel.ticks + 1 := by
  have hkeeps := h.keeps ht
  have hslot : t.SlotHas level ((wheel.ticks + 1) % wheel.slotCount) i := by
    obtain ⟨slot, hslot⟩ := (hkeeps.shaped.wheel hwheel).slot (wheel.ticks + 1)
    refine ⟨wheel, slot, hwheel, hslot, ?_⟩
    unfold Wheel.nextBatch at hi
    rw [Array.getD_eq_getD_getElem?, hslot] at hi
    simpa using hi
  have hseat := h.seat_of_slot ht hslot he
  have hberth := hkeeps.berth hslot he hwheel
  refine ⟨congrArg (·.2.1) hseat, hberth.level_eq, ?_⟩
  -- both ticks lie within one rotation and have one slot
  have hahead := hberth.ahead
  have hwithin := hberth.within
  have hsame : (e.installedTick - (wheel.ticks + 1)) % wheel.slotCount = 0 :=
    Nat.sub_mod_eq_zero_of_mod_eq hberth.slot
  have hlt : e.installedTick - (wheel.ticks + 1) < wheel.slotCount := by omega
  rw [Nat.mod_eq_of_lt hlt] at hsame
  omega

/-- Draining a slot shows in the views of the entries that it held. -/
theorem World.drained_lives {law : Law} {w : World} (hw : w.Custody [])
    {t : Timer} (ht : w.timer = some t) {level : Nat} {wheel : Wheel}
    (hwheel : t.wheels[level]? = some wheel) (i : EntryId) :
    Moment.Lives law i ⟨w, none, none⟩ ⟨w.drained level wheel,
      some ⟨level, wheel.ticks + 1, w.nowMs, wheel.nextBatch.toList, none⟩, none⟩ := by
  obtain ⟨journal, hquiet, heq⟩ := w.drained_eq level wheel
  have hspares : World.Spares i w (w.drained level wheel) := by
    rw [heq]
    exact hquiet.spares w.clockUs _ w.timers
  have hhas : ∀ id, (w.drained level wheel).hasTimer id = w.hasTimer id := by
    intro id
    rw [heq]
    simp only [hasTimer]
    cases w.timer <;> rfl
  have hclock : (w.drained level wheel).nowMs = w.nowMs := by
    rw [heq]
    simp only [World.nowMs]
    cases w.timer <;> rfl
  have hheld : (w.drained level wheel).held = w.held := by rw [heq]
  have hflight : ∀ sweep, Moment.flight ⟨w.drained level wheel, sweep, none⟩ i
      = Moment.flight ⟨w, none, none⟩ i := by
    intro sweep
    simp only [Moment.flight, hheld]
  by_cases hin : i ∈ wheel.nextBatch.toList
  · -- the tick that drains the slot is the one that is recorded for the entry
    refine ⟨fun {v} hv => ?_, fun hblank => ?_⟩
    · obtain ⟨hpage, hstage, hflight₁⟩ := Moment.view_eq_some.1 hv
      obtain ⟨hentry, hhistory, hthere, hnow, -⟩ := page_eq_some.1 hpage
      obtain ⟨howned, hlevel, htick⟩ := hw.batch ht hwheel hin hentry
      refine ⟨{ v with
          aim := (w.drained level wheel).aim
          stage := .drained v.entry.level v.entry.installedTick v.nowMs },
        Moment.view_eq_some.2 ⟨page_eq_some.2 ⟨hspares.entry.trans hentry,
          hhistory.trans hspares.history.symm, ?_, hnow.trans hclock.symm, rfl⟩, ?_,
          hflight₁.trans (hflight _).symm⟩,
        .drains v (w.drained level wheel).aim hstage howned⟩
      · rw [hhas]
        exact hthere
      · simp only [Moment.stage, Option.map_some, Option.getD_some, Sweep.stage, if_pos hin, hlevel,
          htick, hnow]
    · exact Or.inl ⟨hspares.entry.trans hblank.entry, hspares.history.trans hblank.history,
        (hflight _).trans hblank.flight⟩
  -- the tick does not have the entry, so all that changes is the tick in progress
  · refine .of_spares hspares (fun e _ => ?_) ?_ (hflight _)
    · rw [hhas]
      exact id
    · simp only [Moment.stage, Option.map_some, Option.map_none, Option.getD_some, Option.getD_none,
        Sweep.stage, if_neg hin]

/-- Where a tick has an entry once it is done with another one. -/
theorem Sweep.stage_of_ne {s : Sweep} {i j : EntryId} {rest : List EntryId}
    (next : s.waiting = j :: rest) (free : s.launched = none) (hji : j ≠ i) :
    s.stage i = ({ s with waiting := rest } : Sweep).stage i := by
  have hmem : i ∈ j :: rest ↔ i ∈ rest := by simp [Ne.symm hji]
  simp only [Sweep.stage, free, next, hmem]

/-! ### One entry is acted on -/

section

variable {law : Law} {i j : EntryId}

/-- A body that begins shows in the view of its entry. -/
theorem World.beginBody_lives (m : Moment) (known : j < m.world.entries.size) (job : JobId)
    (label : String) : m.Lives law i { m with world := m.world.beginBody j job label } := by
  -- the jobs are not seen in a view
  let w : World := { m.world with jobs := m.world.jobs.modify job fun j =>
    { j with starts := j.starts + 1 } }
  refine .of_one j (Moment.not_blank (Array.getElem?_eq_getElem known)) (fun hji => ?_)
    fun v hpage hstage hflight => ?_
  · have htell := w.tell_spares (e := .started j job label m.world.clockUs) (i := i)
      (by simpa [Event.about] using hji)
    exact .of_spares ⟨htell.entry, htell.history⟩ (fun _ _ hthere => hthere) rfl rfl
  · have hpage' : (m.world.beginBody j job label).page j
        = some (v.toPage.tell (.started j job label m.world.clockUs)) :=
      page_tell (w := w) hpage rfl
    exact ⟨_, .begins v job label m.world.clockUs,
      Moment.view_eq_some.2 ⟨hpage', hstage, hflight⟩⟩

/-- The end of an execution shows in the view of its entry, and the execution is gone. -/
theorem World.complete_lives (m : Moment) (inProgress : m.executing = some j) :
    m.Lives law i { m with world := m.world.complete j, executing := none } := by
  have hheld := (m.world.complete_aside j).held
  refine .of_one j (fun hblank => ?_) (fun hji => ?_) fun v hpage hstage hflight => ?_
  · -- an execution of the entry was in progress
    have hnone := congrArg Flight.executing hblank.flight
    simp [Moment.flight, inProgress] at hnone
  · refine .of_spares (m.world.complete_spares hji) (fun e _ => ?_) rfl ?_
    · rw [(m.world.complete_aside j).hasTimer]
      exact id
    · simp [Moment.flight, hheld, inProgress, hji]
  · have hexecuting : v.flight.executing = true := by simp [hflight, Moment.flight, inProgress]
    refine ⟨_, .completes v hexecuting, Moment.view_eq_some.2 ⟨page_complete hpage, hstage, ?_⟩⟩
    simp [Moment.flight, hheld, hflight]

/-- A held execution that is taken up shows in the view of its entry: one less is held, and one is
in progress. -/
theorem World.takeUp_lives {w : World} {n : Nat} (allowed : law.takes j)
    (held : w.held[n]? = some j) :
    Moment.Lives law i ⟨w, none, none⟩
      ⟨{ w with held := w.held.eraseIdx n }, none, some j⟩ := by
  obtain ⟨hlt, hget⟩ := List.getElem?_eq_some_iff.1 held
  -- one execution of this entry leaves the list, and none of another one
  have hcount : ∀ k, w.held.count k = (w.held.eraseIdx n).count k + if j = k then 1 else 0 := by
    intro k
    have hperm := (List.getElem_cons_eraseIdx_perm hlt).count_eq k
    rw [hget, List.count_cons] at hperm
    simpa using hperm.symm
  have hone := hcount j
  rw [if_pos rfl] at hone
  refine .of_one j (fun hblank => ?_) (fun hji => ?_) fun v hpage hstage hflight => ?_
  · -- an execution of the entry is held
    have hnone := congrArg Flight.held hblank.flight
    simp only [Moment.flight] at hnone
    omega
  · have hsame := hcount i
    rw [if_neg hji, Nat.add_zero] at hsame
    refine .of_spares ⟨rfl, rfl⟩ (fun _ _ hthere => hthere) rfl ?_
    simp [Moment.flight, hsame, hji]
  · have hheld : v.flight.held = w.held.count j := congrArg Flight.held hflight
    refine ⟨_, .takesUp v allowed (by omega) (by simp [hflight, Moment.flight]),
      Moment.view_eq_some.2 ⟨hpage, hstage, ?_⟩⟩
    simp [Moment.flight, hheld, hone]

/-- A look that launches nothing shows in the view of the entry. No other entry of the batch is
the same, so all others keep their stage. -/
theorem World.dispatch_lives {w : World} {s : Sweep} {rest : List EntryId} {e : Entry}
    (hm : w.Custody (j :: rest)) (next : s.waiting = j :: rest) (free : s.launched = none)
    (known : w.entries[j]? = some e) (rests : ∀ last, (e.evaluate s.nowMs).1 ≠ .run last) :
    Moment.Lives law i ⟨w, some s, none⟩
      ⟨w.dispatch s.level s.tick s.nowMs j, some { s with waiting := rest }, none⟩ := by
  have hout : j ∉ rest := (List.nodup_cons.1 hm.nodup_hand).1
  obtain ⟨t, -, ht, -⟩ := hm.in_hand List.mem_cons_self
  have haside := w.dispatch_aside known rests s.level s.tick
  refine .of_one j (Moment.not_blank (m := ⟨w, some s, none⟩) known) (fun hji => ?_)
    fun v hpage hstage hflight => ?_
  · exact .of_aside (dispatch_spares hji known rests s.level s.tick) haside
      (Sweep.stage_of_ne next free hji).symm
  · have hdrained : v.stage = .drained s.level s.tick s.nowMs := by
      rw [hstage]
      simp [Moment.stage, Sweep.stage, free, next]
    rw [← Moment.entry_of_page (m := ⟨w, some s, none⟩) hpage known] at rests
    have hpage' := page_dispatch hpage rests (by rw [ht]; rfl) s.level s.tick
    refine ⟨_, .rests v s.level s.tick s.nowMs hdrained rests,
      Moment.view_eq_some.2 ⟨hpage', ?_, hflight.trans ?_⟩⟩
    · simp [Moment.stage, Sweep.stage, free, hout]
    · simp only [Moment.flight, haside.held]

/-- A launch counts for its entry: the execution is held, or in progress. -/
theorem World.flight_launching (w : World) (s s' : Sweep) (last : Bool) (e : Entry) (k : EntryId) :
    Moment.flight ⟨w.launching s j last e, some s', if w.holding then none else some j⟩ k
      = if j = k then ⟨w.held.count k + w.holding.toNat, !w.holding⟩
        else Moment.flight ⟨w, some s, none⟩ k := by
  unfold World.launching Moment.flight
  cases w.holding <;> by_cases hjk : j = k <;>
    simp [World.tell, World.modifyEntry, List.count_append, hjk]

/-- A launch shows in the view of the entry, with the look and the execution that it counts. -/
theorem World.launching_lives {w : World} {s : Sweep} {rest : List EntryId} {e e' : Entry}
    {last : Bool} (next : s.waiting = j :: rest) (free : s.launched = none)
    (known : w.entries[j]? = some e) (runs : e.evaluate s.nowMs = (.run last, e')) :
    Moment.Lives law i ⟨w, some s, none⟩
      ⟨w.launching s j last e', some { s with waiting := rest, launched := some (j, last) },
        if w.holding then none else some j⟩ := by
  have hverdict : (e.evaluate s.nowMs).1 = .run last := by rw [runs]
  have hafter : e' = (e.evaluate s.nowMs).2 := by rw [runs]
  refine .of_one j (Moment.not_blank (m := ⟨w, some s, none⟩) known) (fun hji => ?_)
    fun v hpage hstage hflight => ?_
  · refine .of_spares (w.launching_spares hji s last e') (fun e₁ _ => ?_) ?_ ?_
    · unfold World.launching
      simp only
      split <;> exact id
    · have hsame := Sweep.stage_of_ne next free hji
      simp only [Moment.stage, Option.map_some, Option.getD_some, hsame]
      simp only [Sweep.stage, free, if_neg hji]
    · rw [w.flight_launching, if_neg hji]
  · have hdrained : v.stage = .drained s.level s.tick s.nowMs := by
      rw [hstage]
      simp [Moment.stage, Sweep.stage, free, next]
    -- the entry that the view shows is the one that was looked at
    rw [← Moment.entry_of_page (m := ⟨w, some s, none⟩) hpage known] at hverdict hafter
    have hpage' := World.page_launching hpage s hverdict
    rw [← hafter] at hpage'
    refine ⟨_, .launches v s.level s.tick s.nowMs last w.holding hdrained
      (by simp [hflight, Moment.flight]) hverdict, Moment.view_eq_some.2 ⟨hpage', ?_, ?_⟩⟩
    · simp [Moment.stage, Sweep.stage]
    · rw [w.flight_launching, if_pos rfl, hflight]
      rfl

/-- What a tick does after a launch shows in the view of the entry, which the tick has then done
with. -/
theorem World.puttingBack_lives {w : World} {s : Sweep} {last : Bool}
    (hm : w.Custody (j :: s.waiting)) (current : s.launched = some (j, last)) :
    Moment.Lives law i ⟨w, some s, none⟩
      ⟨w.puttingBack s.nowMs j last, some { s with launched := none }, none⟩ := by
  have hout : j ∉ s.waiting := (List.nodup_cons.1 hm.nodup_hand).1
  obtain ⟨t, e, ht, known, -⟩ := hm.in_hand List.mem_cons_self
  have haside := w.puttingBack_aside s.nowMs j last
  refine .of_one j (Moment.not_blank (m := ⟨w, some s, none⟩) known) (fun hji => ?_)
    fun v hpage hstage hflight => ?_
  · refine .of_aside (w.puttingBack_spares hji s.nowMs last) haside ?_
    simp [Moment.stage, Sweep.stage, current, hji]
  · have hlaunched : v.stage = .launched s.nowMs last := by
      rw [hstage]
      simp [Moment.stage, Sweep.stage, current]
    have hpage' := page_puttingBack hpage (by rw [ht]; rfl) s.nowMs last
    refine ⟨_, .putsBack v s.nowMs last hlaunched (by simp [hflight, Moment.flight]),
      Moment.view_eq_some.2 ⟨hpage', ?_, hflight.trans ?_⟩⟩
    · simp [Moment.stage, Sweep.stage, hout]
    · simp only [Moment.flight, haside.held]

end

/-- **What a move means for an entry.** Moves that act on one entry are a step of that one, and pass
by the others. Those that act on the timer or on the clock pass by all of them, but for the batch of
a tick, whose entries are drained. -/
theorem Move.lives {law : Law} {m m' : Moment} (h : Move law m m') (hm : m.world.Custody m.hand)
    (i : EntryId) : m.Lives law i m' := by
  cases h with
  | act m a runTask allowed plain =>
    exact (World.performed_perform plain runTask m.world).lives hm i
  | byHand m j known =>
    exact .of_operation (Array.getElem?_eq_getElem known) (m.world.tell_aside _)
      (fun hji => m.world.tell_spares (by simpa [Event.about] using hji))
      fun v hpage _ => ⟨_, World.page_tell hpage rfl, .byHand v⟩
  | begin m j job label known => exact World.beginBody_lives m known job label
  | conclude m j outcome known =>
    exact .of_operation (Array.getElem?_eq_getElem known) (m.world.conclude_aside j outcome)
      (fun hji => m.world.conclude_spares hji outcome)
      fun v hpage _ => ⟨_, World.page_conclude hpage outcome, .concludes v outcome⟩
  | enroll m j e r job known task there => exact World.register_lives law hm r _ i
  | complete m j inProgress => exact World.complete_lives m inProgress
  | takeUp w n j allowed held => exact World.takeUp_lives allowed held
  | lose w level t wheel allowed there stopped known due =>
    -- the timer keeps its number, so its entries find it as before
    rw [World.serve_eq]
    refine .of_spares ⟨rfl, rfl⟩ (fun e _ => ?_) rfl rfl
    simp only [World.hasTimer, there, Option.map_some, Option.any_some]
    exact id
  | drain w level t wheel allowed there running known due =>
    exact World.drained_lives hm there known i
  | look w s j rest e next free known rests =>
    simp only [Moment.hand, Option.map_some, Option.getD_some, Sweep.hand, next, free] at hm
    exact World.dispatch_lives hm next free known rests
  | overlook w s j rest next free unknown =>
    -- what is in hand is an entry
    simp only [Moment.hand, Option.map_some, Option.getD_some, Sweep.hand, next, free] at hm
    obtain ⟨t, e, -, he, -⟩ := hm.in_hand List.mem_cons_self
    simp [unknown] at he
  | launch w s j rest e e' last next free known runs =>
    exact World.launching_lives next free known runs
  | putBack w s j last current =>
    simp only [Moment.hand, Option.map_some, Option.getD_some, Sweep.hand, current] at hm
    exact World.puttingBack_lives hm current
  | done w s empty free =>
    -- a tick without a batch has nothing to do with anyone already
    refine .of_spares ⟨rfl, rfl⟩ (fun _ _ hthere => hthere) ?_ rfl
    simp [Moment.stage, Sweep.stage, free, empty]
  | wait w us allowed => exact .of_spares ⟨rfl, rfl⟩ (fun _ _ hthere => hthere) rfl rfl
  | create w c allowed valid =>
    obtain ⟨journal, hquiet, heq⟩ := w.startTimer_eq c
    rw [heq]
    refine .of_spares (hquiet.spares w.clockUs _ _) (fun e he hthere => ?_) rfl rfl
    -- the timers there were have other numbers
    have howner : e.owner < w.timers := hm.owners he
    have hown : w.timers = e.owner := by simpa [World.hasTimer, Timer.ofConfig] using hthere
    omega
  | drop w allowed =>
    obtain ⟨journal, hquiet, heq⟩ := w.dropTimer_eq
    rw [heq]
    refine .of_spares (hquiet.spares w.clockUs _ _) (fun e _ hthere => ?_) rfl rfl
    simp [World.hasTimer] at hthere
  | warn w reason rejected =>
    have habout :
        LogLine.about (if rejected then .configRejected reason else .configNotLoaded reason)
          ≠ some i := by
      cases rejected <;> simp [LogLine.about]
    exact .of_aside (w.log_spares habout) (w.log_aside _) rfl

/-- In everything that arises an entry leads its life, or is still to come. Induction on the
moves. -/
theorem Moment.Arises.lives {m : Moment} (h : m.Arises) (i : EntryId) :
    m.Blank i ∨ ∃ v, m.view i = some v ∧ v.Life i := by
  induction h using Moment.Arises.induction with
  | start nesting => exact Or.inl ⟨rfl, rfl, rfl⟩
  | move harises hmove ih =>
    have hlives := hmove.lives harises.custody i
    rcases ih with hblank | ⟨v, hv, hlife⟩
    · rcases hlives.comes hblank with hblank' | ⟨v', hv', hborn⟩
      · exact Or.inl hblank'
      · exact Or.inr ⟨v', hv', .born hborn⟩
    · obtain ⟨v', hv', hstepped⟩ := hlives.step hv
      exact Or.inr ⟨v', hv', hlife.step hstepped⟩

/-- The next id is that of an entry still to come. -/
theorem Moment.Arises.blank {m : Moment} (h : m.Arises) : m.Blank m.world.entries.size := by
  rcases h.lives m.world.entries.size with hblank | ⟨v, hv, -⟩
  · exact hblank
  · have hentry := (World.page_eq_some.1 (Moment.view_eq_some.1 hv).1).1
    rw [Array.getElem?_size] at hentry
    simp at hentry

/-- **The view of an entry in a moment that arises is one that its life can lead to.** -/
theorem Moment.Arises.life {m : Moment} (h : m.Arises) {i : EntryId} {v : View}
    (hv : m.view i = some v) : v.Life i := by
  rcases h.lives i with hblank | ⟨v', hv', hlife⟩
  · have hentry := (World.page_eq_some.1 (Moment.view_eq_some.1 hv).1).1
    rw [hblank.entry] at hentry
    simp at hentry
  · rwa [Option.some.inj (hv.symm.trans hv')]

end TimingWheel
