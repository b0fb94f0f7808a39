import TimingWheel.Proofs.Batch
import TimingWheel.Proofs.Timing

/-!
# Closing a timer is final

A timer is closed by its owner, by a body in the middle of a tick, or by being dropped. Its slots
are not shut by that: jobs are still scheduled on it, and entries that are reset or started come
back into them. Nothing of that ever brings a tick of it about again.

* **`World.Over`** — the timer with a number is gone or closed.
* **`World.Rests`** — what still happens to such a timer: entries are put last into its slots.
  `Move.rests` says that of every move.
* **`Moment.ahead`** — the looks that the tick in progress has still to take. Looks come from there
  and from nowhere else (`Move.looks`), and a slot is drained only while its timer runs.
* **`closing_final`** — what the two say about everything that happens after a timer is closed.
-/

namespace TimingWheel

/-- The timer with a number has been there, and it is there no more or it is closed. -/
structure World.Over (w : World) (id : TimerId) : Prop where
  known : id < w.timers
  closed : ∀ {t : Timer}, w.timer = some t → t.id = id → t.status = .closed

/-- All that happens to the timer with a number is that entries are put last into its slots. -/
structure World.Rests (id : TimerId) (w w' : World) : Prop where
  timers : w.timers ≤ w'.timers
  left : ∀ {t' : Timer}, w'.timer = some t' → t'.id = id → ∃ t, w.timer = some t
    ∧ t'.works = t.works ∧ t'.status = t.status ∧ ∀ level k, t.slot level k <+: t'.slot level k

namespace World

variable {w w' w'' : World} {id : TimerId}

/-- A timer that is closed is over. -/
theorem Custody.over_of_closed {hand : List EntryId} (h : w.Custody hand) {t : Timer}
    (ht : w.timer = some t) (hclosed : t.status = .closed) : w.Over t.id := by
  refine ⟨h.numbered ht, fun {t'} ht' _ => ?_⟩
  rw [← Option.some.inj (ht.symm.trans ht')]
  exact hclosed

/-- Dropping a timer leaves nothing of it. -/
theorem Custody.over_dropTimer (h : w.Custody []) {t : Timer} (ht : w.timer = some t) :
    w.dropTimer.Over t.id := by
  obtain ⟨journal, -, heq⟩ := w.dropTimer_eq
  rw [heq]
  exact ⟨h.numbered ht, by simp⟩

/-! ## What happens to a timer that is over -/

/-- Nothing happens to the timer. -/
theorem Rests.of_timer (htimer : w'.timer = w.timer) (htimers : w'.timers = w.timers) :
    w.Rests id w' := by
  refine ⟨Nat.le_of_eq htimers.symm, fun {t'} ht' _ => ?_⟩
  exact ⟨t', htimer.symm.trans ht', rfl, rfl, fun _ _ => List.prefix_rfl⟩

theorem Rests.refl (w : World) : w.Rests id w := .of_timer rfl rfl

theorem Rests.trans (h : w.Rests id w') (h' : w'.Rests id w'') : w.Rests id w'' := by
  refine ⟨Nat.le_trans h.timers h'.timers, fun {t''} ht'' hid => ?_⟩
  obtain ⟨t', ht', hworks', hstatus', hslots'⟩ := h'.left ht'' hid
  have hid' : t'.id = id := (congrArg (·.1) hworks').symm.trans hid
  obtain ⟨t, ht, hworks, hstatus, hslots⟩ := h.left ht' hid'
  exact ⟨t, ht, hworks'.trans hworks, hstatus'.trans hstatus,
    fun level k => (hslots level k).trans (hslots' level k)⟩

/-- Another timer in its place, or none, is nothing to the timer that was there. -/
theorem Rests.of_other (htimers : w.timers ≤ w'.timers)
    (hother : ∀ {t' : Timer}, w'.timer = some t' → t'.id ≠ id) : w.Rests id w' :=
  ⟨htimers, fun ht' hid => absurd hid (hother ht')⟩

/-- What happens aside from the clockwork puts at most one entry last into a slot. -/
theorem Rests.of_aside (haside : w.Aside w') (hslots : ∀ level k, w'.slot level k = w.slot level k
    ∨ ∃ i, w'.slot level k = w.slot level k ++ [i]) : w.Rests id w' := by
  refine ⟨Nat.le_of_eq haside.timers.symm, fun {t'} ht' _ => ?_⟩
  obtain ⟨t, ht, hworks, hstatus⟩ := haside.timer_before ht'
  refine ⟨t, ht, hworks, hstatus, fun level k => ?_⟩
  simp only [slot, ht, ht', Option.map_some, Option.getD_some] at hslots
  rcases hslots level k with hsame | ⟨i, hadded⟩
  · exact ⟨[], by rw [hsame, List.append_nil]⟩
  · exact ⟨[i], hadded.symm⟩

/-- What is over stays over. -/
theorem Over.rests (h : w.Over id) (hrests : w.Rests id w') : w'.Over id := by
  refine ⟨Nat.lt_of_lt_of_le h.known hrests.timers, fun {t'} ht' hid => ?_⟩
  obtain ⟨t, ht, hworks, hstatus, -⟩ := hrests.left ht' hid
  exact hstatus.trans (h.closed ht ((congrArg (·.1) hworks).symm.trans hid))

/-- A closed timer is closed for good, whatever its owner does with it. -/
theorem controlTimer_of_closed {t : Timer} (h : t.status = .closed) (c : TimerControl) :
    w.controlTimer t c = w := by
  cases c <;> simp [controlTimer, h]

/-- An action does nothing to a timer that is over but put entries into its slots; controls of the
timer are lost on it, and those of another timer do not concern it. -/
theorem Over.performed (h : w.Over id) {a : Action} (hp : Performed w a w') : w.Rests id w' := by
  cases hp with
  | control handle i e c runTask known plain =>
    exact .of_aside (control_aside plain runTask w i e) (adds_control plain runTask w i e).slots
  | schedule handle r delayMs outcomes rounds =>
    obtain ⟨r', task, handles, heq⟩ := w.schedule_eq handle r delayMs { outcomes, rounds }
    rw [heq]
    have hjob : w.Rests id (w.withJob handle { outcomes, rounds }) := .of_timer rfl rfl
    have hregister : World.Rests id _ ((w.withJob handle { outcomes, rounds }).register r' task) :=
      .of_aside (register_aside _ r' task) (adds_register _ r' task).slots
    exact (hjob.trans hregister).trans (.of_timer rfl rfl)
  | timer t c there =>
    by_cases hid : t.id = id
    · rw [controlTimer_of_closed (h.closed there hid) c]
      exact .refl w
    · obtain ⟨status, journal, -, heq⟩ := controlTimer_eq w there c
      rw [heq]
      exact .of_other (Nat.le_refl _) fun ht' => by
        rw [← Option.some.inj ht']
        exact hid
  | _ => exact .of_timer rfl rfl

end World

/-- **All that happens to a timer that is over** is that entries are put last into its slots. -/
theorem Move.rests {law : Law} {m m' : Moment} (h : Move law m m') {id : TimerId}
    (hm : m.world.Over id) : m.world.Rests id m'.world := by
  cases h with
  | act m a runTask allowed plain => exact hm.performed (World.performed_perform plain runTask _)
  | conclude m i outcome known =>
    exact .of_aside (m.world.conclude_aside i outcome) (m.world.idles_conclude i outcome).adds.slots
  | enroll m i e r job known task there =>
    exact .of_aside (m.world.register_aside r _) (m.world.adds_register r _).slots
  | complete m i inProgress =>
    exact .of_aside (m.world.complete_aside i) (m.world.idles_complete i).adds.slots
  | lose w level t wheel allowed there stopped known due =>
    -- ticks are due on timers that are not closed
    rw [World.serve_eq, there]
    refine .of_other (Nat.le_refl _) fun ht' hid => ?_
    rw [← Option.some.inj ht'] at hid
    simp [hm.closed there hid] at stopped
  | drain w level t wheel allowed there running known due =>
    obtain ⟨journal, -, heq⟩ := w.drained_eq level wheel
    rw [heq, there]
    refine .of_other (Nat.le_refl _) fun ht' hid => ?_
    rw [← Option.some.inj ht'] at hid
    simp [hm.closed there hid] at running
  | look w s i rest e next free known rests =>
    exact .of_aside (World.dispatch_aside known rests _ _)
      (w.adds_dispatch known rests s.level s.tick).slots
  | launch w s i rest e e' last next free known runs =>
    unfold World.launching
    simp only
    split <;> exact .of_timer rfl rfl
  | putBack w s i last current =>
    exact .of_aside (w.puttingBack_aside s.nowMs i last) (w.adds_puttingBack s.nowMs i last).slots
  | create w c allowed valid =>
    obtain ⟨journal, -, heq⟩ := w.startTimer_eq c
    rw [heq]
    refine .of_other (Nat.le_succ _) fun ht' hid => ?_
    rw [← Option.some.inj ht'] at hid
    have hnew : w.timers = id := hid
    exact Nat.ne_of_gt hm.known hnew
  | drop w allowed =>
    obtain ⟨journal, -, heq⟩ := w.dropTimer_eq
    rw [heq]
    exact .of_other (Nat.le_refl _) fun ht' => by simp at ht'
  | _ => exact .of_timer rfl rfl

/-- A run does no more to it either. Induction on the moves, with the timer over before each of
them. -/
theorem Moves.rests {law : Law} {m m' : Moment} (h : Moves law m m') {id : TimerId}
    (hm : m.world.Over id) : m.world.Rests id m'.world := by
  induction h with
  | refl => exact .refl _
  | tail _ hmove ih => exact ih.trans (hmove.rests (hm.rests ih))

/-! ## Whom the tick in progress has still to look at -/

/-- The looks that the tick in progress has still to take, in their order. -/
def Moment.ahead (m : Moment) : List (EntryId × Nat × Nat × Nat) :=
  (m.sweep.map fun s => s.waiting.map fun i => (i, s.level, s.tick, s.nowMs)).getD []

/-- What a move means for the looks: the tick in progress takes some of those that it has ahead, or
a timer that runs drains a slot. -/
inductive Moment.Looks (m m' : Moment) : Prop where
  | takes (looks : List (EntryId × Nat × Nat × Nat))
      (told : m'.world.looks = m.world.looks ++ looks) (left : (looks ++ m'.ahead).Sublist m.ahead)
  | drains (t : Timer) (told : m'.world.looks = m.world.looks) (there : m.world.timer = some t)
      (running : t.status = .running)
      (owned : ∀ look ∈ m'.ahead, ∃ e, m.world.entries[look.1]? = some e ∧ e.owner = t.id)

/-- Where nobody looks at an entry, the tick in progress has as much ahead as before. -/
theorem Moment.Looks.of_told {m m' : Moment} (hahead : m'.ahead = m.ahead)
    (h : TellsMore (·.look? = none) m.world.journal m'.world.journal) : m.Looks m' :=
  .takes [] ((World.looks_of_told h).trans (List.append_nil _).symm)
    (hahead ▸ List.Sublist.refl _)

/-- **Where looks come from.** A move takes looks that the tick in progress has ahead, or a timer
that runs drains a slot of its own entries. -/
theorem Move.looks {law : Law} {m m' : Moment} (h : Move law m m')
    (hm : m.world.Custody m.hand) : m.Looks m' := by
  cases h with
  | act m a runTask allowed plain =>
    exact .of_told rfl (World.performed_perform plain runTask m.world).adds.told
  | byHand m i known => exact .of_told rfl (.cons rfl (.refl _))
  | begin m i job label known => exact .of_told rfl (.cons rfl (.refl _))
  | conclude m i outcome known => exact .of_told rfl (m.world.idles_conclude i outcome).told
  | enroll m i e r job known task there => exact .of_told rfl (m.world.adds_register r _).told
  | complete m i inProgress => exact .of_told rfl (m.world.idles_complete i).told
  | takeUp w n i allowed held => exact .of_told rfl (.refl _)
  | lose w level t wheel allowed there stopped known due =>
    rw [World.serve_eq]
    exact .of_told rfl (.refl _)
  | drain w level t wheel allowed there running known due =>
    -- a tick takes in hand what its slot holds, all of it entries of the timer
    refine .drains t (w.looks_drained level wheel) there running fun look hlook => ?_
    obtain ⟨i, hi, rfl⟩ := List.mem_map.1 hlook
    obtain ⟨hin, e, he, -⟩ := (World.Custody.mem_batch_iff hm there known i).1 hi
    exact ⟨e, he, ((hm.mem_iff there he).1 (List.mem_append_left _ hin)).1⟩
  | look w s i rest e next free known rests =>
    refine .takes [(i, s.level, s.tick, s.nowMs)] ?_ ?_
    · exact World.looks_dispatch (Array.getElem?_eq_some_iff.1 known).1 s.level s.tick s.nowMs
    · simp [Moment.ahead, next]
  | overlook w s i rest next free unknown =>
    refine .takes [] (List.append_nil _).symm ?_
    simp [Moment.ahead, next]
  | launch w s i rest e e' last next free known runs =>
    refine .takes [(i, s.level, s.tick, s.nowMs)] ?_ ?_
    · exact w.looks_launching s i last e'
    · simp [Moment.ahead, next]
  | putBack w s i last current => exact .of_told rfl (w.adds_puttingBack s.nowMs i last).told
  | done w s empty free => exact .takes [] (List.append_nil _).symm (by simp [Moment.ahead])
  | wait w us allowed => exact .of_told rfl (.refl _)
  | create w c allowed valid =>
    obtain ⟨journal, hquiet, heq⟩ := w.startTimer_eq c
    rw [heq]
    exact .of_told rfl hquiet.told
  | drop w allowed =>
    obtain ⟨journal, hquiet, heq⟩ := w.dropTimer_eq
    rw [heq]
    exact .of_told rfl hquiet.told
  | warn w reason rejected => exact .of_told rfl (.cons rfl (.refl _))

/-- Whether an entry was scheduled on the timer with a number. -/
def World.isOf (w : World) (id : TimerId) (i : EntryId) : Bool :=
  w.entries[i]?.any (·.owner == id)

/-- An entry stays with its timer. -/
theorem Moves.owner {m m' : Moment} (h : Moves .free m m') (hm : m.Arises) {i : EntryId}
    {e : Entry} (he : m.world.entries[i]? = some e) :
    ∃ e', m'.world.entries[i]? = some e' ∧ e'.owner = e.owner := by
  induction h with
  | refl => exact ⟨e, he, rfl⟩
  | tail hmoves hmove ih =>
    obtain ⟨e', he', howner⟩ := ih
    obtain ⟨v, hv, -, rfl, -⟩ := Moment.exists_view he'
    obtain ⟨v', hv', hstepped⟩ := (hmove.lives (Moment.Arises.custody (hm.trans hmoves)) i).step hv
    exact ⟨v'.entry, (World.page_eq_some.1 (Moment.view_eq_some.1 hv').1).1,
      hstepped.timingStep.owner.trans howner⟩

/-- Since a timer was closed, looks are taken at those of its entries only that were drained
before. -/
theorem Moves.looks {m m' : Moment} (h : Moves .free m m') (hm : m.Arises) {id : TimerId}
    (hover : m.world.Over id) : ∃ looks, m'.world.looks = m.world.looks ++ looks
      ∧ (looks.filter fun look => m'.world.isOf id look.1).Sublist m.ahead := by
  induction h using Relation.ReflTransGen.head_induction_on with
  | refl => exact ⟨[], (List.append_nil _).symm, List.nil_sublist _⟩
  | @head m m₁ hmove hmoves ih =>
    obtain ⟨looks, htold, hlooks⟩ := ih (hm.tail hmove) (hover.rests (hmove.rests hover))
    rcases hmove.looks hm.custody with ⟨first, htold₁, hahead⟩ | ⟨t, htold₁, ht, hrunning, howned⟩
    · refine ⟨first ++ looks, by rw [htold, htold₁, List.append_assoc], ?_⟩
      rw [List.filter_append]
      exact (List.filter_sublist.append hlooks).trans hahead
    · -- the slot that was drained is one of another timer
      refine ⟨looks, htold.trans (congrArg (· ++ looks) htold₁), ?_⟩
      have hnone : (looks.filter fun look => m'.world.isOf id look.1) = [] := by
        refine List.filter_eq_nil_iff.2 fun look hlook hof => ?_
        have hin := hlooks.subset (List.mem_filter.2 ⟨hlook, hof⟩)
        obtain ⟨e, he, howner⟩ := howned look hin
        obtain ⟨e', he', howner'⟩ := Moves.owner (.head hmove hmoves) hm he
        have hid : e'.owner = id := by simpa [World.isOf, he'] using hof
        rw [hover.closed ht ((howner.symm.trans howner'.symm).trans hid)] at hrunning
        simp at hrunning
      rw [hnone]
      exact List.nil_sublist _

/-! ## Time passes by a closed timer -/

namespace World

variable {w : World}

theorem tick_of_closed (h : ∀ t, w.timer = some t → t.status = .closed) (level : Nat) :
    w.tick level = w := by
  unfold tick
  split
  · rfl
  · next t ht => simp only [h t ht]

theorem ticks_of_closed (h : ∀ t, w.timer = some t → t.status = .closed) (level n : Nat) :
    ticks level n w = w := by
  induction n with
  | zero => rfl
  | succ n ih => rw [ticks, tick_of_closed h, ih]

theorem overdue_of_closed (h : ∀ t, w.timer = some t → t.status = .closed) (level : Nat) :
    w.overdue level = 0 := by
  unfold overdue
  cases ht : w.timer with
  | none => rfl
  | some t => simp [Timer.ticksBy, h t ht]

/-- For a closed timer the clock moves on, and that is all. -/
theorem advance_of_closed (h : ∀ t, w.timer = some t → t.status = .closed) (us : Nat) :
    w.advance us = { w with clockUs := w.clockUs + us } := by
  have hsettle : w.settle = w := by
    have hdue : w.isDue = false := by
      unfold isDue
      rw [List.any_eq_false]
      intro level _
      simp [overdue_of_closed h level]
    unfold settle settleWithin
    rw [hdue]
    rfl
  have hnone := earliestTickUs_of_closed h
  have hwithin (n : Nat) : advanceWithin (w.clockUs + us) (n + 1) w = w := by
    simp only [advanceWithin, hsettle, hnone]
  simp only [advance, hwithin, Nat.max_eq_right (Nat.le_add_right w.clockUs us)]

end World

/-- The world after some commands is one that moves lead to. -/
theorem World.after_moves (w : World) (commands : List Command) :
    Moves .free ⟨w, none, none⟩ ⟨w.after commands, none, none⟩ := by
  induction commands generalizing w with
  | nil => exact .refl
  | cons c rest ih =>
    have hstep := step_moves_of_open Law.free_open
      (fun us => advance_moves trivial (fun _ _ => trivial) (allBodies_free w) us) c
    exact hstep.trans (ih (w.step c).2)

/-! ## The end of a timer -/

/-- **Closing a timer is final.** A timer that is closed, in the middle of a tick or outside of one,
or that is dropped, is over for good, whatever happens. Its clockwork, the tick counters of all
levels included, stays as it is, and slots only ever receive entries. All looks at its entries, and
so all launches, are among those that the tick in progress had still ahead: they concern what it
had drained before, in that order and once each. Ticks that are overdue do nothing any more, and
time passes it by. -/
theorem closing_final :
    (∀ {m : Moment} {t : Timer}, m.Arises → m.world.timer = some t → t.status = .closed →
      m.world.Over t.id)
    ∧ (∀ {w : World} {t : Timer}, Moment.Arises ⟨w, none, none⟩ → w.timer = some t →
      w.dropTimer.Over t.id)
    ∧ ∀ {m m' : Moment} {id : TimerId}, m.Arises → m.world.Over id → Moves .free m m' →
      m'.world.Over id
      ∧ (∀ t', m'.world.timer = some t' → t'.id = id → ∃ t, m.world.timer = some t
        ∧ t'.works = t.works ∧ ∀ level k, t.slot level k <+: t'.slot level k)
      ∧ (∃ looks, m'.world.looks = m.world.looks ++ looks
        ∧ (looks.filter fun look => m'.world.isOf id look.1).Sublist m.ahead)
      ∧ ((∀ t', m'.world.timer = some t' → t'.id = id) →
        (∀ level n, World.ticks level n m'.world = m'.world)
        ∧ ∀ us, m'.world.advance us = { m'.world with clockUs := m'.world.clockUs + us }) := by
  refine ⟨fun h ht hclosed => h.custody.over_of_closed ht hclosed,
    fun {w t} h ht => World.Custody.over_dropTimer h.custody ht,
    fun {m m' id} h hover hmoves => ?_⟩
  -- once a timer is over it stays so, and the three bounds are read off that
  have hrests : m.world.Rests id m'.world := Moves.rests hmoves hover
  have hover' := hover.rests hrests
  refine ⟨hover', fun t' ht' hid => ?_, Moves.looks hmoves h hover, fun hown => ?_⟩
  · obtain ⟨t, ht, hworks, -, hslots⟩ := hrests.left ht' hid
    exact ⟨t, ht, hworks, hslots⟩
  · have hclosed : ∀ t', m'.world.timer = some t' → t'.status = .closed :=
      fun t' ht' => hover'.closed ht' (hown t' ht')
    exact ⟨World.ticks_of_closed hclosed, World.advance_of_closed hclosed⟩

/-- Two jobs are in the batch of one tick, and two more ticks are overdue. The body of the first job
closes the timer. -/
def closingDue : World := World.after {}
  [.create { slots := 4, levels := 1, intervalMs := 10 },
    .act (.schedule "a" (.repeating 10) none [] [[.timer .close]]),
    .act (.schedule "b" (.repeating 10) none [] []), .act (.jump 30000)]

/-- What is done with the timer once it is closed. -/
def afterClosing : List Command :=
  [.act (.timer .start), .act (.control "a" .reset),
    .act (.schedule "c" (.repeating 10) none [] []), .advance 50000]

/-- The tick launches the second job, too, and that is the last launch there is. -/
theorem closing_final_in_batch : ∃ m : Moment, m.Arises ∧ m.world.Over 0
    ∧ closingDue.overdue 0 = 3 ∧ m.ahead = [(1, 0, 1, 30)]
    ∧ Moves .free m ⟨(closingDue.tick 0).after afterClosing, none, none⟩
    ∧ ((closingDue.tick 0).after afterClosing).Over 0
    ∧ (∃ looks, ((closingDue.tick 0).after afterClosing).looks = m.world.looks ++ looks
      ∧ (looks.filter fun look => ((closingDue.tick 0).after afterClosing).isOf 0 look.1).Sublist
        [(1, 0, 1, 30)])
    ∧ .evaluated 1 0 1 30 (.run false) ∈ ((closingDue.tick 0).after afterClosing).journal
    ∧ ((closingDue.tick 0).after afterClosing).slot 0 2 = [0, 1, 2] := by
  obtain ⟨t, ht⟩ : ∃ t, closingDue.timer = some t := Option.isSome_iff_exists.1 (by decide +kernel)
  have hrunning : closingDue.timer.map (·.status) = some .running := by decide +kernel
  have hwheels : (closingDue.timer.bind (·.wheels[0]?)).isSome := by decide +kernel
  have hbatch : (closingDue.timer.bind (·.wheels[0]?)).map
      (fun wheel => (wheel.ticks, wheel.nextBatch.toList)) = some (0, [0, 1]) := by decide +kernel
  have hclosed : (closingDue.timer.bind (·.wheels[0]?)).map (fun wheel =>
      ((closingDue.drained 0 wheel).dispatch 0 1 30 0).timer.map fun t => (t.id, t.status))
        = some (some (0, .closed)) := by decide +kernel
  rw [ht] at hrunning hwheels hbatch hclosed
  obtain ⟨wheel, hwheel⟩ := Option.isSome_iff_exists.1 hwheels
  replace hwheel : t.wheels[0]? = some wheel := hwheel
  simp only [Option.bind_some, Option.map_some, hwheel, Option.some.injEq, Prod.mk.injEq]
    at hrunning hbatch hclosed
  obtain ⟨hticks, hbatch⟩ := hbatch
  obtain ⟨t', ht', hclosed⟩ := Option.map_eq_some_iff.1 hclosed
  obtain ⟨hid, hstatus⟩ := Prod.mk.inj hclosed
  have hnow : closingDue.nowMs = 30 := by decide +kernel
  -- the first job has been dealt with, the second one is still ahead
  have hdrain : Move .free ⟨closingDue, none, none⟩ _ :=
    .drain closingDue 0 t wheel trivial ht hrunning hwheel (by decide +kernel)
  rw [hticks, hbatch, hnow] at hdrain
  have hfirst : Moves .free _ ⟨(closingDue.drained 0 wheel).dispatch 0 1 30 0,
      some ⟨0, 1, 30, [1], none⟩, none⟩ :=
    dispatch_moves (s := ⟨0, 1, 30, [0, 1], none⟩) rfl rfl (allBodies_free _)
  have hsecond : Moves .free _ ⟨((closingDue.drained 0 wheel).dispatch 0 1 30 0).dispatch 0 1 30 1,
      some ⟨0, 1, 30, [], none⟩, none⟩ :=
    dispatch_moves (s := ⟨0, 1, 30, [1], none⟩) rfl rfl (allBodies_free _)
  have htick : closingDue.tick 0
      = ((closingDue.drained 0 wheel).dispatch 0 1 30 0).dispatch 0 1 30 1 := by
    rw [World.tick_eq ht hrunning hwheel, hbatch, hticks, hnow]
    rfl
  have hlater : Moves .free ⟨(closingDue.drained 0 wheel).dispatch 0 1 30 0,
      some ⟨0, 1, 30, [1], none⟩, none⟩ ⟨(closingDue.tick 0).after afterClosing, none, none⟩ := by
    rw [htick]
    exact (hsecond.tail (.done _ _ rfl rfl)).trans (World.after_moves _ afterClosing)
  have harises : Moment.Arises ⟨(closingDue.drained 0 wheel).dispatch 0 1 30 0,
      some ⟨0, 1, 30, [1], none⟩, none⟩ :=
    (((World.Reachable.fresh 3).after _).arises.tail hdrain).trans hfirst
  have hover := closing_final.1 harises ht' hstatus
  rw [hid] at hover
  obtain ⟨hover', -, hlooks, -⟩ := closing_final.2.2 harises hover hlater
  exact ⟨_, harises, hover, by decide +kernel, rfl, hlater, hover', hlooks, by decide +kernel,
    by decide +kernel⟩

end TimingWheel
