import TimingWheel.Proofs.OnPlan
import TimingWheel.Proofs.Moves

/-!
# Counting the starts of bodies

A job counts how often its body was started. Where every entry has a job of its own, whose body does
nothing, and no execution is held back, a launch is one start of this body, and nothing else is. So
the jobs count what the histories of their entries tell of launches.

* **`World.Kept`** — what ticks keep is kept while time passes (`World.Kept.advance`).
* **`World.Tallies`** — every job counts the launches of its entry. Ticks keep this
  (`World.Tallies.kept`), and so does the scheduling of one more such job
  (`World.Tallies.schedule`).
-/

namespace TimingWheel

namespace World

/-! ## While time passes -/

/-- What is kept by the ticks of a timer and by its clock. -/
structure Kept (p : World → Prop) : Prop where
  dispatch : ∀ {w : World} (level tick nowMs : Nat) (i : EntryId), p w →
    p (w.dispatch level tick nowMs i)
  drained : ∀ {w : World} (level : Nat) (wheel : Wheel), p w → p (w.drained level wheel)
  serve : ∀ {w : World} (level : Nat), p w → p (w.serve level)
  clock : ∀ {w : World} (us : Nat), p w → p { w with clockUs := us }

namespace Kept

variable {p : World → Prop} {w : World}

/-- It is kept by a batch, by induction on the entries in hand. -/
theorem batch (h : Kept p) (level tick nowMs : Nat) (batch : List EntryId) : ∀ {w : World}, p w →
    p (batch.foldl (World.dispatch level tick nowMs) w) := by
  induction batch with
  | nil => exact id
  | cons i rest ih => exact fun hw => ih (h.dispatch level tick nowMs i hw)

theorem tick (h : Kept p) (hw : p w) (level : Nat) : p (w.tick level) := by
  unfold World.tick
  split
  · exact hw
  · split
    · rw [World.turnWheel_eq]
      exact h.batch _ _ _ _ (h.drained level _ hw)
    · exact h.serve level hw
    · exact hw

theorem ticks (h : Kept p) (level n : Nat) : ∀ {w : World}, p w → p (World.ticks level n w) := by
  induction n with
  | zero => exact id
  | succ n ih => exact fun hw => ih (h.tick hw level)

/-- It is kept as a level catches up with the clock, round by round. -/
theorem catchUp (h : Kept p) (level rounds : Nat) : ∀ {w : World}, p w →
    p (World.catchUp level rounds w) := by
  induction rounds with
  | zero => exact id
  | succ rounds ih =>
    intro w hw
    unfold World.catchUp
    split
    · exact hw
    · exact ih (h.ticks level _ hw)

/-- It is kept as each of some levels catches up in turn. -/
theorem serveAll (h : Kept p) (levels : List Nat) : ∀ {w : World}, p w →
    p (w.serveAll levels) := by
  unfold World.serveAll
  induction levels with
  | nil => exact id
  | cons level rest ih => exact fun hw => ih (h.catchUp level _ hw)

/-- It is kept as everything that is due is dealt with, pass by pass. -/
theorem settleWithin (h : Kept p) (passes : Nat) : ∀ {w : World}, p w →
    p (World.settleWithin passes w) := by
  induction passes with
  | zero => exact id
  | succ passes ih =>
    intro w hw
    unfold World.settleWithin
    split
    · exact ih (h.serveAll _ hw)
    · exact hw

/-- It is kept as the clock advances from one wake-up to the next. -/
theorem advanceWithin (h : Kept p) (targetUs n : Nat) : ∀ {w : World}, p w →
    p (World.advanceWithin targetUs n w) := by
  induction n with
  | zero => exact id
  | succ n ih =>
    intro w hw
    have hsettle : p w.settle := h.settleWithin _ hw
    unfold World.advanceWithin
    simp only
    split
    · exact hsettle
    · split
      · exact ih (h.clock _ hsettle)
      · exact hsettle

/-- **What ticks keep is kept while time passes.** -/
theorem advance (h : Kept p) (hw : p w) (us : Nat) : p (w.advance us) :=
  h.clock _ (h.advanceWithin _ _ hw)

end Kept

end World

/-! ## Tasks and what is told -/

@[simp] theorem Entry.task_evaluate (e : Entry) (nowMs : Nat) :
    (e.evaluate nowMs).2.task = e.task := by
  have hsettled : e.settleReset.task = e.task := by
    unfold settleReset
    split <;> rfl
  have hlook := e.evaluated nowMs
  generalize e.evaluate nowMs = look at hlook
  cases hlook with
  | early alive wait => exact hsettled
  | busy alive due active singleton inFlight => exact hsettled
  | _ => rfl

@[simp] theorem Entry.task_complete (e : Entry) : e.complete.task = e.task := by
  unfold complete
  simp only
  split
  · rfl
  · split <;> rfl

/-- A number of launches of the entry is told, and nothing that interferes with it. -/
structure Page.Serves (launches : Nat) (p p' : Page) : Prop where
  task : p'.entry.task = p.entry.task
  told : TellsMore (·.interferes = false) p.history p'.history
  launched : (launchTimes p'.history).length = (launchTimes p.history).length + launches

namespace Page

variable {n n' : Nat} {p p' p'' : Page}

theorem Serves.trans (h : p.Serves n p') (h' : p'.Serves n' p'') : p.Serves (n + n') p'' :=
  ⟨h'.task.trans h.task, h.told.trans h'.told, by rw [h'.launched, h.launched, Nat.add_assoc]⟩

/-- To tell something that neither interferes nor launches serves the entry with nothing. -/
theorem serves_tell (p : Page) (ev : Event) (hcalm : ev.interferes = false)
    (hidle : ev.launchMs? = none) : p.Serves 0 (p.tell ev) :=
  ⟨rfl, (TellsMore.refl _).cons hcalm, congrArg List.length (launchTimes_cons_of_none hidle _)⟩

/-- Without a verdict to run a look serves the entry with nothing. -/
theorem serves_look (p : Page) (i : EntryId) (level tick : Nat) {nowMs : Nat}
    (idle : ∀ last, (p.entry.evaluate nowMs).1 ≠ .run last) :
    p.Serves 0 (p.look i level tick nowMs) := by
  refine ⟨p.entry.task_evaluate nowMs, (TellsMore.refl _).cons rfl,
    congrArg List.length (launchTimes_cons_of_none ?_ _)⟩
  cases hverdict : (p.entry.evaluate nowMs).1 with
  | run last => exact absurd hverdict (idle last)
  | _ => rfl

/-- With a verdict to run the look is told as one launch. -/
theorem serves_look_run (p : Page) (i : EntryId) (level tick : Nat) {nowMs : Nat} {last : Bool}
    (runs : (p.entry.evaluate nowMs).1 = .run last) :
    p.Serves 1 (p.look i level tick nowMs) := by
  refine ⟨p.entry.task_evaluate nowMs, (TellsMore.refl _).cons rfl, ?_⟩
  show (launchTimes (.evaluated i level tick nowMs (p.entry.evaluate nowMs).1 :: _)).length = _
  rw [runs, launchTimes_cons_of_some rfl, List.length_append]
  rfl

/-- An execution that ends serves the entry with nothing more. -/
theorem serves_complete (p : Page) (i : EntryId) : p.Serves 0 (p.complete i) := by
  have hend : p.Serves 0 ((p.modify (·.complete)).tell (.completed i)) :=
    ⟨p.entry.task_complete, (TellsMore.refl _).cons rfl,
      congrArg List.length (launchTimes_cons_of_none rfl _)⟩
  unfold complete
  simp only
  split
  · exact hend.trans (serves_tell _ _ rfl rfl)
  · exact hend

theorem task_registered (i : EntryId) (r : Registration) (task : Task) (owner nowMs : Nat)
    (aim : Nat → Nat × Nat) : (registered i r task owner nowMs aim).entry.task = task := by
  unfold registered
  simp only
  split <;> rfl

/-- Nothing that the wheels do with an entry interferes with it or launches it. -/
theorem Handled.serves (h : p.Handled p') : p.Serves 0 p' := by
  refine ⟨congrArg (·.task) h.terms, h.told.mono ?_, ?_⟩
  · rintro e ⟨i, rfl⟩
    rfl
  · obtain ⟨events, htold, hevents⟩ := h.told
    rw [htold]
    have hnone : events.filterMap Event.launchMs? = [] := by
      rw [List.filterMap_eq_nil_iff]
      intro e he
      obtain ⟨i, rfl⟩ := hevents e he
      rfl
    simp only [launchTimes, List.filterMap_append, hnone, List.nil_append, Nat.add_zero]

end Page

/-! ## Jobs that count launches -/

namespace World

theorem Still.isSome_timer {w w' : World} (h : w.Still w') (hthere : w.timer.isSome = true) :
    w'.timer.isSome = true := by
  obtain ⟨t, ht⟩ := Option.isSome_iff_exists.1 hthere
  obtain ⟨t', ht', -⟩ := h.timer_after ht
  rw [ht']
  rfl

/-- The entry has a job of its own, whose body does nothing and was started as often as the entry
was launched, and nobody interfered with the entry. -/
structure TalliesOf (w : World) (i : EntryId) (e : Entry) : Prop where
  task : e.task = .body i
  job : ∃ job, w.jobs[i]? = some job ∧ job.script = {}
    ∧ job.starts = (launchTimes (w.history i)).length
  calm : ∀ ev ∈ w.history i, ev.interferes = false

/-- Every one of a number of jobs counts the launches of its entry. -/
structure Tallies (jobs : Nat) (w : World) : Prop where
  there : w.timer.isSome = true
  holding : w.holding = false
  held : w.held = []
  size : w.jobs.size = jobs
  each : ∀ {i : EntryId} {e : Entry}, w.entries[i]? = some e → w.TalliesOf i e

namespace Tallies

variable {n launches : Nat} {w w' : World} {i : EntryId} {p p' : Page}

/-- One entry was launched so many times, and its body was started as often. -/
theorem of_serves (h : w.Tallies n) (hpage : w.page i = some p) (hpage' : w'.page i = some p')
    (hserves : p.Serves launches p') (hspares : ∀ {j}, i ≠ j → Spares j w w')
    (there : w'.timer.isSome = true) (holding : w'.holding = false) (held : w'.held = [])
    (size : w'.jobs.size = n) (hothers : ∀ {j}, i ≠ j → w'.jobs[j]? = w.jobs[j]?)
    (hown : ∀ {job}, w.jobs[i]? = some job →
      w'.jobs[i]? = some { job with starts := job.starts + launches }) : w'.Tallies n := by
  refine ⟨there, holding, held, size, fun {j e} he => ?_⟩
  -- the entry that was served has started as often as it was launched; the others are spared
  by_cases hij : i = j
  · subst hij
    obtain ⟨hentry, hhistory, -⟩ := page_eq_some.1 hpage
    obtain ⟨hentry', hhistory', -⟩ := page_eq_some.1 hpage'
    obtain rfl : p'.entry = e := Option.some.inj (hentry'.symm.trans he)
    have hbefore := h.each hentry
    obtain ⟨job, hjob, hscript, hstarts⟩ := hbefore.job
    refine ⟨hserves.task.trans hbefore.task, ⟨_, hown hjob, hscript, ?_⟩, fun ev hev => ?_⟩
    · show job.starts + launches = _
      rw [← hhistory', hserves.launched, hhistory, hstarts]
    · obtain ⟨events, htold, hevents⟩ := hserves.told
      rw [← hhistory', htold, List.mem_append, hhistory] at hev
      exact hev.elim (hevents ev) (hbefore.calm ev)
  · obtain ⟨hentry, hhistory⟩ := hspares hij
    have hbefore := h.each (hentry.symm.trans he)
    refine ⟨hbefore.task, ?_, ?_⟩
    · rw [hothers hij, hhistory]
      exact hbefore.job
    · rw [hhistory]
      exact hbefore.calm

/-- An entry is dealt with while the timer, the jobs and the held executions stay as they are. -/
theorem of_aside (h : w.Tallies n) (haside : w.Aside w') (hpage : w.page i = some p)
    (hpage' : w'.page i = some p') (hserves : p.Serves 0 p')
    (hspares : ∀ {j}, i ≠ j → Spares j w w') : w'.Tallies n := by
  refine h.of_serves hpage hpage' hserves hspares ?_ (haside.holding.trans h.holding)
    (haside.held.trans h.held) ?_ ?_ ?_
  · exact haside.isSome_timer h.there
  · rw [haside.jobs]
    exact h.size
  · rw [haside.jobs]
    exact fun _ => rfl
  · rw [haside.jobs]
    exact id

/-- Nothing is done but what concerns no entry. -/
theorem of_quiet (h : w.Tallies n) {journal : List Event} (hquiet : w.Quiet journal)
    {timer : Option Timer} (hthere : timer.isSome = true) (clockUs : Nat) :
    Tallies n { w with clockUs, timer, journal } := by
  have hspares (i : EntryId) := hquiet.spares (i := i) clockUs timer w.timers
  refine ⟨hthere, h.holding, h.held, h.size, fun {i e} he => ?_⟩
  have hbefore := h.each (i := i) he
  obtain ⟨-, hhistory⟩ := hspares i
  refine ⟨hbefore.task, ?_, ?_⟩
  · rw [hhistory]
    exact hbefore.job
  · rw [hhistory]
    exact hbefore.calm

/-- The body of an entry starts and ends. -/
theorem execute_of_idle {e : Entry} (he : w.entries[i]? = some e) (htask : e.task = .body i)
    {job : Job} (hjob : w.jobs[i]? = some job) (hscript : job.script = {}) :
    (w.execute i).2 = (w.beginBody i i job.label).complete i := by
  have hround : job.script.round job.starts = [] := by rw [hscript]; rfl
  have houtcome : job.script.outcome job.starts = .done := by rw [hscript]; rfl
  unfold World.execute World.invoke
  cases w.nesting <;>
    simp only [he, htask, hjob, hround, houtcome, List.foldl_nil, conclude]

/-- An entry is launched, its body starts and ends, and the wheels deal with the entry. -/
theorem launch (h : w.Tallies n) (level tick : Nat) {nowMs : Nat} {last : Bool}
    (hpage : w.page i = some p) (runs : (p.entry.evaluate nowMs).1 = .run last) :
    (w.dispatch level tick nowMs i).Tallies n := by
  let s : Sweep := ⟨level, tick, nowMs, [], none⟩
  have he := (page_eq_some.1 hpage).1
  obtain ⟨htask, ⟨job, hjob, hscript, -⟩, -⟩ := h.each he
  let w₁ := w.launching s i last (p.entry.evaluate nowMs).2
  have haside₁ : w.Aside w₁ := World.launching_aside h.holding
  have hpage₁ : w₁.page i = some (p.look i level tick nowMs) := page_launching hpage s runs
  have hjob₁ : w₁.jobs[i]? = some job := by rw [haside₁.jobs]; exact hjob
  let w₂ := w₁.beginBody i i job.label
  have hpage₂ : w₂.page i
      = some ((p.look i level tick nowMs).tell (.started i i job.label w₁.clockUs)) :=
    page_tell (w := { w₁ with jobs := w₁.jobs.modify i fun j =>
      { j with starts := j.starts + 1 } }) hpage₁ rfl
  have hthere₂ : w₂.timer.isSome = true := haside₁.isSome_timer h.there
  -- what is left of the dispatch
  have heq : w.dispatch level tick nowMs i = (w₂.complete i).puttingBack nowMs i last := by
    have hdispatch := World.dispatch_of_run s he (Prod.ext runs rfl)
    rw [h.holding, if_neg (by decide), execute_of_idle (page_eq_some.1 hpage₁).1
      ((p.entry.task_evaluate nowMs).trans htask) hjob₁ hscript] at hdispatch
    exact hdispatch
  have haside₂ : w₂.Aside ((w₂.complete i).puttingBack nowMs i last) :=
    (w₂.complete_aside i).trans (puttingBack_aside _ nowMs i last)
  have hpage' := page_puttingBack (page_complete hpage₂)
    ((w₂.complete_aside i).isSome_timer hthere₂) nowMs last
  have hserves := (((p.serves_look_run i level tick runs).trans
    (Page.serves_tell _ (.started i i job.label w₁.clockUs) rfl rfl)).trans
    (Page.serves_complete _ i)).trans (Page.handled_putBack _ i nowMs last).serves
  have hjobs : ∀ j, ((w₂.complete i).puttingBack nowMs i last).jobs[j]?
      = if i = j then w.jobs[j]?.map fun job => { job with starts := job.starts + 1 }
        else w.jobs[j]? := by
    intro j
    rw [haside₂.jobs, ← haside₁.jobs]
    exact Array.getElem?_modify
  rw [heq]
  refine h.of_serves hpage hpage' hserves (fun hij => ?_) (haside₂.isSome_timer hthere₂)
    (haside₂.holding.trans (haside₁.holding.trans h.holding))
    (haside₂.held.trans (haside₁.held.trans h.held)) ?_ (fun hij => ?_) fun hjob => ?_
  · have htell := w₁.tell_spares (e := .started i i job.label w₁.clockUs)
      (by simpa [Event.about] using hij)
    have hbegin : Spares _ w₁ w₂ := ⟨htell.entry, htell.history⟩
    exact (((w.launching_spares hij s last _).trans hbegin).trans
      (w₂.complete_spares hij)).trans (puttingBack_spares _ hij nowMs last)
  · rw [haside₂.jobs]
    show (w₁.jobs.modify i _).size = n
    rw [Array.size_modify, haside₁.jobs]
    exact h.size
  · rw [hjobs, if_neg hij]
  · rw [hjobs, if_pos rfl, hjob]
    rfl

/-- The tallies agree after an entry of the batch is dealt with, whoever it is. -/
theorem dispatch (h : w.Tallies n) (level tick nowMs : Nat) (i : EntryId) :
    (w.dispatch level tick nowMs i).Tallies n := by
  cases he : w.entries[i]? with
  | none =>
    unfold World.dispatch
    rw [he]
    exact h
  | some e =>
  obtain ⟨p, hpage⟩ : ∃ p, w.page i = some p := ⟨_, by rw [page, he]; rfl⟩
  obtain rfl : p.entry = e := Option.some.inj ((page_eq_some.1 hpage).1.symm.trans he)
  by_cases hruns : ∃ last, (p.entry.evaluate nowMs).1 = .run last
  · obtain ⟨last, hlast⟩ := hruns
    exact h.launch level tick hpage hlast
  · have rests : ∀ last, (p.entry.evaluate nowMs).1 ≠ .run last := fun last hlast =>
      hruns ⟨last, hlast⟩
    exact h.of_aside (w.dispatch_aside he rests level tick) hpage
      (page_dispatch hpage rests h.there level tick)
      ((p.serves_look i level tick rests).trans (Page.handled_rest _ i nowMs _).serves)
      fun hij => dispatch_spares hij he rests level tick

theorem size_le (h : w.Tallies n) : w.entries.size ≤ n := by
  apply Nat.le_of_not_lt
  intro hlt
  obtain ⟨-, ⟨job, hjob, -⟩, -⟩ := h.each (Array.getElem?_eq_getElem hlt)
  have hbound := (Array.getElem?_eq_some_iff.1 hjob).1
  rw [h.size] at hbound
  omega

/-- A job whose body does nothing is added, and an entry for it. -/
theorem withJob (h : w.Tallies n) (hsize : w.entries.size = n) (hnew : w.history n = [])
    (handle : String) (r : Registration) :
    ((w.withJob handle {}).register r (.body w.jobs.size)).Tallies (n + 1)
      ∧ ((w.withJob handle {}).register r (.body w.jobs.size)).entries.size = n + 1 := by
  subst hsize
  obtain ⟨t, ht⟩ := Option.isSome_iff_exists.1 h.there
  have haside := register_aside (w.withJob handle {}) r (.body w.jobs.size)
  have hspares : ∀ {j}, w.entries.size ≠ j →
      Spares j w ((w.withJob handle {}).register r (.body w.jobs.size)) := fun hj =>
    have hregister := register_spares (w.withJob handle {}) hj r (.body w.jobs.size)
    ⟨hregister.entry, hregister.history⟩
  have hpage : ((w.withJob handle {}).register r (.body w.jobs.size)).page w.entries.size
      = some (.registered w.entries.size r (.body w.jobs.size) t.id w.nowMs w.aim) :=
    @World.page_register (w.withJob handle {}) t ht hnew r (.body w.jobs.size)
  obtain ⟨hentry, hhistory, -⟩ := page_eq_some.1 hpage
  have hjob (j : JobId) : ((w.withJob handle {}).register r (.body w.jobs.size)).jobs[j]?
      = if j = w.jobs.size then some { label := handle, script := {} } else w.jobs[j]? := by
    rw [haside.jobs]
    exact Array.getElem?_push
  generalize (w.withJob handle {}).register r (.body w.jobs.size) = w' at *
  refine ⟨⟨haside.isSome_timer h.there, haside.holding.trans h.holding, haside.held.trans h.held,
    ?_, fun {j e} he => ?_⟩, ?_⟩
  · rw [haside.jobs]
    show (w.jobs.push _).size = _
    rw [Array.size_push, h.size]
  · by_cases hj : w.entries.size = j
    -- the new job has not started, and its entry was not launched
    · subst hj
      obtain rfl := Option.some.inj (hentry.symm.trans he)
      refine ⟨?_, ⟨_, (hjob _).trans (if_pos h.size.symm), rfl, ?_⟩, fun ev hev => ?_⟩
      · rw [Page.task_registered, h.size]
      · rw [← hhistory]
        rfl
      · rw [← hhistory] at hev
        obtain rfl := List.mem_singleton.1 hev
        rfl
    · obtain ⟨hentry', hhistory'⟩ := hspares hj
      have hbefore := h.each (hentry'.symm.trans he)
      have hne : j ≠ w.jobs.size := by
        rw [h.size]
        exact Ne.symm hj
      refine ⟨hbefore.task, ?_, ?_⟩
      · rw [hjob, if_neg hne, hhistory']
        exact hbefore.job
      · rw [hhistory']
        exact hbefore.calm
  · have hlt : w.entries.size < w'.entries.size := (Array.getElem?_eq_some_iff.1 hentry).1
    -- one entry was added, and no more
    have hnone : w'.entries[w.entries.size + 1]? = none := by
      rw [(hspares (Nat.ne_of_lt (Nat.lt_succ_self _))).entry]
      simp
    have hle := Array.getElem?_eq_none_iff.1 hnone
    omega

/-- Handles are no matter of jobs and entries. -/
theorem assign (h : w.Tallies n) (handle : String) (i : EntryId) :
    (w.assign handle i).Tallies n :=
  ⟨h.there, h.holding, h.held, h.size, fun he =>
    have hbefore := h.each he
    ⟨hbefore.task, hbefore.job, hbefore.calm⟩⟩

/-- A job whose body does nothing is scheduled. -/
theorem schedule (h : w.Tallies n) (hsize : w.entries.size = n) (hnew : w.history n = [])
    (handle : String) (r : Registration) : (w.schedule handle r none {}).Tallies (n + 1)
      ∧ (w.schedule handle r none {}).entries.size = n + 1 := by
  obtain ⟨htallies, hcount⟩ := h.withJob hsize hnew handle r
  exact ⟨htallies.assign handle w.entries.size, hcount⟩

/-- **Ticks keep that jobs count launches.** -/
theorem kept (n : Nat) : Kept (Tallies n) where
  dispatch level tick nowMs i h := h.dispatch level tick nowMs i
  drained {w} level wheel h := by
    obtain ⟨journal, hquiet, heq⟩ := w.drained_eq level wheel
    rw [heq]
    exact h.of_quiet hquiet (by rw [Option.isSome_map]; exact h.there) w.clockUs
  serve {w} level h := by
    rw [w.serve_eq]
    exact h.of_quiet w.quiet_refl (by rw [Option.isSome_map]; exact h.there) w.clockUs
  clock {w} us h := h.of_quiet w.quiet_refl h.there us

end Tallies

end World

end TimingWheel
