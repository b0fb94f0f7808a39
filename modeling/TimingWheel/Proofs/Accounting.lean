import TimingWheel.Proofs.Addition
import TimingWheel.Proofs.Exclusivity
import TimingWheel.Proofs.Plan

/-!
# The account of runs

How often an entry may still run is a count that a launch brings down by one. The owner may set it
anew, and a reset restores the limit, at any time: while executions are in flight, or while the
entry is in the batch of a tick. The history tells what the count has to be.

* **`runsLeft`** — the runs that a history leaves: those granted last, less the launches since.
* **`View.Accounted`** — the invariant: the count is what the history leaves, it was enough for
  every launch, and the launches that took the last run are those that left none.
* **`run_accounting`** — what it says about runs of the world.
-/

namespace TimingWheel

/-! ## What a history tells of runs -/

namespace Event

/-- The limit that the event sets. -/
def limit? : Event → Option Runs
  | .controlled _ (.setRuns runs) => some runs
  | _ => none

/-- Whether the owner grants the entry its runs anew. -/
def grants : Event → Bool
  | .controlled _ (.setRuns _) => true
  | .controlled _ .reset => true
  | _ => false

/-- The event neither grants runs nor takes one. -/
structure Free (e : Event) : Prop where
  grants : e.grants = false
  launch : e.isLaunch = false

/-- An event that grants no runs sets no limit: only `setRuns` sets one, and it grants. -/
theorem limit?_eq_none {e : Event} (h : e.grants = false) : e.limit? = none := by
  cases e with
  | controlled i c => cases c <;> first | rfl | simp [grants] at h
  | _ => rfl

end Event

/-- The limit in force after a history: the one that was set last, or else the one given at the
start. -/
def limitAfter (given : Runs) (history : List Event) : Runs :=
  (history.findSome? Event.limit?).getD given

/-- The runs that were granted last: those given at the start, those that were set, or those that a
reset restored, which are the limit in force then. -/
def grantAfter (given : Runs) : List Event → Runs
  | [] => given
  | .controlled _ (.setRuns runs) :: _ => runs
  | .controlled _ .reset :: before => limitAfter given before
  | _ :: before => grantAfter given before

/-- Executions launched since runs were granted last. -/
def launchesSince (history : List Event) : Nat := launchCount (history.takeWhile fun e => !e.grants)

/-- The runs that a history leaves. -/
def runsLeft (given : Runs) (history : List Event) : Runs :=
  (grantAfter given history).after (launchesSince history)

section

variable {given : Runs} {e : Event} {history : List Event}

/-- The limit in force outlasts every event that does not set it. -/
theorem limitAfter_cons_of_none (h : e.limit? = none) :
    limitAfter given (e :: history) = limitAfter given history := by
  rw [limitAfter, List.findSome?_cons, h, limitAfter]

/-- Nobody grants an entry anything but the limit in force. -/
theorem grantAfter_eq (given : Runs) (history : List Event) :
    grantAfter given history = limitAfter given history := by
  induction history with
  | nil => rfl
  | cons e before ih =>
    cases e with
    | controlled i c => cases c <;> first | rfl | exact ih
    | _ => exact ih

/-- A grant starts the count of launches anew. -/
theorem launchesSince_of_grants (h : e.grants = true) : launchesSince (e :: history) = 0 := by
  rw [launchesSince, List.takeWhile_cons_of_neg (by simp [h])]
  rfl

/-- Between grants the count goes up by one at each launch. -/
theorem launchesSince_cons (h : e.grants = false) :
    launchesSince (e :: history) = launchesSince history + e.isLaunch.toNat := by
  rw [launchesSince, List.takeWhile_cons_of_pos (by simp [h]), launchCount, List.countP_cons,
    launchesSince, launchCount]
  cases e.isLaunch <;> rfl

/-- Events that neither grant nor take runs change neither the limit in force nor the number of
launches since the grant. Induction on the events. -/
theorem limitAfter_of_free (given : Runs) {history' : List Event}
    (h : TellsMore Event.Free history history') :
    limitAfter given history' = limitAfter given history
      ∧ launchesSince history' = launchesSince history := by
  obtain ⟨events, rfl, hevents⟩ := h
  induction events with
  | nil => exact ⟨rfl, rfl⟩
  | cons e events ih =>
    obtain ⟨hfree, hrest⟩ := List.forall_mem_cons.1 hevents
    obtain ⟨hlimit, hlaunches⟩ := ih hrest
    refine ⟨(limitAfter_cons_of_none (Event.limit?_eq_none hfree.grants)).trans hlimit, ?_⟩
    show launchesSince (e :: (events ++ history)) = _
    rw [launchesSince_cons hfree.grants, hfree.launch, hlaunches]
    rfl

/-- As long as runs are neither granted nor taken, the same runs are left. -/
theorem runsLeft_of_free (given : Runs) {history' : List Event}
    (h : TellsMore Event.Free history history') :
    runsLeft given history' = runsLeft given history := by
  obtain ⟨hlimit, hlaunches⟩ := limitAfter_of_free given h
  rw [runsLeft, runsLeft, grantAfter_eq, grantAfter_eq, hlimit, hlaunches]

end

/-- Nothing is left after `n` runs exactly if the grant did not allow an `n`-th further one. -/
theorem Runs.after_eq_zero {r : Runs} {n : Nat} : r.after n = .left 0 ↔ ¬ r.Allows n := by
  rw [← r.isSpent_after]
  cases r.after n with
  | unlimited => simp [isSpent]
  | left m => cases m <;> simp [isSpent]

/-- A run can be taken from what is left only if the grant allows one more, and then what is left
is what one more run leaves. -/
theorem Runs.allows_of_consume {r rest : Runs} {n : Nat} (h : (r.after n).consume = some rest) :
    r.Allows n ∧ rest = r.after (n + 1) := by
  have hallows : r.Allows n := by
    apply Classical.byContradiction
    intro hnot
    rw [Runs.after_eq_zero.2 hnot] at h
    simp [consume] at h
  rw [Runs.consume_after hallows] at h
  exact ⟨hallows, (Option.some.inj h).symm⟩

/-! ## What has nothing to do with runs -/

/-- A page on which runs are neither granted nor taken. -/
structure Page.Frugal (p p' : Page) : Prop where
  limit : p'.entry.limit = p.entry.limit
  remaining : p'.entry.remaining = p.entry.remaining
  told : TellsMore Event.Free p.history p'.history

namespace Page

variable {p p' p'' : Page}

theorem Frugal.refl (p : Page) : p.Frugal p := ⟨rfl, rfl, .refl _⟩

theorem Frugal.trans (h : p.Frugal p') (h' : p'.Frugal p'') : p.Frugal p'' :=
  ⟨h'.limit.trans h.limit, h'.remaining.trans h.remaining, h.told.trans h'.told⟩

theorem Frugal.tell (h : p.Frugal p') {e : Event} (he : e.Free) : p.Frugal (p'.tell e) :=
  ⟨h.limit, h.remaining, h.told.cons he⟩

theorem Frugal.modify (h : p.Frugal p') {f : Entry → Entry}
    (hlimit : (f p'.entry).limit = p'.entry.limit)
    (hremaining : (f p'.entry).remaining = p'.entry.remaining) : p.Frugal (p'.modify f) :=
  ⟨hlimit.trans h.limit, hremaining.trans h.remaining, h.told⟩

/-- What the wheels do with an entry is not a run. -/
theorem Handled.frugal (h : p.Handled p') : p.Frugal p' := by
  refine ⟨congrArg (·.limit) h.terms, congrArg (·.remaining) h.terms, h.told.mono fun e he => ?_⟩
  obtain ⟨i, rfl⟩ := he
  exact ⟨rfl, rfl⟩

/-- The way back into a slot is no run either, whoever leads to it. -/
theorem Frugal.reinstall (h : p.Frugal p') (i : EntryId) : p.Frugal (p'.reinstall i) :=
  h.trans (p'.handled_reinstall i).frugal

/-- Controls other than `reset` and `setRuns` leave the runs as they are, also where they stop,
start or close the entry. -/
theorem frugal_control (p : Page) (i : EntryId) {c : Control}
    (hc : (Event.controlled i c).grants = false) : p.Frugal (p.control i c) := by
  have htell : p.Frugal (p.tell (.controlled i c)) := (Frugal.refl p).tell ⟨hc, rfl⟩
  -- the two controls that grant runs are excluded; the others touch the status or the flag only
  cases c with
  | stop =>
    simp only [control]
    split
    · exact htell
    · refine (htell.modify ?_ ?_).tell ⟨rfl, rfl⟩ <;>
        · unfold Entry.stop
          split <;> rfl
  | start =>
    simp only [control]
    split
    · refine ((htell.modify ?_ ?_).tell ⟨rfl, rfl⟩).reinstall i <;>
        · unfold Entry.start
          split <;> rfl
    · exact htell
  | reset => simp [Event.grants] at hc
  | close =>
    simp only [control]
    split
    · exact htell
    · exact (htell.modify rfl rfl).tell ⟨rfl, rfl⟩
  | run => exact htell
  | setRuns runs => simp [Event.grants] at hc
  | setSingleton on => exact htell.modify rfl rfl

/-- However a body ends, its end takes no run: the run was taken at the launch. -/
theorem frugal_conclude (p : Page) (i : EntryId) (outcome : Outcome) :
    p.Frugal (p.conclude i outcome) := by
  have hrefl := Frugal.refl p
  cases outcome with
  | exit => exact (hrefl.modify rfl rfl).tell ⟨rfl, rfl⟩
  | failed reason => exact hrefl.tell ⟨rfl, rfl⟩
  | done => exact hrefl
  | crashed => exact hrefl

end Page

namespace Entry

variable {e : Entry} {nowMs : Nat}

/-- The end of an execution leaves both the limit and the count of runs. -/
theorem runs_complete (e : Entry) :
    e.complete.limit = e.limit ∧ e.complete.remaining = e.remaining := by
  unfold complete
  simp only
  split
  · exact ⟨rfl, rfl⟩
  · split <;> exact ⟨rfl, rfl⟩

/-- A reset that has waited for the wheels leaves both the limit and the count: they were restored
when it was asked for. -/
theorem runs_settleReset (e : Entry) :
    e.settleReset.limit = e.limit ∧ e.settleReset.remaining = e.remaining := by
  unfold settleReset
  split <;> exact ⟨rfl, rfl⟩

/-- A look that launches nothing takes no run. -/
theorem runs_evaluate (idle : ∀ last, (e.evaluate nowMs).1 ≠ .run last) :
    (e.evaluate nowMs).2.limit = e.limit ∧ (e.evaluate nowMs).2.remaining = e.remaining := by
  have hlook := e.evaluated nowMs
  generalize e.evaluate nowMs = look at hlook idle
  cases hlook with
  | ended closed => exact ⟨rfl, rfl⟩
  | early alive wait => exact e.runs_settleReset
  | suspended stopped due => exact ⟨rfl, rfl⟩
  | busy alive due active singleton inFlight => exact e.runs_settleReset
  | spent alive due active none => exact ⟨rfl, rfl⟩
  | launched alive due active free rest left => exact absurd rfl (idle _)

/-- A launch takes one run, and says whether it was the last one. -/
theorem runs_evaluate_run {last : Bool} (runs : (e.evaluate nowMs).1 = .run last) :
    (e.evaluate nowMs).2.limit = e.limit
      ∧ e.remaining.consume = some (e.evaluate nowMs).2.remaining
      ∧ (last = true ↔ e.remaining = .left 1) := by
  obtain ⟨-, -, hlast, rest, hleft, hentry⟩ := Entry.launch_of_run runs
  rw [hentry]
  exact ⟨rfl, hleft, hlast⟩

end Entry

/-- The end of an execution is free of charge, log lines and way back included. -/
theorem Page.frugal_complete (p : Page) (i : EntryId) : p.Frugal (p.complete i) := by
  obtain ⟨hlimit, hremaining⟩ := p.entry.runs_complete
  have hend : p.Frugal ((p.modify (·.complete)).tell (.completed i)) :=
    ((Frugal.refl p).modify hlimit hremaining).tell ⟨rfl, rfl⟩
  simp only [complete]
  split
  · exact hend.tell ⟨rfl, rfl⟩
  · exact hend

/-- A look whose verdict is not to run is free of charge. -/
theorem Page.frugal_look (p : Page) (i : EntryId) (level tick : Nat) {nowMs : Nat}
    (idle : ∀ last, (p.entry.evaluate nowMs).1 ≠ .run last) :
    p.Frugal (p.look i level tick nowMs) := by
  obtain ⟨hlimit, hremaining⟩ := Entry.runs_evaluate idle
  refine ((Frugal.refl p).modify hlimit hremaining).tell ⟨rfl, ?_⟩
  cases hverdict : (p.entry.evaluate nowMs).1 with
  | run last => exact absurd hverdict (idle last)
  | _ => rfl

/-! ## The invariant -/

/-- The entry has the runs that the history leaves. -/
structure View.Accounted (given : Runs) (v : View) : Prop where
  limit : v.entry.limit = limitAfter given v.history
  remaining : v.entry.remaining = runsLeft given v.history
  allowed : ∀ n < launchesSince v.history, (grantAfter given v.history).Allows n
  told : ∀ {i level tick nowMs last before},
    .evaluated i level tick nowMs (.run last) :: before <:+ v.history →
    (last = true ↔ runsLeft given (.evaluated i level tick nowMs (.run last) :: before) = .left 0)

namespace View

variable {given : Runs} {v v' : View}

theorem Added.runs {i : EntryId} {r : Registration} {addedMs : Nat} (h : v.Added i r addedMs) :
    v.entry.limit = r.runs ∧ v.entry.remaining = r.runs := by
  obtain ⟨task, owner, aim, rfl⟩ := h
  unfold Page.registered
  simp only
  split <;> exact ⟨rfl, rfl⟩

/-- An entry that was just added has all the runs of its registration left. -/
theorem Added.accounted {i : EntryId} {r : Registration} {addedMs : Nat}
    (h : v.Added i r addedMs) : v.Accounted r.runs := by
  obtain ⟨hlimit, hremaining⟩ := h.runs
  obtain ⟨task, owner, aim, rfl⟩ := h
  refine ⟨hlimit, hremaining.trans r.runs.after_zero.symm,
    fun n hn => absurd hn (Nat.not_lt_zero n), fun hsuffix => ?_⟩
  -- nothing but the addition is told
  rcases List.suffix_cons_iff.1 hsuffix with heq | hnil
  · simp at heq
  · simp at hnil

/-- What is free of charge keeps the account. -/
theorem Accounted.frugal (h : v.Accounted given) {p : Page} (hp : v.toPage.Frugal p)
    (stage : Stage) (flight : Flight) : Accounted given ⟨p, stage, flight⟩ := by
  obtain ⟨hlimit, hlaunches⟩ := limitAfter_of_free given hp.told
  have hleft := runsLeft_of_free given hp.told
  refine ⟨?_, ?_, ?_, fun {i level tick nowMs last before} hsuffix => ?_⟩
  · rw [hlimit]
    exact hp.limit.trans h.limit
  · rw [hleft]
    exact hp.remaining.trans h.remaining
  · rw [hlaunches, grantAfter_eq, hlimit, ← grantAfter_eq]
    exact h.allowed
  · -- a launch is not among the new events
    obtain ⟨events, htold, hfree⟩ := hp.told
    replace hsuffix : _ <:+ p.history := hsuffix
    rw [htold] at hsuffix
    clear htold
    induction events with
    | nil => exact h.told hsuffix
    | cons e events ih =>
      obtain ⟨hfirst, hrest⟩ := List.forall_mem_cons.1 hfree
      rcases List.suffix_cons_iff.1 hsuffix with heq | hlater
      · rw [← (List.cons.inj heq).1] at hfirst
        exact absurd hfirst.launch (by simp [Event.isLaunch])
      · exact ih hrest hlater

/-- Runs that are granted are runs of the limit in force, and none of them was taken yet. -/
theorem Accounted.grant (h : v.Accounted given) {p : Page} {e : Event} (he : e.grants = true)
    (htold : p.history = e :: v.history)
    (hlimit : p.entry.limit = limitAfter given (e :: v.history))
    (hremaining : p.entry.remaining = p.entry.limit) :
    Accounted given { v with toPage := p } := by
  have hnone : launchesSince (e :: v.history) = 0 := launchesSince_of_grants he
  refine ⟨?_, ?_, fun n hn => ?_, fun {i level tick nowMs last before} hsuffix => ?_⟩
  · show p.entry.limit = limitAfter given p.history
    rw [htold, hlimit]
  · show p.entry.remaining = runsLeft given p.history
    rw [htold, hremaining, hlimit, runsLeft, hnone, Runs.after_zero, grantAfter_eq]
  · replace hn : n < launchesSince p.history := hn
    rw [htold, hnone] at hn
    exact absurd hn (Nat.not_lt_zero n)
  · replace hsuffix : _ <:+ p.history := hsuffix
    rw [htold] at hsuffix
    rcases List.suffix_cons_iff.1 hsuffix with heq | hbefore
    · rw [← (List.cons.inj heq).1] at he
      simp [Event.grants] at he
    · exact h.told hbefore

/-- Every control keeps the account: `setRuns` and `reset` open a new one, the others are free of
charge. -/
theorem Accounted.control (h : v.Accounted given) (i : EntryId) (c : Control) :
    Accounted given { v with toPage := v.toPage.control i c } := by
  cases hc : (Event.controlled i c).grants with
  | false => exact h.frugal (v.toPage.frugal_control i hc) v.stage v.flight
  | true =>
    cases c with
    | setRuns runs => exact h.grant hc rfl rfl rfl
    | reset =>
      -- a reset grants the limit, and then the wheels may take the entry
      have hlimit : v.entry.limit = limitAfter given (.controlled i .reset :: v.history) :=
        h.limit.trans (limitAfter_cons_of_none rfl).symm
      have hgrant : Accounted given { v with
          toPage := (v.toPage.tell (.controlled i .reset)).modify (·.reset) } :=
        h.grant hc rfl hlimit rfl
      refine hgrant.frugal (p := v.toPage.control i .reset) ?_ v.stage v.flight
      exact ((Page.Frugal.refl _).tell ⟨rfl, rfl⟩).reinstall i
    | _ => simp [Event.grants] at hc

/-- A launch takes one of the runs that are left. -/
theorem Accounted.launch (h : v.Accounted given) (i : EntryId) (level tick : Nat) {nowMs : Nat}
    {last : Bool} (runs : (v.entry.evaluate nowMs).1 = .run last) (stage : Stage)
    (flight : Flight) : Accounted given ⟨v.toPage.look i level tick nowMs, stage, flight⟩ := by
  obtain ⟨hlimit, hleft, hlast⟩ := Entry.runs_evaluate_run runs
  have htold : (v.toPage.look i level tick nowMs).history
      -- the launch is told on top of what was told, and no control is: the grant stays
      = .evaluated i level tick nowMs (.run last) :: v.history := by
    rw [← runs]
    rfl
  rw [h.remaining, runsLeft] at hleft hlast
  obtain ⟨hallows, hrest⟩ := Runs.allows_of_consume hleft
  have hgrant : grantAfter given (.evaluated i level tick nowMs (.run last) :: v.history)
      = grantAfter given v.history := rfl
  have hone : launchesSince (.evaluated i level tick nowMs (.run last) :: v.history)
      = launchesSince v.history + 1 := launchesSince_cons rfl
  refine ⟨?_, ?_, fun n hn => ?_, fun {i' level' tick' nowMs' last' before} hsuffix => ?_⟩
  · show (v.entry.evaluate nowMs).2.limit = limitAfter given _
    rw [htold, hlimit, limitAfter_cons_of_none rfl, h.limit]
  · show (v.entry.evaluate nowMs).2.remaining = runsLeft given _
    rw [htold, hrest, runsLeft, hgrant, hone]
  · show (grantAfter given (v.toPage.look i level tick nowMs).history).Allows n
    replace hn : n < launchesSince (v.toPage.look i level tick nowMs).history := hn
    rw [htold, hone] at hn
    rw [htold, hgrant]
    exact hallows.mono (Nat.le_of_lt_succ hn)
  · replace hsuffix : _ <:+ (v.toPage.look i level tick nowMs).history := hsuffix
    rw [htold] at hsuffix
    -- a verdict that was told is this one, with one launch more, or an earlier one
    rcases List.suffix_cons_iff.1 hsuffix with heq | hbefore
    · obtain ⟨hevent, rfl⟩ := List.cons.inj heq
      have hverdict : last' = last := by
        rw [Event.evaluated.injEq, Verdict.run.injEq] at hevent
        exact hevent.2.2.2.2
      rw [hevent, hverdict, hlast, runsLeft, hgrant, hone, Runs.after_eq_one hallows,
        Runs.after_eq_zero]
    · exact h.told hbefore

/-- One step of the world keeps the account of an entry. A launch is the one step that takes a
run, and its verdict says whether that was the last. -/
theorem EntryStep.accounted {law : Law} {i : EntryId} (h : v.EntryStep law i v')
    (hv : v.Accounted given) : v'.Accounted given := by
  have hrefl := Page.Frugal.refl v.toPage
  cases h with
  | passes there nowMs aim gone => exact ⟨hv.limit, hv.remaining, hv.allowed, hv.told⟩
  | byHand => exact hv.frugal (hrefl.tell ⟨rfl, rfl⟩) v.stage v.flight
  | begins job label clockUs => exact hv.frugal (hrefl.tell ⟨rfl, rfl⟩) v.stage v.flight
  | concludes outcome => exact hv.frugal (v.toPage.frugal_conclude i outcome) v.stage v.flight
  | controls c plain => exact hv.control i c
  | completes executing => exact hv.frugal (v.toPage.frugal_complete i) v.stage _
  | takesUp allowed held idle => exact ⟨hv.limit, hv.remaining, hv.allowed, hv.told⟩
  | drains aim free owned => exact ⟨hv.limit, hv.remaining, hv.allowed, hv.told⟩
  | rests level tick nowMs drained idle =>
    have hlook := v.toPage.frugal_look i level tick idle
    exact hv.frugal (hlook.trans (Page.handled_rest _ i nowMs _).frugal) .free v.flight
  | launches level tick nowMs last holding drained idle runs =>
    exact hv.launch i level tick runs _ _
  | putsBack nowMs last launched idle =>
    exact hv.frugal (v.toPage.handled_putBack i nowMs last).frugal .free v.flight

end View

/-- The account of an entry is kept from its addition on. -/
theorem Moment.AddedAs.accounted {law : Law} {m : Moment} {i : EntryId} {r : Registration}
    {addedMs : Nat} (h : m.AddedAs law i r addedMs) {e : Entry}
    (he : m.world.entries[i]? = some e) :
    ∃ v : View, v.Accounted r.runs ∧ v.entry = e ∧ v.history = m.world.history i := by
  obtain ⟨v, hv, haccounted⟩ :=
    h.induction (fun hadded => hadded.accounted) fun _ _ _ _ hstepped hv => hstepped.accounted hv
  exact ⟨v, haccounted, Moment.read_view hv he⟩

/-- As long as nobody sets the limit it is the one of the registration. -/
theorem Moment.AddedAs.limit_eq {law : Law} {m : Moment} {i : EntryId} {r : Registration}
    {addedMs : Nat} (h : m.AddedAs law i r addedMs) {e : Entry}
    (he : m.world.entries[i]? = some e) (hset : ∀ ev ∈ m.world.history i, ev.limit? = none) :
    e.limit = r.runs := by
  obtain ⟨v, hv, rfl, hhistory⟩ := h.accounted he
  rw [hv.limit, hhistory, limitAfter, List.findSome?_eq_none_iff.2 hset, Option.getD_none]

/-! ## Runs of the world -/

/-- **The runs left are those granted last, less the launches since.** Every entry was added with
some registration. The limit in force is the one that was set last, or else the one of the
registration, and the runs were granted last by the addition, by setting them, or by a reset. Runs
without a limit stay without one; otherwise no more executions were launched than were granted, and
as many runs fewer are left, which never look like a missing limit. A launch says that it took the
last run exactly if it left none. Whatever happens without a launch and without runs being set or
restored leaves them as they are: stopping, starting and closing the entry, running its body by
hand, looks that launch nothing, and the end of executions with any outcome. -/
theorem run_accounting {m : Moment} (h : m.Arises) {i : EntryId} {e : Entry}
    (he : m.world.entries[i]? = some e) :
    (∃ r addedMs, m.AddedAs .free i r addedMs)
    ∧ ∀ r addedMs, m.AddedAs .free i r addedMs →
      e.limit = limitAfter r.runs (m.world.history i)
      ∧ (grantAfter r.runs (m.world.history i) = .unlimited → e.remaining = .unlimited)
      ∧ (∀ n, grantAfter r.runs (m.world.history i) = .left n →
          launchesSince (m.world.history i) ≤ n
          ∧ e.remaining = .left (n - launchesSince (m.world.history i))
          ∧ (n < ceiling → e.remaining.toCount ≠ Runs.unlimited.toCount))
      ∧ (∀ after level tick nowMs last before,
          m.world.history i = after ++ .evaluated i level tick nowMs (.run last) :: before →
          (last = true
            ↔ runsLeft r.runs (.evaluated i level tick nowMs (.run last) :: before) = .left 0))
      ∧ e.remaining = runsLeft r.runs (m.world.history i)
      ∧ ∀ m' e', Moves .free m m' → m'.world.entries[i]? = some e' →
          TellsMore Event.Free (m.world.history i) (m'.world.history i) →
          e'.remaining = e.remaining := by
  refine ⟨h.exists_addedAs he, fun r addedMs hadded => ?_⟩
  obtain ⟨v, hv, rfl, hhistory⟩ := hadded.accounted he
  rw [← hhistory]
  refine ⟨hv.limit, fun hnone => ?_, fun n hn => ?_,
    fun after level tick nowMs last before hsplit => ?_, hv.remaining,
    fun m' e' hmoves he' hmore => ?_⟩
  · rw [hv.remaining, runsLeft, hnone]
    rfl
  -- the entry has what the grant leaves it, so a further launch would exceed the grant
  · have hleft : v.entry.remaining = .left (n - launchesSince v.history) := by
      rw [hv.remaining, runsLeft, hn]
      rfl
    refine ⟨?_, hleft, fun hcount => ?_⟩
    · apply Nat.le_of_not_lt
      intro hmore
      have hallowed := hv.allowed n hmore
      rw [hn] at hallowed
      exact absurd hallowed (Nat.lt_irrefl n)
    · rw [hleft]
      show n - launchesSince v.history ≠ ceiling
      omega
  · exact hv.told (by rw [hsplit]; exact List.suffix_append after _)
  -- events that grant nothing and launch nothing leave the difference as it is
  · obtain ⟨v', hv', rfl, hhistory'⟩ := (hadded.moves hmoves).accounted he'
    rw [hv'.remaining, hv.remaining, hhistory', runsLeft_of_free r.runs hmore]

/-- A job with three runs is launched once, gets two runs in place of the others, uses them up, is
reset and launched once more. -/
def regrantedRuns : World := World.after {}
  [.create { slots := 4, levels := 1, intervalMs := 10 },
    .act (.schedule "a" (.counted 10 (.left 3)) none [] []), .advance 10000,
    .act (.control "a" (.setRuns (.left 2))), .advance 20000, .act (.control "a" .reset),
    .advance 10000]

/-- The reset granted two runs, and one of them is left. -/
theorem run_accounting_after_reset : launchCount (regrantedRuns.history 0) = 4
    ∧ ∃ e, regrantedRuns.entries[0]? = some e ∧ e.limit = .left 2
      ∧ e.remaining = .left (2 - 1) := by
  obtain ⟨e, he⟩ : ∃ e, regrantedRuns.entries[0]? = some e :=
    Option.isSome_iff_exists.1 (by decide +kernel)
  have hset : (regrantedRuns.history 0).findSome? Event.limit? = some (.left 2) := by
    decide +kernel
  have hlimit : ∀ given, limitAfter given (regrantedRuns.history 0) = .left 2 := by
    intro given
    rw [limitAfter, hset]
    rfl
  have hone : launchesSince (regrantedRuns.history 0) = 1 := by decide +kernel
  have harises : Moment.Arises ⟨regrantedRuns, none, none⟩ :=
    ((World.Reachable.fresh 3).after _).arises
  obtain ⟨⟨r, addedMs, hadded⟩, haccount⟩ := run_accounting harises he
  obtain ⟨hlimit', -, hleft, -⟩ := haccount r addedMs hadded
  obtain ⟨-, hremaining, -⟩ := hleft 2 ((grantAfter_eq _ _).trans (hlimit r.runs))
  replace hremaining : e.remaining = .left (2 - launchesSince (regrantedRuns.history 0)) :=
    hremaining
  rw [hone] at hremaining
  exact ⟨by decide +kernel, e, he, hlimit'.trans (hlimit r.runs), hremaining⟩

end TimingWheel
