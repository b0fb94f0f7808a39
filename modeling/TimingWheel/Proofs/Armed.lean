import TimingWheel.Proofs.Life
import TimingWheel.Proofs.Ownership

/-!
# Which armed entries the wheels hold

A tick decides by the verdict of its look whether it gives an entry up, before the body runs. What
the body or the outside world does to the entry until the execution has ended may make it fit to run
again, and not every such thing brings it back into a slot.

* **`givenUp`** — the history tells that the last look at the entry launched its last run, and of no
  way back since.
* **`View.Armed`** — the invariant: an entry that the wheels do not own is over, or was given up.
* **`armed_held_iff`** — the armed entries that no slot holds are those that were given up, and each
  of them was revived meanwhile.
* **`armed_entry_lost`** — a run that leaves one behind.
-/

namespace TimingWheel

/-! ## Given up and revived -/

namespace Event

/-- Whether the wheels give the entry up, if the event is about that. -/
def gives? : Event → Option Bool
  | .evaluated _ _ _ _ verdict => some (verdict = .run true)
  | .logged (.entryReinstalled _) => some false
  | _ => none

/-- Whether the owner makes an entry that has used up its runs fit to run again. -/
def revives : Event → Bool
  | .controlled _ .start => true
  | .controlled _ .reset => true
  | .controlled _ (.setRuns runs) => !runs.isSpent
  | _ => false

end Event

/-- The last look at the entry launched its last run, and it was not reinstalled since. -/
def givenUp (history : List Event) : Bool := (history.findSome? Event.gives?).getD false

/-- The entry was revived since the last look at it. -/
def revived : List Event → Bool
  | [] => false
  | .evaluated .. :: _ => false
  | e :: before => e.revives || revived before

/-- An event that is neither a look nor a way back leaves it open who has the entry as before. -/
theorem givenUp_cons_of_none {e : Event} (h : e.gives? = none) (history : List Event) :
    givenUp (e :: history) = givenUp history := by
  simp only [givenUp, List.findSome?_cons, h]

/-- A look or a way back decides anew, whatever came before. -/
theorem givenUp_cons_of_some {e : Event} {b : Bool} (h : e.gives? = some b) (history : List Event) :
    givenUp (e :: history) = b := by
  simp only [givenUp, List.findSome?_cons, h, Option.getD_some]

/-- Between looks an entry is revived by the first event that revives it. -/
theorem revived_cons {e : Event} (h : e.gives? = none) (history : List Event) :
    revived (e :: history) = (e.revives || revived history) := by
  cases e with
  | evaluated i level tick nowMs verdict => simp [Event.gives?] at h
  | _ => rfl

/-- An entry that was revived since the last look at it was revived by an event after that look. -/
theorem exists_revives {history : List Event} (hgiven : givenUp history = true)
    (hrevived : revived history = true) :
    ∃ after i level tick nowMs before,
      history = after ++ .evaluated i level tick nowMs (.run true) :: before
        ∧ ∃ e ∈ after, e.revives = true := by
  -- back to the last look; the events passed on the way are those after it
  have hlook : ∀ history, givenUp history = true → ∃ after i level tick nowMs before,
      history = after ++ .evaluated i level tick nowMs (.run true) :: before
        ∧ (revived history = true → ∃ e ∈ after, e.revives = true) := by
    intro history
    induction history with
    | nil => intro h; simp [givenUp] at h
    | cons e history ih =>
      intro h
      cases hgives : e.gives? with
      | none =>
        rw [givenUp_cons_of_none hgives] at h
        obtain ⟨after, i, level, tick, nowMs, before, rfl, hrevives⟩ := ih h
        refine ⟨e :: after, i, level, tick, nowMs, before, rfl, fun hrevived => ?_⟩
        rw [revived_cons hgives, Bool.or_eq_true] at hrevived
        rcases hrevived with he | hrest
        · exact ⟨e, List.mem_cons_self, he⟩
        · obtain ⟨e', he', hrevives'⟩ := hrevives hrest
          exact ⟨e', List.mem_cons_of_mem _ he', hrevives'⟩
      | some b =>
        rw [givenUp_cons_of_some hgives] at h
        subst h
        cases e with
        | evaluated i level tick nowMs verdict =>
          have hverdict : verdict = .run true := by simpa [Event.gives?] using hgives
          subst hverdict
          exact ⟨[], i, level, tick, nowMs, history, rfl, fun h => by simp [revived] at h⟩
        | logged line => cases line <;> simp [Event.gives?] at hgives
        | _ => simp [Event.gives?] at hgives
  obtain ⟨after, i, level, tick, nowMs, before, hsplit, hrevives⟩ := hlook history hgiven
  exact ⟨after, i, level, tick, nowMs, before, hsplit, hrevives hrevived⟩

/-! ## The invariant -/

/-- An entry that has used up its runs and is over, or will be when its execution ends. -/
def Entry.Ending (e : Entry) (unfinished : Nat) : Prop :=
  e.remaining.isSpent = true
    ∧ (e.status = .closed ∨ (1 ≤ unfinished ∧ (e.status = .running ∨ e.status = .stopped)))

/-- The wheels' mark and the history agree, and an entry that was given up ends unless somebody
revives it. -/
structure View.Traced (v : View) : Prop where
  owned : v.stage ≠ .free → v.entry.installed = true
  launched : ∀ {nowMs last}, v.stage = .launched nowMs last → givenUp v.history = last
  kept : v.stage = .free → v.entry.installed = true → givenUp v.history = false
  ending : givenUp v.history = true → revived v.history = true ∨ v.entry.Ending v.unfinished

/-- An entry that the wheels do not own is over, or was given up and not reset since. -/
structure View.Armed (v : View) : Prop extends View.Traced v where
  lost : v.there = true → v.entry.installed = false →
    v.entry.status = .closed ∨ (givenUp v.history = true ∧ v.entry.status ≠ .reset)

namespace View

variable {v : View}

/-- Something is told that is neither a look nor a way back. -/
theorem Traced.tell (h : v.Traced) {e : Event} (he : e.gives? = none) :
    Traced { v with toPage := v.toPage.tell e } := by
  have hgiven : givenUp (e :: v.history) = givenUp v.history := givenUp_cons_of_none he _
  refine ⟨h.owned, fun hstage => hgiven.trans (h.launched hstage),
    fun hstage hinstalled => hgiven.trans (h.kept hstage hinstalled), fun hup => ?_⟩
  rcases h.ending (hgiven.symm.trans hup) with hrevived | hending
  · refine Or.inl ?_
    show revived (e :: v.history) = true
    rw [revived_cons he, hrevived, Bool.or_true]
  · exact Or.inr hending

/-- What is told besides looks and ways back keeps the invariant. -/
theorem Armed.tell (h : v.Armed) {e : Event} (he : e.gives? = none) :
    Armed { v with toPage := v.toPage.tell e } := by
  refine ⟨h.toTraced.tell he, fun hthere hfree => ?_⟩
  show _ ∨ (givenUp (e :: v.history) = true ∧ _)
  rw [givenUp_cons_of_none he]
  exact h.lost hthere hfree

/-- The entry changes, but not the mark of the wheels. -/
theorem Traced.modify (h : v.Traced) {f : Entry → Entry}
    (hf : (f v.entry).installed = v.entry.installed)
    (hending : v.entry.Ending v.unfinished →
      revived v.history = true ∨ (f v.entry).Ending v.unfinished) :
    Traced { v with toPage := v.toPage.modify f } := by
  refine ⟨fun hstage => hf.trans (h.owned hstage), h.launched,
    fun hstage hinstalled => h.kept hstage (hf.symm.trans hinstalled), fun hup => ?_⟩
  rcases h.ending hup with hrevived | hends
  · exact Or.inl hrevived
  · exact hending hends

/-- An entry that is taken wherever it can be is not lost. -/
theorem Traced.reinstall (h : v.Traced) (i : EntryId) :
    Armed { v with toPage := v.toPage.reinstall i } := by
  unfold Page.reinstall
  split
  · next hfree =>
    rw [Bool.and_eq_true, Bool.not_eq_true'] at hfree
    have hnone : givenUp (.logged (.entryReinstalled i) :: v.history) = false :=
      givenUp_cons_of_some rfl _
    -- an entry that a tick has in hand is marked
    have hstage : v.stage = .free := by
      refine Classical.byContradiction fun hne => ?_
      rw [h.owned hne] at hfree
      simp at hfree
    refine ⟨⟨fun _ => rfl, fun hlaunched => ?_, fun _ _ => hnone, fun hup => ?_⟩, fun _ hnot => ?_⟩
    · rw [hstage] at hlaunched
      simp at hlaunched
    · exact absurd (hnone.symm.trans hup) (by simp)
    · exact absurd (Eq.symm hnot)
        (by simp [Page.place, Page.modify, Page.log, Page.tell, Entry.rearm, Entry.putAt])
  · next hnot =>
    refine ⟨h, fun hthere hfree => absurd ?_ hnot⟩
    rw [hthere, hfree]
    rfl

/-- Once the entry has been revived nothing is claimed about how it ends, so its status and its
runs may change freely. -/
theorem Traced.modify_of_revived (h : v.Traced) {f : Entry → Entry}
    (hf : (f v.entry).installed = v.entry.installed) (hrevived : revived v.history = true) :
    Traced { v with toPage := v.toPage.modify f } :=
  h.modify hf fun _ => Or.inl hrevived

/-- Suspending an entry that is not over leaves it fit for the wheels, or about to end. -/
theorem Armed.stop (h : v.Armed)
    (hopen : ¬ (v.entry.status = .stopped ∨ v.entry.status = .closed)) :
    Armed { v with toPage := v.toPage.modify (·.stop) } := by
  have hstop : v.entry.stop = { v.entry with status := .stopped } := by
    unfold Entry.stop
    rw [if_neg hopen]
  rw [not_or] at hopen
  refine ⟨h.toTraced.modify (congrArg (·.installed) hstop) ?_, fun hthere hfree => ?_⟩
  · rintro ⟨hspent, hclosed | ⟨hone, -⟩⟩
    · exact absurd hclosed hopen.2
    · refine Or.inr ⟨?_, Or.inr ⟨hone, Or.inr ?_⟩⟩
      · exact (congrArg (·.remaining.isSpent) hstop).trans hspent
      · exact congrArg (·.status) hstop
  · have hinstalled : v.entry.installed = false :=
      (congrArg (·.installed) hstop).symm.trans hfree
    have hstatus : v.entry.stop.status = .stopped := congrArg (·.status) hstop
    rcases h.lost hthere hinstalled with hclosed | ⟨hup, -⟩
    · exact absurd hclosed hopen.2
    · refine Or.inr ⟨hup, ?_⟩
      show v.entry.stop.status ≠ .reset
      rw [hstatus]
      decide

/-- Every control keeps the invariant. `start` and `reset` revive the entry and lead it back to a
slot, `setRuns` revives it if it grants a run, and `stop` and `close` let it end. -/
theorem Armed.control (h : v.Armed) (i : EntryId) {c : Control} (hc : c ≠ .run) :
    Armed { v with toPage := v.toPage.control i c } := by
  have htell : Armed { v with toPage := v.toPage.tell (.controlled i c) } := h.tell rfl
  cases c with
  | stop =>
    simp only [Page.control]
    split
    · exact htell
    · next hopen => exact (htell.stop hopen).tell rfl
  | start =>
    -- a started entry is taken wherever the wheels do not have it
    simp only [Page.control]
    split
    · have hmodify : Traced { v with
          toPage := (v.toPage.tell (.controlled i .start)).modify (·.start) } := by
        refine htell.toTraced.modify_of_revived ?_ rfl
        unfold Entry.start
        split <;> rfl
      have hlog := hmodify.tell (e := .logged (.entryStarted i)) rfl
      exact hlog.reinstall i
    · exact htell
  | reset =>
    have hmodify : Traced { v with
        toPage := (v.toPage.tell (.controlled i .reset)).modify (·.reset) } :=
      htell.toTraced.modify_of_revived rfl rfl
    have hlog := hmodify.tell (e := .logged (.entryReset i v.entry.limit)) rfl
    exact hlog.reinstall i
  | close =>
    simp only [Page.control]
    split
    · exact htell
    · have hmodify : Armed { v with
          toPage := (v.toPage.tell (.controlled i .close)).modify (·.close) } :=
        ⟨htell.toTraced.modify rfl fun hends => Or.inr ⟨hends.1, Or.inl rfl⟩,
          fun _ _ => Or.inl rfl⟩
      exact hmodify.tell rfl
  | run => exact absurd rfl hc
  | setRuns runs =>
    refine ⟨htell.toTraced.modify rfl fun hends => ?_, htell.lost⟩
    cases hspent : runs.isSpent with
    | true => exact Or.inr ⟨hspent, hends.2⟩
    | false =>
      -- the entry has runs again
      refine Or.inl ?_
      show (!runs.isSpent || revived v.history) = true
      rw [hspent]
      rfl
  | setSingleton on => exact ⟨htell.toTraced.modify rfl Or.inr, htell.lost⟩

/-- The end of a body keeps the invariant: a body that asks for the end closes the entry. -/
theorem Armed.conclude (h : v.Armed) (i : EntryId) (outcome : Outcome) :
    Armed { v with toPage := v.toPage.conclude i outcome } := by
  cases outcome with
  | exit =>
    have hmodify : Armed { v with toPage := v.toPage.modify (·.close) } :=
      ⟨h.toTraced.modify rfl fun hends => Or.inr ⟨hends.1, Or.inl rfl⟩, fun _ _ => Or.inl rfl⟩
    exact hmodify.tell rfl
  | failed reason => exact h.tell rfl
  | done => exact h
  | crashed => exact h

/-- The end of an execution keeps the invariant. It is here that an entry without runs is closed,
and that one that was reset meanwhile goes back into a slot. -/
theorem Armed.complete (h : v.Armed) (i : EntryId) :
    Armed { v with
      toPage := v.toPage.complete i
      flight := { v.flight with executing := false } } := by
  -- the end of an execution moves neither the seat nor the runs that are left
  have hinstalled : v.entry.complete.installed = v.entry.installed :=
    congrArg (·.2.1) v.entry.seat_complete
  have hremaining : v.entry.complete.remaining = v.entry.remaining := by
    unfold Entry.complete
    simp only
    split
    · rfl
    · split <;> rfl
  have hend : Armed { v with
      toPage := (v.toPage.modify (·.complete)).tell (.completed i)
      flight := { v.flight with executing := false } } := by
    have hgiven : givenUp (.completed i :: v.history) = givenUp v.history :=
      givenUp_cons_of_none rfl _
    refine ⟨⟨fun hstage => hinstalled.trans (h.owned hstage),
      fun hstage => hgiven.trans (h.launched hstage),
      fun hstage hheld => hgiven.trans (h.kept hstage (hinstalled.symm.trans hheld)),
      fun hup => ?_⟩, fun hthere hfree => ?_⟩
    · rcases h.ending (hgiven.symm.trans hup) with hrevived | ⟨hspent, hstatus⟩
      · exact Or.inl hrevived
      · refine Or.inr ⟨?_, Or.inl ?_⟩
        · show v.entry.complete.remaining.isSpent = true
          rw [hremaining]
          exact hspent
        · -- no run is left, so the entry is over
          show v.entry.complete.status = .closed
          rcases hstatus with hclosed | ⟨-, hrunning | hstopped⟩
          · simp [Entry.complete, hclosed]
          · simp [Entry.complete, hrunning, hspent]
          · simp [Entry.complete, hstopped, hspent]
    · show v.entry.complete.status = .closed
        ∨ (givenUp (.completed i :: v.history) = true ∧ v.entry.complete.status ≠ .reset)
      rw [hgiven]
      -- only a reset brings an entry back, and no execution ends in one
      rcases h.lost hthere (hinstalled.symm.trans hfree) with hclosed | ⟨hup, hreset⟩
      · exact Or.inl (by simp [Entry.complete, hclosed])
      · refine Or.inr ⟨hup, ?_⟩
        unfold Entry.complete
        simp only
        split
        · show EntryStatus.closed ≠ .reset
          decide
        · split
          · show EntryStatus.ready ≠ .reset
            decide
          · exact hreset
  simp only [Page.complete]
  split
  · exact hend.tell rfl
  · exact hend

/-- A tick gives the entry up. One that was reset meanwhile is taken back. -/
theorem Traced.release (h : Traced { v with toPage := v.toPage.modify (·.release), stage := .free })
    (i : EntryId)
    (hlost : v.entry.status ≠ .reset → v.entry.status = .closed ∨ givenUp v.history = true) :
    Armed { v with toPage := v.toPage.release i, stage := .free } := by
  unfold Page.release
  split
  · exact h.reinstall i
  · next hreset =>
    refine ⟨h, fun _ _ => ?_⟩
    rcases hlost hreset with hclosed | hup
    · exact Or.inl hclosed
    · exact Or.inr ⟨hup, hreset⟩

end View

/-- A new entry is in a slot, unless it came without a run and is over at once. -/
theorem View.Born.armed {i : EntryId} {v : View} (h : v.Born i) : v.Armed := by
  obtain ⟨r, task, owner, nowMs, aim, rfl⟩ := h
  have hnone : givenUp (Page.registered i r task owner nowMs aim).history = false := rfl
  refine ⟨⟨fun hstage => absurd rfl hstage, fun hstage => by simp at hstage, fun _ _ => hnone,
    fun hup => absurd (hnone.symm.trans hup) (by simp)⟩, fun _ hfree => Or.inl ?_⟩
  simp only [Page.registered] at hfree ⊢
  split
  · next hclosed => exact hclosed
  · next hopen => simp [hopen, Entry.putAt] at hfree

/-- A look does not touch the mark of the wheels. -/
theorem Entry.installed_evaluate (e : Entry) (nowMs : Nat) :
    (e.evaluate nowMs).2.installed = e.installed :=
  congrArg (·.2.1) (e.seat_evaluate nowMs)

/-- A look that launches nothing drops entries that are over, and only these. -/
theorem Entry.status_of_drop {e : Entry} {nowMs : Nat} (h : (e.evaluate nowMs).1 = .drop) :
    (e.evaluate nowMs).2.status = .closed := by
  have hlook := e.evaluated nowMs
  generalize e.evaluate nowMs = look at hlook h
  cases hlook with
  | ended closed => exact closed
  | spent alive due active none => rfl
  | _ => simp at h

/-- A launch that takes the last run leaves a running entry without any. -/
theorem Entry.ending_of_run {e : Entry} {nowMs unfinished : Nat}
    (h : (e.evaluate nowMs).1 = .run true) : (e.evaluate nowMs).2.Ending (unfinished + 1) := by
  obtain ⟨-, -, hlast, rest, hleft, hentry⟩ := Entry.launch_of_run h
  rw [hlast.1 rfl] at hleft
  obtain rfl : Runs.left 0 = rest := Option.some.inj hleft
  rw [hentry]
  exact ⟨rfl, Or.inr ⟨Nat.le_add_left 1 _, Or.inl rfl⟩⟩

namespace View

variable {v : View}

/-- A look that launches nothing keeps the invariant: the entry is put back, unless it is over and
dropped. -/
theorem Armed.rest (h : v.Armed) {level tick nowMs : Nat}
    (hdrained : v.stage = .drained level tick nowMs)
    (idle : ∀ last, (v.entry.evaluate nowMs).1 ≠ .run last) (i : EntryId) : Armed { v with
      toPage := (v.toPage.look i level tick nowMs).rest i nowMs (v.entry.evaluate nowMs).1
      stage := .free } := by
  have howned : v.entry.installed = true := h.owned (by rw [hdrained]; simp)
  have hinstalled : (v.entry.evaluate nowMs).2.installed = true :=
    (v.entry.installed_evaluate nowMs).trans howned
  have hgiven : givenUp (v.toPage.look i level tick nowMs).history = false := by
    refine givenUp_cons_of_some ?_ v.history
    simp [Event.gives?, idle true]
  -- nothing but the mark matters once the last look launched nothing
  have hheld : ∀ p : Page, p.history = (v.toPage.look i level tick nowMs).history →
      p.entry.installed = true → Armed { v with toPage := p, stage := .free } := by
    intro p hhistory hp
    have hnone : givenUp p.history = false := by rw [hhistory, hgiven]
    exact ⟨⟨fun _ => hp, fun hstage => by simp at hstage, fun _ _ => hnone,
      fun hup => absurd (hnone.symm.trans hup) (by simp)⟩,
      fun _ hfree => absurd (hp.symm.trans hfree) (by simp)⟩
  cases hverdict : (v.entry.evaluate nowMs).1 with
  | drop =>
    -- what is dropped is over
    have hclosed := Entry.status_of_drop hverdict
    refine Traced.release (v := { v with toPage := v.toPage.look i level tick nowMs }) ?_ i
      fun _ => Or.inl hclosed
    exact ⟨fun hstage => absurd rfl hstage, fun hstage => by simp at hstage,
      fun _ hp => absurd (Eq.symm hp) (by simp [Page.modify, Entry.release]),
      fun hup => absurd (hgiven.symm.trans hup) (by simp)⟩
  | wait => exact hheld _ rfl hinstalled
  | skip => exact hheld _ rfl hinstalled
  | run last => exact absurd hverdict (idle last)

/-- A launch keeps the invariant. With the last run the history now says that the entry is given
up, and the execution that was launched will end it. -/
theorem Armed.launch (h : v.Armed) {level tick nowMs : Nat} {last : Bool}
    (hdrained : v.stage = .drained level tick nowMs) (idle : v.flight.executing = false)
    (runs : (v.entry.evaluate nowMs).1 = .run last) (i : EntryId) (holding : Bool) :
    Armed { v with
      toPage := v.toPage.look i level tick nowMs
      stage := .launched nowMs last
      flight := ⟨v.flight.held + holding.toNat, !holding⟩ } := by
  have howned : v.entry.installed = true := h.owned (by rw [hdrained]; simp)
  have hinstalled : (v.entry.evaluate nowMs).2.installed = true :=
    (v.entry.installed_evaluate nowMs).trans howned
  have hgiven : givenUp (v.toPage.look i level tick nowMs).history = last := by
    have hgives := givenUp_cons_of_some
      (e := .evaluated i level tick nowMs (v.entry.evaluate nowMs).1) rfl v.history
    rw [runs] at hgives
    refine Eq.trans ?_ (hgives.trans (by simp))
    rw [← runs]
    rfl
  -- the entry is still owned, so only a last run has to be accounted for
  refine ⟨⟨fun _ => hinstalled, fun hstage => ?_, fun hstage => by simp at hstage, fun hup => ?_⟩,
    fun _ hfree => absurd (hinstalled.symm.trans hfree) (by simp)⟩
  · rw [Stage.launched.injEq] at hstage
    rw [← hstage.2]
    exact hgiven
  · have hlast : last = true := hgiven.symm.trans hup
    rw [hlast] at runs
    refine Or.inr ?_
    show (v.entry.evaluate nowMs).2.Ending (Flight.count ⟨v.flight.held + holding.toNat, !holding⟩)
    rw [Flight.count_launch holding idle]
    exact Entry.ending_of_run runs

/-- After its launch an entry with runs left goes back into a slot and one without is released, as
the look had announced. -/
theorem Armed.putBack (h : v.Armed) {nowMs : Nat} {last : Bool}
    (hlaunched : v.stage = .launched nowMs last) (i : EntryId) :
    Armed { v with toPage := v.toPage.putBack i nowMs last, stage := .free } := by
  have howned : v.entry.installed = true := h.owned (by rw [hlaunched]; simp)
  have hgiven := h.launched hlaunched
  unfold Page.putBack
  cases last with
  | true =>
    -- the last run was launched, so the entry is given up, and the history says so
    refine Traced.release ?_ i fun _ => Or.inr hgiven
    exact ⟨fun hstage => absurd rfl hstage, fun hstage => by simp at hstage,
      fun _ hp => absurd (Eq.symm hp) (by simp [Page.modify, Entry.release]), h.ending⟩
  | false =>
    exact ⟨⟨fun _ => howned, fun hstage => by simp at hstage, fun _ _ => hgiven,
      fun hup => absurd (hgiven.symm.trans hup) (by simp)⟩,
      fun _ hfree => absurd (howned.symm.trans hfree) (by simp)⟩

/-- One step of the world keeps the invariant of an entry. -/
theorem EntryStep.armed {law : Law} {i : EntryId} {v v' : View} (h : v.EntryStep law i v')
    (hv : v.Armed) : v'.Armed := by
  cases h with
  | passes there nowMs aim gone =>
    exact ⟨⟨hv.owned, hv.launched, hv.kept, hv.ending⟩,
      fun hthere hfree => hv.lost (gone hthere) hfree⟩
  | byHand => exact hv.tell rfl
  | begins job label clockUs => exact hv.tell rfl
  | concludes outcome => exact hv.conclude i outcome
  | controls c plain => exact hv.control i plain
  | completes executing => exact hv.complete i
  | takesUp allowed held idle =>
    refine ⟨⟨hv.owned, hv.launched, hv.kept, fun hup => ?_⟩, hv.lost⟩
    show _ ∨ v.entry.Ending (Flight.count ⟨v.flight.held - 1, true⟩)
    rw [Flight.count_takeUp held idle]
    exact hv.ending hup
  | drains aim free owned =>
    exact ⟨⟨fun _ => owned, fun hstage => by simp at hstage, fun hstage => by simp at hstage,
      hv.ending⟩, hv.lost⟩
  | rests level tick nowMs drained idle => exact hv.rest drained idle i
  | launches level tick nowMs last holding drained idle runs =>
    exact hv.launch drained idle runs i holding
  | putsBack nowMs last launched idle => exact hv.putBack launched i

/-- The invariant holds throughout the life of an entry. -/
theorem Life.armed {i : EntryId} (h : v.Life i) : v.Armed := by
  induction h with
  | born h => exact h.armed
  | step _ step ih => exact step.armed ih

end View

/-! ## Armed entries between ticks -/

/-- The history of an entry holds only what is about it. -/
theorem World.about_of_mem_history {w : World} {i : EntryId} {e : Event} (h : e ∈ w.history i) :
    e.about = some i := by
  have hmem := (List.mem_filter.1 h).2
  simpa using hmem

/-- **An armed entry is held by a slot unless it was given up.** While no tick is in progress and no
execution of it is unfinished, an entry of the timer that is ready, stopped or reset is held by a
slot exactly if the last look at it did not launch its last run or it was reinstalled since. One
that was given up was started, reset or given new runs after that look, and its status is not reset,
since every reset brings an entry back. -/
theorem armed_held_iff {m : Moment} (h : m.Arises) (hidle : m.sweep = none) {t : Timer}
    (ht : m.world.timer = some t) {i : EntryId} {e : Entry} (he : m.world.entries[i]? = some e)
    (howner : e.owner = t.id)
    (harmed : e.status = .ready ∨ e.status = .stopped ∨ e.status = .reset)
    (hended : m.unfinished i = 0) :
    ((∃ level k, t.SlotHas level k i) ↔ givenUp (m.world.history i) = false)
    ∧ (e.status = .reset → ∃ level k, t.SlotHas level k i)
    ∧ (givenUp (m.world.history i) = true → ∃ after level tick nowMs before,
        m.world.history i = after ++ .evaluated i level tick nowMs (.run true) :: before
          ∧ ∃ event ∈ after, event.revives = true) := by
  obtain ⟨v, hv, hpage, hentry, hstage, -⟩ := Moment.exists_view he
  have hunfinished := Moment.unfinished_of_view hv
  obtain ⟨-, hhistory, hthere, -⟩ := World.page_eq_some.1 hpage
  have hlife := (h.life hv).armed
  have hfree : v.stage = .free := by
    rw [hstage]
    simp [Moment.stage, hidle]
  have hhere : v.there = true := by
    rw [hthere, hentry, howner]
    simp [World.hasTimer, ht]
  have hopen : e.status ≠ .closed := by
    rcases harmed with hstatus | hstatus | hstatus <;> simp [hstatus]
  -- between ticks the mark says whether a slot holds the entry
  have hslot : (∃ level k, t.SlotHas level k i) ↔ e.installed = true := by
    have hmem := h.custody.mem_iff ht he
    have hhand : m.hand = [] := by simp [Moment.hand, hidle]
    rw [hhand, List.append_nil, Timer.mem_contents] at hmem
    rw [hmem]
    exact ⟨fun howned => howned.2, fun hinstalled => ⟨howner, hinstalled⟩⟩
  have hlost : e.installed = false → givenUp (m.world.history i) = true ∧ e.status ≠ .reset := by
    intro hnot
    rw [← hentry] at hnot hopen ⊢
    rw [← hhistory]
    exact (hlife.lost hhere hnot).resolve_left hopen
  refine ⟨?_, fun hreset => ?_, fun hup => ?_⟩
  · rw [hslot]
    constructor
    · intro hinstalled
      rw [← hhistory]
      exact hlife.kept hfree (hentry ▸ hinstalled)
    · intro hnone
      cases hinstalled : e.installed with
      | true => rfl
      | false => exact absurd (hnone.symm.trans (hlost hinstalled).1) (by simp)
  · rw [hslot]
    cases hinstalled : e.installed with
    | true => rfl
    | false => exact absurd hreset (hlost hinstalled).2
  · rw [← hhistory] at hup
    have hrevived : revived v.history = true := by
      rcases hlife.ending hup with hrevived | ⟨-, hclosed | ⟨hone, -⟩⟩
      · exact hrevived
      · exact absurd (hentry ▸ hclosed) hopen
      · omega
    obtain ⟨after, j, level, tick, nowMs, before, hsplit, hevent⟩ := exists_revives hup hrevived
    rw [hhistory] at hsplit
    have habout : (Event.evaluated j level tick nowMs (.run true)).about = some i :=
      World.about_of_mem_history (by rw [hsplit]; simp)
    obtain rfl : j = i := Option.some.inj habout
    exact ⟨after, level, tick, nowMs, before, hsplit, hevent⟩

/-- A job with one run is launched, and the execution is held back. The tick took the last run, so
the wheels have given the entry up. -/
def lastRunHeld : World := World.after {}
  [.create { slots := 4, levels := 1, intervalMs := 10 }, .act (.hold true),
    .act (.schedule "a" (.once 10) none [] []), .advance 10000]

/-- The job is reset before the execution ends. -/
def resetInLastRun : World := lastRunHeld.after [.act (.control "a" .reset), .finish 0]

/-- The wheels gave the entry up, and the reset brought it back: it waits for its next look in a
slot. -/
theorem armed_held_after_reset : givenUp (lastRunHeld.history 0) = true
    ∧ ∃ t e, resetInLastRun.timer = some t ∧ resetInLastRun.entries[0]? = some e
      ∧ e.status = .reset ∧ ∃ level k, t.SlotHas level k 0 := by
  obtain ⟨t, ht⟩ : ∃ t, resetInLastRun.timer = some t :=
    Option.isSome_iff_exists.1 (by decide +kernel)
  obtain ⟨e, he⟩ : ∃ e, resetInLastRun.entries[0]? = some e :=
    Option.isSome_iff_exists.1 (by decide +kernel)
  have hid : resetInLastRun.timer.map (·.id) = some 0 := by decide +kernel
  have howner : resetInLastRun.entries[0]?.map (·.owner) = some 0 := by decide +kernel
  have hstatus : resetInLastRun.entries[0]?.map (·.status) = some .reset := by decide +kernel
  rw [ht] at hid
  rw [he] at howner hstatus
  have hreset := Option.some.inj hstatus
  have hreachable : resetInLastRun.Reachable := .after (.after (.fresh 3) _) _
  obtain ⟨hheld, -, -⟩ := armed_held_iff hreachable.arises rfl ht he
    ((Option.some.inj howner).trans (Option.some.inj hid).symm) (Or.inr (Or.inr hreset))
    (by decide +kernel)
  exact ⟨by decide +kernel, t, e, ht, he, hreset, hheld.2 (by decide +kernel)⟩

/-- The job gets five more runs instead. -/
def lostJob : World :=
  lastRunHeld.after [.act (.control "a" (.setRuns (.left 5))), .finish 0]

/-- Not every armed entry is held by a slot: the job is ready and has five runs left and no
execution in flight, and every slot is empty. -/
theorem armed_entry_lost : ¬ ∀ (w : World) (t : Timer) (i : EntryId) (e : Entry), w.Reachable →
    w.timer = some t → w.entries[i]? = some e → e.owner = t.id →
    e.status = .ready ∨ e.status = .stopped ∨ e.status = .reset → w.held.count i = 0 →
    ∃ level k, t.SlotHas level k i := by
  intro hall
  obtain ⟨t, ht⟩ : ∃ t, lostJob.timer = some t := Option.isSome_iff_exists.1 (by decide +kernel)
  obtain ⟨e, he⟩ : ∃ e, lostJob.entries[0]? = some e :=
    Option.isSome_iff_exists.1 (by decide +kernel)
  have hid : lostJob.timer.map (·.id) = some 0 := by decide +kernel
  have hempty : lostJob.timer.map (·.contents) = some [] := by decide +kernel
  have howner : lostJob.entries[0]?.map (·.owner) = some 0 := by decide +kernel
  have hstatus : lostJob.entries[0]?.map (·.status) = some .ready := by decide +kernel
  rw [ht] at hid hempty
  rw [he] at howner hstatus
  have hslot := hall lostJob t 0 e (.after (.after (.fresh 3) _) _) ht he
    ((Option.some.inj howner).trans (Option.some.inj hid).symm)
    (Or.inl (Option.some.inj hstatus)) (by decide +kernel)
  have hmem := Timer.mem_contents.2 hslot
  have hnone : t.contents = [] := Option.some.inj hempty
  rw [hnone] at hmem
  simp at hmem

end TimingWheel
