import TimingWheel.Proofs.Accounting
import TimingWheel.Proofs.Armed

/-!
# Entries that have used up their runs

The end of an execution closes an entry that has no run left, if it finds the entry running or
stopped. The owner may rewrite the status between the launch of the last run and its end, and start
is the one control that leaves an entry without runs with a status that the end overlooks.

* **`restarted`** — the history tells that the entry was started since it was launched last.
* **`View.Closing`** — the invariant: an entry that has used up its runs was restarted, or is over,
  or will be when its execution ends.
* **`exhausted_closed`** — an entry that has used up its runs and has no execution in flight is
  closed, unless it was restarted.
* **`exhausted_left_ready`** — a run that leaves one ready for ever.
-/

namespace TimingWheel

/-! ## Started again -/

/-- Whether a stopped entry is started, if the event is about that. A launch puts an end to it. -/
def Event.restarts? : Event → Option Bool
  | .evaluated _ _ _ _ (.run _) => some false
  | .logged (.entryStarted _) => some true
  | _ => none

/-- The entry was stopped and started again since an execution of it was launched last. -/
def restarted (history : List Event) : Bool := (history.findSome? Event.restarts?).getD false

theorem restarted_cons_of_some {e : Event} {b : Bool} (h : e.restarts? = some b)
    (history : List Event) : restarted (e :: history) = b := by
  simp only [restarted, List.findSome?_cons, h, Option.getD_some]

/-- What neither starts nor launches the entry leaves it restarted or not, as before. -/
theorem restarted_of_none {history history' : List Event}
    (h : TellsMore (·.restarts? = none) history history') :
    restarted history' = restarted history := by
  obtain ⟨events, rfl, hevents⟩ := h
  have hnone : events.findSome? Event.restarts? = none := List.findSome?_eq_none_iff.2 hevents
  rw [restarted, List.findSome?_append, hnone, Option.none_or, restarted]

/-! ## Entries that end -/

namespace Entry

variable {e : Entry} {unfinished nowMs : Nat}

theorem Ending.close (h : e.Ending unfinished) : e.close.Ending unfinished := ⟨h.1, Or.inl rfl⟩

/-- An entry that is about to end may still be stopped: its last execution closes it from that
status, too. -/
theorem Ending.stop (h : e.Ending unfinished) : e.stop.Ending unfinished := by
  unfold Entry.stop
  split
  · exact h
  · next hopen =>
    rcases h.2 with hclosed | ⟨hone, -⟩
    · exact absurd (Or.inr hclosed) hopen
    · exact ⟨h.1, Or.inr ⟨hone, Or.inr rfl⟩⟩

/-- The end of an execution closes an entry that is ending. -/
theorem Ending.complete (h : e.Ending unfinished) (left : Nat) : e.complete.Ending left := by
  obtain ⟨hspent, hstatus⟩ := h
  refine ⟨by rw [e.runs_complete.2]; exact hspent, Or.inl ?_⟩
  rcases hstatus with hclosed | ⟨-, hrunning | hstopped⟩
  · simp [Entry.complete, hclosed]
  · simp [Entry.complete, hrunning, hspent]
  · simp [Entry.complete, hstopped, hspent]

/-- An entry that is about to end was not reset, so nothing waits for the wheels. -/
theorem Ending.settleReset (h : e.Ending unfinished) : e.settleReset = e := by
  unfold Entry.settleReset
  rcases h.2 with hclosed | ⟨-, hrunning | hstopped⟩
  · rw [if_neg (by rw [hclosed]; decide)]
  · rw [if_neg (by rw [hrunning]; decide)]
  · rw [if_neg (by rw [hstopped]; decide)]

/-- A look that launches nothing leaves an entry that is ending as it is, or closes it. -/
theorem Ending.evaluate (h : e.Ending unfinished)
    (idle : ∀ last, (e.evaluate nowMs).1 ≠ .run last) :
    (e.evaluate nowMs).2.Ending unfinished := by
  have hlook := e.evaluated nowMs
  generalize e.evaluate nowMs = look at hlook idle
  cases hlook with
  | ended closed => exact h
  | early alive wait =>
    show e.settleReset.Ending unfinished
    rw [h.settleReset]
    exact h
  | suspended stopped due => exact h
  | busy alive due active singleton inFlight =>
    show e.settleReset.Ending unfinished
    rw [h.settleReset]
    exact h
  | spent alive due active none => exact h.close
  | launched alive due active free rest left => exact absurd rfl (idle _)

theorem status_of_run {last : Bool} (runs : (e.evaluate nowMs).1 = .run last) :
    (e.evaluate nowMs).2.status = .running := by
  obtain ⟨-, -, -, rest, -, hentry⟩ := Entry.launch_of_run runs
  rw [hentry]

/-- What the wheels do with an entry does not keep it from ending. -/
theorem Ending.of_terms {e' : Entry} (h : e.Ending unfinished) (hterms : e'.terms = e.terms) :
    e'.Ending unfinished := by
  have hremaining : e'.remaining = e.remaining := congrArg (·.remaining) hterms
  have hstatus : e'.status = e.status := congrArg (·.status) hterms
  unfold Ending
  rw [hremaining, hstatus]
  exact h

end Entry

/-! ## The invariant -/

/-- As long as nobody sets the limit, an entry that has used up its runs was restarted, or is over,
or will be when its execution ends. -/
def View.Closing (v : View) : Prop :=
  (∀ e ∈ v.history, e.limit? = none) → v.entry.remaining.isSpent = true →
    restarted v.history = true ∨ v.entry.Ending v.unfinished

namespace View

variable {v v' : View}

/-- Something happens that neither launches nor starts the entry, and does not keep it from
ending. -/
theorem Closing.keep (h : v.Closing) {p : Page} {flight : Flight}
    (hremaining : p.entry.remaining = v.entry.remaining)
    (hending : v.entry.Ending v.unfinished → p.entry.Ending flight.count)
    (htold : TellsMore (·.restarts? = none) v.history p.history) (stage : Stage) :
    Closing ⟨p, stage, flight⟩ := by
  intro hlimit hspent
  have hbefore : ∀ e ∈ v.history, e.limit? = none := by
    obtain ⟨events, hevents, -⟩ := htold
    intro e he
    apply hlimit e
    show e ∈ p.history
    rw [hevents]
    exact List.mem_append_right events he
  have hspent' : v.entry.remaining.isSpent = true := by rw [← hremaining]; exact hspent
  rcases h hbefore hspent' with hrestarted | hends
  · exact Or.inl ((restarted_of_none htold).trans hrestarted)
  · exact Or.inr (hending hends)

/-- What the wheels do with an entry keeps the invariant. -/
theorem Closing.handled (h : v.Closing) {p : Page} (hp : v.toPage.Handled p) (stage : Stage) :
    Closing { v with toPage := p, stage := stage } := by
  refine h.keep (congrArg (·.remaining) hp.terms) (fun hends => hends.of_terms hp.terms) ?_ stage
  refine hp.told.mono fun e he => ?_
  obtain ⟨i, rfl⟩ := he
  rfl

theorem Closing.tell (h : v.Closing) {e : Event} (he : e.restarts? = none) :
    Closing { v with toPage := v.toPage.tell e } :=
  h.keep (p := v.toPage.tell e) rfl id (.cons he (.refl _)) v.stage

/-- An entry with runs left is not about to end. -/
theorem Closing.of_left (hleft : v.entry.remaining.isSpent = false) : v.Closing := by
  intro _ hspent
  rw [hleft] at hspent
  simp at hspent

/-- Once somebody has set the limit nothing is said. -/
theorem Closing.of_set {e : Event} {runs : Runs} (he : e ∈ v.history)
    (hset : e.limit? = some runs) : v.Closing := by
  intro hlimit _
  rw [hlimit e he] at hset
  simp at hset

/-- Every control keeps the invariant. `start` restarts the entry, `setRuns` sets the limit, and
`reset` restores a limit that was never set to nothing. -/
theorem Closing.control (h : v.Closing) {given : Runs} (hgiven : given.isSpent = false)
    (haccount : v.Accounted given) (i : EntryId) {c : Control} (hc : c ≠ .run) :
    Closing { v with toPage := v.toPage.control i c } := by
  have htell : Closing { v with toPage := v.toPage.tell (.controlled i c) } := h.tell rfl
  cases c with
  | stop =>
    simp only [Page.control]
    split
    · exact htell
    · have hstop : Closing { v with
          toPage := (v.toPage.tell (.controlled i .stop)).modify (·.stop) } := by
        refine htell.keep (p := (v.toPage.tell (.controlled i .stop)).modify (·.stop)) ?_
          Entry.Ending.stop (.refl _) v.stage
        show v.entry.stop.remaining = v.entry.remaining
        unfold Entry.stop
        split <;> rfl
      exact hstop.tell rfl
  | start =>
    simp only [Page.control]
    split
    · -- a stopped entry is started, and the log says so
      have hlog : Closing { v with
          toPage := ((v.toPage.tell (.controlled i .start)).modify
            (·.start)).log (.entryStarted i) } :=
        fun _ _ => Or.inl (restarted_cons_of_some rfl _)
      exact hlog.handled (Page.handled_reinstall _ i) v.stage
    · exact htell
  | reset =>
    intro hlimit hspent
    -- a reset restores the runs that were given, since nobody set others
    have hnone : (v.history.findSome? Event.limit?) = none := by
      refine List.findSome?_eq_none_iff.2 fun e he => hlimit e ?_
      exact (v.toPage.suffix_control i .reset).subset (List.mem_cons_of_mem _ he)
    have hrestored : (v.toPage.control i .reset).entry.remaining = given := by
      have hterms := (Page.handled_reinstall (((v.toPage.tell (.controlled i .reset)).modify
        (·.reset)).log (.entryReset i v.entry.limit)) i).terms
      have hlimit' : v.entry.limit = given := by
        rw [haccount.limit, limitAfter, hnone, Option.getD_none]
      exact (congrArg (·.remaining) hterms).trans hlimit'
    replace hspent : (v.toPage.control i .reset).entry.remaining.isSpent = true := hspent
    rw [hrestored, hgiven] at hspent
    simp at hspent
  | close =>
    simp only [Page.control]
    split
    · exact htell
    · have hclose : Closing { v with
          toPage := (v.toPage.tell (.controlled i .close)).modify (·.close) } :=
        htell.keep (p := (v.toPage.tell (.controlled i .close)).modify (·.close)) rfl
          Entry.Ending.close (.refl _) v.stage
      exact hclose.tell rfl
  | run => exact absurd rfl hc
  | setRuns runs => exact .of_set (e := .controlled i (.setRuns runs)) List.mem_cons_self rfl
  | setSingleton on =>
    exact htell.keep (p := v.toPage.control i (.setSingleton on)) rfl id (.refl _) v.stage

theorem Closing.conclude (h : v.Closing) (i : EntryId) (outcome : Outcome) :
    Closing { v with toPage := v.toPage.conclude i outcome } := by
  cases outcome with
  | exit =>
    exact h.keep (p := v.toPage.conclude i .exit) rfl Entry.Ending.close (.cons rfl (.refl _))
      v.stage
  | failed reason => exact h.tell rfl
  | done => exact h
  | crashed => exact h

/-- The end of an execution keeps the invariant: an entry that was to end then is closed. -/
theorem Closing.complete (h : v.Closing) (i : EntryId) (flight : Flight) :
    Closing { v with toPage := v.toPage.complete i, flight := flight } := by
  have hend : Closing { v with
      toPage := (v.toPage.modify (·.complete)).tell (.completed i), flight := flight } :=
    h.keep (p := (v.toPage.modify (·.complete)).tell (.completed i)) v.entry.runs_complete.2
      (fun hends => hends.complete _) (.cons rfl (.refl _)) v.stage
  simp only [Page.complete]
  split
  · exact hend.tell rfl
  · exact hend

/-- A look that launches nothing keeps the invariant. -/
theorem Closing.rest (h : v.Closing) (i : EntryId) (level tick : Nat) {nowMs : Nat}
    (idle : ∀ last, (v.entry.evaluate nowMs).1 ≠ .run last) : Closing { v with
      toPage := (v.toPage.look i level tick nowMs).rest i nowMs (v.entry.evaluate nowMs).1
      stage := .free } := by
  have hlook : Closing { v with toPage := v.toPage.look i level tick nowMs } := by
    refine h.keep (p := v.toPage.look i level tick nowMs) (Entry.runs_evaluate idle).2
      (fun hends => hends.evaluate idle) (.cons ?_ (.refl _)) v.stage
    cases hverdict : (v.entry.evaluate nowMs).1 with
    | run last => exact absurd hverdict (idle last)
    | _ => rfl
  exact hlook.handled (Page.handled_rest _ i nowMs _) .free

/-- One step of the world keeps the invariant of an entry. A launch that takes the last run leaves
the entry running with an execution that will close it. -/
theorem EntryStep.closing {law : Law} {i : EntryId} {given : Runs} (h : v.EntryStep law i v')
    (hgiven : given.isSpent = false) (haccount : v.Accounted given) (hv : v.Closing) :
    v'.Closing := by
  cases h with
  | passes there nowMs aim gone => exact hv
  | byHand => exact hv.tell rfl
  | begins job label clockUs => exact hv.tell rfl
  | concludes outcome => exact hv.conclude i outcome
  | controls c plain => exact hv.control hgiven haccount i plain
  | completes executing => exact hv.complete i _
  | takesUp allowed held idle =>
    refine hv.keep rfl (fun hends => ?_) (.refl _) v.stage
    rw [Flight.count_takeUp held idle]
    exact hends
  | drains aim free owned => exact hv
  | rests level tick nowMs drained idle => exact hv.rest i level tick idle
  | launches level tick nowMs last holding drained idle runs =>
    -- the entry runs, and its execution is unfinished
    intro _ hspent
    refine Or.inr ⟨hspent, Or.inr ⟨?_, Or.inl (Entry.status_of_run runs)⟩⟩
    show 1 ≤ Flight.count ⟨v.flight.held + holding.toNat, !holding⟩
    rw [Flight.count_launch holding idle]
    omega
  | putsBack nowMs last launched idle =>
    exact hv.handled (v.toPage.handled_putBack i nowMs last) .free

end View

/-! ## Between ticks -/

/-- The invariant, and the account of runs with it, holds from the addition of an entry on. -/
theorem Moment.AddedAs.closing {law : Law} {m : Moment} {i : EntryId} {r : Registration}
    {addedMs : Nat} (h : m.AddedAs law i r addedMs) (hruns : r.runs.isSpent = false) :
    ∃ v, m.view i = some v ∧ v.Accounted r.runs ∧ v.Closing := by
  refine h.induction (p := fun v => v.Accounted r.runs ∧ v.Closing) (fun hadded => ?_)
    fun _ _ _ _ hstepped ⟨haccount, hv⟩ =>
      ⟨hstepped.accounted haccount, hstepped.closing hruns haccount hv⟩
  refine ⟨hadded.accounted, .of_left ?_⟩
  rw [hadded.runs.2]
  exact hruns

/-- **An entry that has used up its runs is closed once its executions have ended**, unless it was
stopped and started again since the last of them was launched. That holds of every entry that was
added with a run and whose limit nobody has set, between ticks and in the middle of one. -/
theorem exhausted_closed {m : Moment} {i : EntryId} {r : Registration} {addedMs : Nat}
    (h : m.AddedAs .free i r addedMs) (hruns : r.runs.isSpent = false)
    (hset : ∀ ev ∈ m.world.history i, ev.limit? = none) {e : Entry}
    (he : m.world.entries[i]? = some e) (hspent : e.remaining.isSpent = true)
    (hended : m.unfinished i = 0) (hstart : restarted (m.world.history i) = false) :
    e.status = .closed := by
  obtain ⟨v, hv, -, hclosing⟩ := h.closing hruns
  have hunfinished := Moment.unfinished_of_view hv
  obtain ⟨rfl, hhistory⟩ := Moment.read_view hv he
  rw [← hhistory] at hset hstart
  rcases hclosing hset hspent with hrestarted | ⟨-, hclosed | ⟨hone, -⟩⟩
  · rw [hrestarted] at hstart
    simp at hstart
  · exact hclosed
  · omega

/-- A job was added with one run and had it, and its body performed some actions meanwhile. -/
def afterOnlyRun (body : List Action) : World := World.after {}
  [.create { slots := 4, levels := 1, intervalMs := 10 },
    .act (.schedule "a" (.once 10) none [] [body]), .advance 10000]

/-- The body stops its own entry, and the end of the run closes it. -/
theorem exhausted_closed_when_stopped : ∃ e,
    (afterOnlyRun [.control "a" .stop]).entries[0]? = some e ∧ e.remaining = .left 0
      ∧ e.status = .closed := by
  let w := afterOnlyRun [.control "a" .stop]
  obtain ⟨e, he⟩ : ∃ e, w.entries[0]? = some e := Option.isSome_iff_exists.1 (by decide +kernel)
  have hlimit : w.entries[0]?.map (·.limit) = some (.left 1) := by decide +kernel
  have hremaining : w.entries[0]?.map (·.remaining) = some (.left 0) := by decide +kernel
  have hset : ∀ ev ∈ w.history 0, ev.limit? = none := by decide +kernel
  rw [he] at hlimit hremaining
  have harises : Moment.Arises ⟨w, none, none⟩ := ((World.Reachable.fresh 3).after _).arises
  obtain ⟨r, addedMs, hadded⟩ := harises.exists_addedAs he
  have hruns : r.runs = .left 1 :=
    (hadded.limit_eq he hset).symm.trans (Option.some.inj hlimit)
  have hspent : e.remaining = .left 0 := Option.some.inj hremaining
  refine ⟨e, he, hspent, exhausted_closed hadded ?_ hset he ?_ (by decide +kernel)
    (by decide +kernel)⟩
  · rw [hruns]
    rfl
  · rw [hspent]
    rfl

/-- Not every entry that has used up its runs is closed: the body stops its own entry and starts it
again, and the entry is ready after its only run. -/
theorem exhausted_left_ready : ¬ ∀ (w : World) (i : EntryId) (r : Registration) (addedMs : Nat)
    (e : Entry), w.Reachable → Moment.AddedAs .free ⟨w, none, none⟩ i r addedMs →
    r.runs.isSpent = false → (∀ ev ∈ w.history i, ev.limit? = none) → w.entries[i]? = some e →
    e.remaining.isSpent = true → w.held.count i = 0 → e.status = .closed := by
  intro hall
  let w := afterOnlyRun [.control "a" .stop, .control "a" .start]
  obtain ⟨e, he⟩ : ∃ e, w.entries[0]? = some e := Option.isSome_iff_exists.1 (by decide +kernel)
  have hlimit : w.entries[0]?.map (·.limit) = some (.left 1) := by decide +kernel
  have hremaining : w.entries[0]?.map (·.remaining) = some (.left 0) := by decide +kernel
  have hstatus : w.entries[0]?.map (·.status) = some .ready := by decide +kernel
  have hset : ∀ ev ∈ w.history 0, ev.limit? = none := by decide +kernel
  rw [he] at hlimit hremaining hstatus
  have hreachable : w.Reachable := .after (.fresh 3) _
  obtain ⟨r, addedMs, hadded⟩ := hreachable.arises.exists_addedAs he
  have hruns : r.runs = .left 1 :=
    (hadded.limit_eq he hset).symm.trans (Option.some.inj hlimit)
  have hspent : e.remaining = .left 0 := Option.some.inj hremaining
  have hclosed := hall w 0 r addedMs e hreachable hadded (by rw [hruns]; rfl) hset he
    (by rw [hspent]; rfl) (by decide +kernel)
  have hready : e.status = .ready := Option.some.inj hstatus
  rw [hready] at hclosed
  simp at hclosed

end TimingWheel
