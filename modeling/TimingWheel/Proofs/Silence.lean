import TimingWheel.Proofs.Armed
import TimingWheel.Proofs.Record

/-!
# Stopped and closed entries stay silent

A stopped or closed entry stays in its slot, or in the batch of the tick that drained it, and what
keeps the wheels from launching it is its status alone. Many things write the status: controls,
looks of ticks, bodies that end and executions that end, in any order.

* **`Entry.Becomes.of_closed`**, **`Entry.Becomes.of_stopped`** — where one event can bring a closed
  or a stopped entry.
* **`silenced`** — the history tells that the owner stopped or closed the entry and has not undone
  that since.
* **`upheld_silent`** — as long as it tells that, the entry is kept from running and nothing is
  launched.
* **`silent_until_undone`** — what the two say about runs of the world.
-/

namespace TimingWheel

/-! ## One event -/

namespace Entry

variable {i : EntryId} {e e' : Entry} {ev : Event}

/-- Nothing but a reset makes anything of a closed entry. -/
theorem Becomes.of_closed (h : e.Becomes i ev e') (closed : e.status = .closed) :
    ev.isLaunch = false
    ∧ (e'.status = .closed ∨ e'.status = .reset ∧ ev = .controlled i .reset) := by
  cases h with
  | controlled c =>
    refine ⟨rfl, ?_⟩
    cases c with
    | reset => exact Or.inr ⟨rfl, rfl⟩
    | close => exact Or.inl rfl
    | _ => exact Or.inl (by simp [Entry.controlled, stop, start, setRuns, setSingleton, closed])
  | exited => exact ⟨rfl, Or.inl rfl⟩
  | completed flying => exact ⟨rfl, Or.inl (by simp [complete, closed])⟩
  | looked level tick nowMs =>
    have hlook : e.evaluate nowMs = (.drop, e) := by simp [evaluate, settleReset, closed]
    rw [hlook]
    exact ⟨rfl, Or.inl closed⟩

/-- A stopped entry is stopped until it is started, reset or closed: by its owner, by a body that
asks for the end, or by the end of an execution when no run is left. -/
theorem Becomes.of_stopped (h : e.Becomes i ev e') (stopped : e.status = .stopped) :
    ev.isLaunch = false
    ∧ (e'.status = .stopped
      ∨ e'.status = .ready ∧ ev = .controlled i .start
      ∨ e'.status = .reset ∧ ev = .controlled i .reset
      ∨ e'.status = .closed ∧ (ev = .controlled i .close ∨ ev = .logged (.jobExited i)
        ∨ ev = .completed i ∧ e.remaining.isSpent = true)) := by
  cases h with
  | controlled c =>
    refine ⟨rfl, ?_⟩
    cases c with
    | start => exact Or.inr (Or.inl ⟨by simp [Entry.controlled, start, stopped], rfl⟩)
    | reset => exact Or.inr (Or.inr (Or.inl ⟨rfl, rfl⟩))
    | close => exact Or.inr (Or.inr (Or.inr ⟨rfl, Or.inl rfl⟩))
    | _ => exact Or.inl (by simp [Entry.controlled, stop, setRuns, setSingleton, stopped])
  | exited => exact ⟨rfl, Or.inr (Or.inr (Or.inr ⟨rfl, Or.inr (Or.inl rfl)⟩))⟩
  | completed flying =>
    refine ⟨rfl, ?_⟩
    by_cases hspent : e.remaining.isSpent = true
    · have hclosed : e.complete.status = .closed := by simp [complete, stopped, hspent]
      exact Or.inr (Or.inr (Or.inr ⟨hclosed, Or.inr (Or.inr ⟨rfl, hspent⟩)⟩))
    · exact Or.inl (by simp [complete, stopped, hspent])
  | looked level tick nowMs =>
    -- the look finds the entry early or suspended, and leaves it as it is
    have hsettled : e.settleReset = e := by
      unfold settleReset
      rw [if_neg (by rw [stopped]; decide)]
    have hlook := e.evaluated nowMs
    generalize e.evaluate nowMs = look at hlook
    cases hlook with
    | ended closed => simp [stopped] at closed
    | early alive wait =>
      rw [hsettled]
      exact ⟨rfl, Or.inl stopped⟩
    | suspended stopped due => exact ⟨rfl, Or.inl stopped⟩
    | busy alive due active singleton inFlight => exact absurd stopped active
    | spent alive due active none => exact absurd stopped active
    | launched alive due active free rest left => exact absurd stopped active

end Entry

/-! ## Since the owner stopped or closed the entry -/

/-- Whether a control undoes another one. -/
def Control.undoes : Control → Control → Bool
  | .reset, .close => true
  | .reset, .stop => true
  | .start, .stop => true
  | _, _ => false

/-- Whether a control is in force from now on, if that is what the event is about. -/
def Event.silences? (c : Control) : Event → Option Bool
  | .controlled _ c' => if c' = c then some true else if c'.undoes c then some false else none
  | _ => none

/-- The owner used a control and has not undone it since. -/
def silenced (c : Control) (history : List Event) : Bool :=
  (history.findSome? (Event.silences? c)).getD false

/-- What a control that is in force keeps an entry in. -/
def Control.Stands (c : Control) (e : Entry) : Prop :=
  e.status = .closed ∨ c = .stop ∧ e.status = .stopped

/-- No execution was launched while a control was in force. -/
def Silent (c : Control) : List Event → Prop
  | [] => True
  | ev :: before => (silenced c before = true → ev.isLaunch = false) ∧ Silent c before

section

variable {c : Control} {i : EntryId}

/-- The last event that says anything about the silence decides. -/
theorem silenced_cons (c : Control) (ev : Event) (history : List Event) :
    silenced c (ev :: history) = (ev.silences? c).getD (silenced c history) := by
  simp only [silenced, List.findSome?_cons]
  cases ev.silences? c <;> rfl

/-- As long as nobody undoes the control, it stays in force and nothing is launched. -/
theorem Silent.launchCount_eq_zero {after before : List Event} (h : Silent c (after ++ before))
    (hbefore : silenced c before = true) (hnever : ∀ ev ∈ after, ev.silences? c ≠ some false) :
    launchCount after = 0 ∧ silenced c (after ++ before) = true := by
  induction after with
  | nil => exact ⟨rfl, hbefore⟩
  | cons ev after ih =>
    obtain ⟨hev, hrest⟩ := List.forall_mem_cons.1 hnever
    obtain ⟨hcount, hforce⟩ := ih h.2 hrest
    have hlaunch : ev.isLaunch = false := h.1 hforce
    refine ⟨?_, ?_⟩
    · rw [launchCount, List.countP_cons_of_neg (by simp [hlaunch])]
      exact hcount
    · rw [List.cons_append, silenced_cons, hforce]
      cases hs : ev.silences? c with
      | none => rfl
      | some on =>
        cases on with
        | true => rfl
        | false => exact absurd hs hev

/-- An event that does not undo the control leaves the entry in what it was kept in. -/
theorem Control.Stands.becomes {e e' : Entry} {ev : Event} (h : c.Stands e)
    (hev : e.Becomes i ev e') (hcontrol : c = .stop ∨ c = .close)
    (hkeeps : ev.silences? c ≠ some false) : ev.isLaunch = false ∧ c.Stands e' := by
  have hreset : ev ≠ .controlled i .reset := by
    rintro rfl
    rcases hcontrol with rfl | rfl <;> simp [Event.silences?, Control.undoes] at hkeeps
  rcases h with hclosed | ⟨rfl, hstopped⟩
  · obtain ⟨hlaunch, hclosed' | ⟨-, hundone⟩⟩ := hev.of_closed hclosed
    · exact ⟨hlaunch, Or.inl hclosed'⟩
    · exact absurd hundone hreset
  · obtain ⟨hlaunch, hstatus⟩ := hev.of_stopped hstopped
    refine ⟨hlaunch, ?_⟩
    rcases hstatus with hstopped' | ⟨-, rfl⟩ | ⟨-, hundone⟩ | ⟨hclosed', -⟩
    · exact Or.inr ⟨rfl, hstopped'⟩
    · simp [Event.silences?, Control.undoes] at hkeeps
    · exact absurd hundone hreset
    · exact Or.inl hclosed'

/-- The control itself brings the entry into what it is kept in. -/
theorem Control.Stands.of_silences {e e' : Entry} {ev : Event} (hev : e.Becomes i ev e')
    (hcontrol : c = .stop ∨ c = .close) (hnow : ev.silences? c = some true) :
    ev.isLaunch = false ∧ c.Stands e' := by
  cases hev with
  | controlled c' =>
    have hsame : c' = c := by
      by_contra hother
      simp [Event.silences?, hother] at hnow
    refine ⟨rfl, ?_⟩
    subst hsame
    rcases hcontrol with rfl | rfl
    · by_cases hover : e.status = .stopped ∨ e.status = .closed
      · rw [Entry.controlled, Entry.stop, if_pos hover]
        exact hover.elim (fun hstopped => Or.inr ⟨rfl, hstopped⟩) Or.inl
      · rw [Entry.controlled, Entry.stop, if_neg hover]
        exact Or.inr ⟨rfl, rfl⟩
    · exact Or.inl rfl
  | _ => simp [Event.silences?] at hnow

/-- A plain event says nothing about it. -/
theorem Event.silences?_of_plain {ev : Event} (h : ev.plain = true) : ev.silences? c = none := by
  cases ev with
  | controlled j c' => simp [plain] at h
  | _ => rfl

/-- The status bears out what the history tells of stop and close. -/
theorem upheld_silent (i : EntryId) (hcontrol : c = .stop ∨ c = .close) :
    Upheld i fun history e => (silenced c history = true → c.Stands e) ∧ Silent c history where
  fresh _ _ := ⟨fun hnever => by simp [silenced] at hnever, trivial⟩
  same hterms h := by
    have hstatus := congrArg (·.status) hterms
    simp only [Entry.terms] at hstatus
    simpa only [Control.Stands, hstatus] using h
  plain hplain h := by
    refine ⟨fun hforce => h.1 ?_, fun _ => Event.not_launch_of_plain hplain, h.2⟩
    rwa [silenced_cons, Event.silences?_of_plain hplain, Option.getD_none] at hforce
  becomes {history e e' ev} hev _ h := by
    obtain ⟨hstands, hsilent⟩ := h
    have hbefore (hforce : silenced c history = true) (hkeeps : ev.silences? c ≠ some false) :
        ev.isLaunch = false ∧ c.Stands e' :=
      (hstands hforce).becomes hev hcontrol hkeeps
    cases hs : ev.silences? c with
    | none =>
      rw [silenced_cons, hs, Option.getD_none]
      exact ⟨fun hforce => (hbefore hforce (by simp [hs])).2,
        fun hforce => (hbefore hforce (by simp [hs])).1, hsilent⟩
    | some on =>
      rw [silenced_cons, hs, Option.getD_some]
      cases on with
      | true =>
        obtain ⟨hlaunch, hnow⟩ := Control.Stands.of_silences hev hcontrol hs
        exact ⟨fun _ => hnow, fun _ => hlaunch, hsilent⟩
      | false =>
        -- what undoes a control is a control, and no launch
        refine ⟨fun hundone => by simp at hundone, fun _ => ?_, hsilent⟩
        cases ev with
        | controlled j c' => rfl
        | _ => simp [Event.silences?] at hs

/-- Since the owner used a control, and until it is undone, nothing is launched. -/
theorem Moment.Arises.silent {m : Moment} (h : m.Arises) {e : Entry}
    (he : m.world.entries[i]? = some e) (hcontrol : c = .stop ∨ c = .close)
    {after before : List Event} (hhistory : m.world.history i = after ++ .controlled i c :: before)
    (hnever : ∀ c', c'.undoes c = true → .controlled i c' ∉ after) :
    launchCount after = 0 ∧ c.Stands e := by
  obtain ⟨hstands, hsilent⟩ := (upheld_silent i hcontrol).arises h he
  rw [hhistory] at hstands hsilent
  have hkept : ∀ ev ∈ after, ev.silences? c ≠ some false := by
    intro ev hev hundone
    cases ev with
    | controlled j c' =>
      obtain rfl : j = i := by
        have habout := World.about_of_mem_history (w := m.world) (i := i)
          (hhistory ▸ List.mem_append_left _ hev)
        exact Option.some.inj habout
      refine hnever c' ?_ hev
      by_contra hother
      by_cases hsame : c' = c <;> simp [Event.silences?, hsame, hother] at hundone
    | _ => simp [Event.silences?] at hundone
  have hforce : silenced c (.controlled i c :: before) = true := by
    simp [silenced_cons, Event.silences?]
  obtain ⟨hcount, hall⟩ := hsilent.launchCount_eq_zero hforce hkept
  exact ⟨hcount, hstands hall⟩

end

/-! ## Runs of the world -/

/-- What is told of an entry from one world to the other begins with an event. -/
def World.Tells (w w' : World) (i : EntryId) (ev : Event) : Prop :=
  ev :: w.history i <:+ w'.history i

/-- Plain events tell of no launch. -/
theorem TellsMore.launchCount_eq {history history' : List Event}
    (h : TellsMore (·.plain = true) history history') :
    launchCount history' = launchCount history := by
  obtain ⟨events, rfl, hplain⟩ := h
  have hnone : launchCount events = 0 :=
    List.countP_eq_zero.2 fun ev hev => by simp [Event.not_launch_of_plain (hplain ev hev)]
  rw [launchCount_append, hnone, Nat.zero_add]

/-- An event that is no launch, and what is told beyond it, leave the launches as they were. -/
theorem TellsMore.launchCount_of_event {history history' : List Event} {ev : Event}
    (h : TellsMore (·.plain = true) (ev :: history) history') (hev : ev.isLaunch = false) :
    launchCount history' = launchCount history := by
  rw [h.launchCount_eq, launchCount, List.countP_cons_of_neg (by simp [hev])]
  rfl

namespace Page

variable {i : EntryId} {p p' : Page}

/-- **What can happen to a closed entry.** -/
theorem Undergoes.of_closed (h : p.Undergoes i p') (closed : p.entry.status = .closed) :
    launchCount p'.history = launchCount p.history
    ∧ (p'.entry.status = .closed
      ∨ p'.entry.status = .reset ∧ .controlled i .reset :: p.history <:+ p'.history) := by
  cases h with
  | calm same told =>
    have hstatus : p'.entry.status = p.entry.status := congrArg (·.status) same
    exact ⟨told.launchCount_eq, Or.inl (hstatus.trans closed)⟩
  | event ev e becomes same told =>
    have hstatus : p'.entry.status = e.status := congrArg (·.status) same
    obtain ⟨hlaunch, hwhere⟩ := becomes.of_closed closed
    rw [hstatus]
    refine ⟨told.launchCount_of_event hlaunch, hwhere.imp_right fun ⟨hreset, hev⟩ => ?_⟩
    exact ⟨hreset, hev ▸ told.suffix⟩

/-- **What can happen to a stopped entry.** -/
theorem Undergoes.of_stopped (h : p.Undergoes i p') (stopped : p.entry.status = .stopped) :
    launchCount p'.history = launchCount p.history
    ∧ (p'.entry.status = .stopped
      ∨ p'.entry.status = .ready ∧ .controlled i .start :: p.history <:+ p'.history
      ∨ p'.entry.status = .reset ∧ .controlled i .reset :: p.history <:+ p'.history
      ∨ p'.entry.status = .closed ∧ (.controlled i .close :: p.history <:+ p'.history
        ∨ .logged (.jobExited i) :: p.history <:+ p'.history
        ∨ .completed i :: p.history <:+ p'.history ∧ p.entry.remaining.isSpent = true)) := by
  cases h with
  | calm same told =>
    have hstatus : p'.entry.status = p.entry.status := congrArg (·.status) same
    exact ⟨told.launchCount_eq, Or.inl (hstatus.trans stopped)⟩
  -- one event touched the status, and which one it was is read off its new value
  | event ev e becomes same told =>
    have hstatus : p'.entry.status = e.status := congrArg (·.status) same
    have htold : ∀ {ev'}, ev = ev' → ev' :: p.history <:+ p'.history := by
      rintro _ rfl
      exact told.suffix
    obtain ⟨hlaunch, hwhere⟩ := becomes.of_stopped stopped
    rw [hstatus]
    refine ⟨told.launchCount_of_event hlaunch, ?_⟩
    rcases hwhere with hstopped | ⟨hready, hev⟩ | ⟨hreset, hev⟩ | ⟨hclosed, hev⟩
    · exact Or.inl hstopped
    · exact Or.inr (Or.inl ⟨hready, htold hev⟩)
    · exact Or.inr (Or.inr (Or.inl ⟨hreset, htold hev⟩))
    · exact Or.inr (Or.inr (Or.inr ⟨hclosed, hev.imp htold
        (Or.imp htold fun hended => ⟨htold hended.1, hended.2⟩)⟩))

end Page

/-- **Stop and close are effective until they are undone.** Nothing that happens launches a closed
entry, and nothing but a reset makes it anything else than closed. Nothing that happens launches a
stopped one, and it stays stopped unless it is started or reset, or is over: its owner closes it, a
body of it asks for the end, or an execution of it ends and no run is left.

So from the moment in which an entry is closed, none of its executions is launched before it is
reset, and from the moment in which it is stopped none is before it is started or reset. That holds
in the middle of a tick as well, whoever closed or stopped it, whether or not the entry is in the
batch of the tick, and whatever executions end meanwhile. -/
theorem silent_until_undone {m : Moment} (h : m.Arises) {i : EntryId} {e : Entry}
    (he : m.world.entries[i]? = some e) :
    (∀ m', Move .free m m' → ∃ e', m'.world.entries[i]? = some e'
      ∧ (e.status = .closed →
          launchCount (m'.world.history i) = launchCount (m.world.history i)
          ∧ (e'.status = .closed
            ∨ e'.status = .reset ∧ m.world.Tells m'.world i (.controlled i .reset)))
      ∧ (e.status = .stopped →
          launchCount (m'.world.history i) = launchCount (m.world.history i)
          ∧ (e'.status = .stopped
            ∨ e'.status = .ready ∧ m.world.Tells m'.world i (.controlled i .start)
            ∨ e'.status = .reset ∧ m.world.Tells m'.world i (.controlled i .reset)
            ∨ e'.status = .closed ∧ (m.world.Tells m'.world i (.controlled i .close)
              ∨ m.world.Tells m'.world i (.logged (.jobExited i))
              ∨ m.world.Tells m'.world i (.completed i) ∧ e.remaining.isSpent = true))))
    ∧ (∀ after before, m.world.history i = after ++ .controlled i .close :: before →
        .controlled i .reset ∉ after → launchCount after = 0 ∧ e.status = .closed)
    ∧ ∀ after before, m.world.history i = after ++ .controlled i .stop :: before →
        .controlled i .start ∉ after → .controlled i .reset ∉ after →
        launchCount after = 0 ∧ (e.status = .stopped ∨ e.status = .closed) := by
  refine ⟨fun m' hmove => ?_, fun after before hhistory hreset => ?_,
    fun after before hhistory hstart hreset => ?_⟩
  -- one move is a step of the entry; the rest follows for stretches of its history
  · obtain ⟨p, p', rfl, hhistory, he', hhistory', hp⟩ := hmove.undergoes h he
    unfold World.Tells
    rw [← hhistory, ← hhistory']
    exact ⟨p'.entry, he', hp.of_closed, hp.of_stopped⟩
  · obtain ⟨hcount, hclosed | ⟨hstop, -⟩⟩ := h.silent he (Or.inr rfl) hhistory fun c' hundoes => by
      cases c' <;> simp [Control.undoes] at hundoes
      exact hreset
    · exact ⟨hcount, hclosed⟩
    · simp at hstop
  · obtain ⟨hcount, hclosed | ⟨-, hstopped⟩⟩ := h.silent he (Or.inl rfl) hhistory
      fun c' hundoes => by
        cases c' <;> simp [Control.undoes] at hundoes
        · exact hstart
        · exact hreset
    · exact ⟨hcount, Or.inr hclosed⟩
    · exact ⟨hcount, Or.inl hstopped⟩

/-- Two jobs are in the batch of one tick. The body of the first stops its own entry and closes the
other one, of which an execution is held back since the tick before. That ends later. -/
def stoppedAndClosed : World := World.after {}
  [.create { slots := 4, levels := 1, intervalMs := 10 }, .act (.hold true),
    .act (.schedule "b" (.repeating 10) none [] []),
    .act (.schedule "a" (.repeating 20) none [] [[.control "a" .stop, .control "b" .close]]),
    .advance 10000, .act (.hold false), .advance 10000, .finish 0, .advance 50000]

/-- The tick finds the entry over that was closed under its hands, and later ticks pass over the one
that stopped itself. -/
theorem silent_until_undone_in_batch :
    ∃ after after' before before',
      stoppedAndClosed.history 0 = after ++ .controlled 0 .close :: before
      ∧ .evaluated 0 0 2 20 .drop ∈ after ∧ .completed 0 ∈ after ∧ launchCount before = 1
      ∧ launchCount after = 0
      ∧ stoppedAndClosed.history 1 = after' ++ .controlled 1 .stop :: before'
      ∧ .evaluated 1 0 4 40 .skip ∈ after' ∧ launchCount before' = 1 ∧ launchCount after' = 0 := by
  have harises : Moment.Arises ⟨stoppedAndClosed, none, none⟩ :=
    ((World.Reachable.fresh 3).after _).arises
  obtain ⟨e, he⟩ : ∃ e, stoppedAndClosed.entries[0]? = some e :=
    Option.isSome_iff_exists.1 (by decide +kernel)
  obtain ⟨e', he'⟩ : ∃ e, stoppedAndClosed.entries[1]? = some e :=
    Option.isSome_iff_exists.1 (by decide +kernel)
  let after : List Event := [.completed 0, .started 0 0 "b" 20000, .evaluated 0 0 2 20 .drop,
    .logged (.entryClosed 0)]
  let after' : List Event := [.evaluated 1 0 6 60 .skip, .evaluated 1 0 4 40 .skip, .completed 1,
    .logged (.entryStopped 1)]
  have hclosed : stoppedAndClosed.history 0
      = after ++ .controlled 0 .close :: (stoppedAndClosed.history 0).drop 5 := by decide +kernel
  have hstopped : stoppedAndClosed.history 1
      = after' ++ .controlled 1 .stop :: (stoppedAndClosed.history 1).drop 5 := by decide +kernel
  obtain ⟨-, hclose, -⟩ := silent_until_undone harises he
  obtain ⟨-, -, hstop⟩ := silent_until_undone harises he'
  exact ⟨after, after', _, _, hclosed, by decide, by decide, by decide +kernel,
    (hclose after _ hclosed (by decide)).1, hstopped, by decide, by decide +kernel,
    (hstop after' _ hstopped (by decide) (by decide)).1⟩

end TimingWheel
