import TimingWheel.Proofs.Accounting
import TimingWheel.Proofs.Record

/-!
# Executions in flight

An entry counts its executions in flight in one place and says in another whether it is running. A
launch and the end of an execution write both, the controls write the status only, and executions of
an entry that may overlap itself end in any order.

* **`Entry.Engaged.becomes`** — a running entry has an execution in flight, and every event keeps it
  so.
* **`Covered`** — the history tells of no end of an execution that was not launched before.
* **`in_flight_exact`** — what the two say about runs of the world.
-/

namespace TimingWheel

variable {i : EntryId}

namespace Entry

variable {e e' : Entry}

/-- An entry that is running has an execution in flight. -/
def Engaged (e : Entry) : Prop := e.status = .running → 1 ≤ e.inFlight

/-- No control makes an entry run. -/
theorem Engaged.controlled (h : e.Engaged) (c : Control) : (e.controlled c).Engaged := by
  intro hrunning
  cases c with
  | stop =>
    simp only [Entry.controlled, stop] at hrunning ⊢
    split at hrunning
    · next hover => simp [hrunning] at hover
    · simp at hrunning
  | start =>
    simp only [Entry.controlled, start] at hrunning ⊢
    split at hrunning
    · simp at hrunning
    · next hstarted =>
      rw [if_neg hstarted]
      exact h hrunning
  | reset => simp [Entry.controlled, reset] at hrunning
  | close => simp [Entry.controlled, close] at hrunning
  | run => exact h hrunning
  | setRuns runs => exact h hrunning
  | setSingleton on => exact h hrunning

/-- The end of the last execution in flight leaves the entry ready or over. -/
theorem Engaged.complete (e : Entry) : e.complete.Engaged := by
  intro hrunning
  unfold Entry.complete at hrunning ⊢
  simp only at hrunning ⊢
  split at hrunning
  · simp at hrunning
  · next hleft =>
    split at hrunning
    · simp at hrunning
    · next hlast =>
      rw [if_neg hleft, if_neg hlast]
      show 1 ≤ e.inFlight - 1
      have hmore : e.inFlight - 1 ≠ 0 := fun hnone => hlast ⟨hrunning, hnone⟩
      omega

/-- A look that makes an entry run launches an execution of it. -/
theorem Engaged.evaluate (h : e.Engaged) (nowMs : Nat) : (e.evaluate nowMs).2.Engaged := by
  intro hrunning
  have hsettled : e.settleReset.Engaged := by
    unfold settleReset
    split
    · simp [Engaged]
    · exact h
  have hlook := e.evaluated nowMs
  generalize e.evaluate nowMs = look at hlook hrunning
  cases hlook with
  | ended closed => exact h hrunning
  | early alive wait => exact hsettled hrunning
  | suspended stopped due => exact h hrunning
  | busy alive due active singleton inFlight => exact hsettled hrunning
  | spent alive due active none => simp at hrunning
  | launched alive due active free rest left => exact Nat.le_add_left 1 e.inFlight

/-- **Every event keeps an entry from running without an execution in flight.** -/
theorem Engaged.becomes {ev : Event} (h : e.Engaged) (hev : e.Becomes i ev e') : e'.Engaged := by
  cases hev with
  | controlled c => exact h.controlled c
  | exited => simp [Engaged, close]
  | completed flying => exact .complete e
  | looked level tick nowMs => exact h.evaluate nowMs

end Entry

/-- Every execution that ended was in flight. -/
def Covered : List Event → Prop
  | [] => True
  | ev :: before =>
    (ev.isCompletion = true → completionCount before < launchCount before) ∧ Covered before

/-- What covers a history covers every earlier part of it. -/
theorem Covered.of_append {after before : List Event} (h : Covered (after ++ before)) :
    Covered before := by
  induction after with
  | nil => exact h
  | cons ev after ih => exact ih h.2

/-- A running entry has an execution in flight, and none ended that was not. -/
theorem upheld_engaged (i : EntryId) :
    Upheld i fun history e => e.Engaged ∧ Covered history where
  fresh _ hrunning := ⟨fun h => absurd h hrunning, trivial⟩
  same hterms h := by
    have hstatus := congrArg (·.status) hterms
    have hinFlight := congrArg (·.inFlight) hterms
    simp only [Entry.terms] at hstatus hinFlight
    simpa only [Entry.Engaged, hstatus, hinFlight] using h
  plain hplain h :=
    ⟨h.1, fun hend => by simp [Event.not_completion_of_plain hplain] at hend, h.2⟩
  becomes hev hcount h := by
    refine ⟨h.1.becomes hev, fun hend => ?_, h.2⟩
    cases hev with
    | completed flying => omega
    | _ => simp [Event.isCompletion] at hend

/-- **The count of executions in flight never drifts.** It is the number of executions that were
launched and have not ended, in the world as in the history, and it is not zero when an execution
ends, so nothing is ever taken from zero. The entry is running only while it is at least one. A look
that launches nothing changes neither the count nor the runs that are left. -/
theorem in_flight_exact {m : Moment} (h : m.Arises) {i : EntryId} {e : Entry}
    (he : m.world.entries[i]? = some e) :
    e.inFlight = m.unfinished i
    ∧ launchCount (m.world.history i) = completionCount (m.world.history i) + e.inFlight
    ∧ (m.executing = some i → 1 ≤ e.inFlight)
    ∧ (∀ after before, m.world.history i = after ++ .completed i :: before →
        completionCount before < launchCount before)
    ∧ (e.status = .running → 1 ≤ m.unfinished i)
    ∧ ∀ (e' : Entry) (nowMs : Nat), (∀ last, (e'.evaluate nowMs).1 ≠ .run last) →
        (e'.evaluate nowMs).2.inFlight = e'.inFlight
        ∧ (e'.evaluate nowMs).2.remaining = e'.remaining := by
  obtain ⟨v, hv, -⟩ := Moment.exists_view he
  have hexclusive := (h.life hv).exclusive
  have hunfinished := Moment.unfinished_of_view hv
  obtain ⟨hentry, hhistory⟩ := Moment.read_view hv he
  obtain ⟨hrunning, hcovered⟩ := (upheld_engaged i).arises h he
  -- the counter of the entry and what is in flight in the world are both the unfinished launches
  have hcount : e.inFlight = m.unfinished i := by
    rw [← hentry, hexclusive.inFlight, hunfinished]
  refine ⟨hcount, ?_, fun hexecuting => ?_, fun after before hsplit => ?_, fun hstatus => ?_,
    fun e' nowMs idle => ⟨(e'.executions_evaluate idle).2, (Entry.runs_evaluate idle).2⟩⟩
  · rw [← hhistory, hcount, ← hunfinished]
    exact hexclusive.balance
  · -- the execution in progress has not ended
    rw [hcount, Moment.unfinished, if_pos hexecuting]
    omega
  · rw [hsplit] at hcovered
    exact hcovered.of_append.1 rfl
  · rw [← hcount]
    exact hrunning hstatus

/-- Three executions of one entry are held back, and two of them end badly, the younger one
first. -/
def overlapping : World := World.after {}
  [.create { slots := 4, levels := 1, intervalMs := 10 }, .act (.hold true),
    .act (.schedule "a" (.repeating 10) none [.failed "no", .crashed] []), .advance 30000,
    .finish 1, .finish 0]

/-- The entry is running, and its third execution is in flight. -/
theorem in_flight_exact_while_overlapping : ∃ e, overlapping.entries[0]? = some e
    ∧ e.status = .running ∧ launchCount (overlapping.history 0) = 3
    ∧ completionCount (overlapping.history 0) = 2 ∧ e.inFlight = 1
    ∧ 1 ≤ Moment.unfinished ⟨overlapping, none, none⟩ 0 := by
  obtain ⟨e, he⟩ : ∃ e, overlapping.entries[0]? = some e :=
    Option.isSome_iff_exists.1 (by decide +kernel)
  have hstatus : overlapping.entries[0]?.map (·.status) = some .running := by decide +kernel
  rw [he] at hstatus
  have hrunning : e.status = .running := Option.some.inj hstatus
  have hlaunches : launchCount (overlapping.history 0) = 3 := by decide +kernel
  have hcompletions : completionCount (overlapping.history 0) = 2 := by decide +kernel
  obtain ⟨-, hbalance, -, -, hengaged, -⟩ :=
    in_flight_exact ((World.Reachable.fresh 3).after _).arises he
  refine ⟨e, he, hrunning, hlaunches, hcompletions, ?_, hengaged hrunning⟩
  have hthree : launchCount (overlapping.history 0)
      = completionCount (overlapping.history 0) + e.inFlight := hbalance
  omega

end TimingWheel
