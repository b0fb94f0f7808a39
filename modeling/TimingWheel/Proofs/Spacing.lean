import TimingWheel.Proofs.Addition
import TimingWheel.Proofs.Onward

/-!
# No launch is early, and no two come at once

The due time of an entry is written in four places, from two readings of the clock, and an entry may
come back to the wheels with the due time it had. Two facts carry the bound through all of that.
After `n` launches an entry that the wheels own is due `n + 1` intervals after it was added at the
earliest, and later than any launch. And the clock is at least `n` intervals after the addition, so
that an entry which the wheels take back is not due too early either.

* **`View.Unhurried`** — the invariant: how the launches lie, and what that means for the due time.
* **`View.Unhurried.timingStep`** — whatever happens to the entry keeps it, as long as the clock of
  its timer does not go back.
* **`launches_spaced`** — after so many launches so many intervals have passed, and no two launches
  are at the same time.
-/

namespace TimingWheel

/-! ## Launch times -/

/-- Launches of an entry with an interval, added at a time: none is early, and no two are at the
same time. Times are counted up to the last one there is. -/
structure Spaced (gapMs addedMs : Nat) (times : List Nat) : Prop where
  inTime : ∀ {n ms : Nat}, times[n]? = some ms → min (addedMs + (n + 1) * gapMs) ceiling ≤ ms
  apart : times.Pairwise fun ms ms' => ms < ceiling → ms < ms'

/-- A time that is not too early for the next launch. -/
structure Ahead (gapMs addedMs : Nat) (times : List Nat) (dueMs : Nat) : Prop where
  inTime : min (addedMs + (times.length + 1) * gapMs) ceiling ≤ dueMs
  later : ∀ ms ∈ times, ms < ceiling → ms < dueMs

section

variable {gapMs addedMs dueMs ms : Nat} {times : List Nat}

theorem Spaced.nil : Spaced gapMs addedMs [] := ⟨fun h => by simp at h, .nil⟩

/-- One more launch at a due time that is ahead of all earlier ones, or after it. -/
theorem Spaced.append (h : Spaced gapMs addedMs times)
    (hahead : Ahead gapMs addedMs times dueMs) (hdue : dueMs ≤ ms) :
    Spaced gapMs addedMs (times ++ [ms]) := by
  refine ⟨fun {n t} ht => ?_, ?_⟩
  · rcases Nat.lt_or_ge n times.length with hbefore | hlast
    · rw [List.getElem?_append_left hbefore] at ht
      exact h.inTime ht
    · rw [List.getElem?_append_right hlast, List.getElem?_singleton] at ht
      split at ht
      · next hzero =>
        obtain rfl : ms = t := Option.some.inj ht
        obtain rfl : n = times.length := by omega
        exact Nat.le_trans hahead.inTime hdue
      · simp at ht
  · refine List.pairwise_append.2 ⟨h.apart, List.pairwise_singleton _ _, ?_⟩
    intro t ht t' ht' hcount
    rw [List.mem_singleton.1 ht']
    exact Nat.lt_of_lt_of_le (hahead.later t ht hcount) hdue

/-- One interval on from a time that is not before the last launch is not too early. -/
theorem Ahead.of_addCapped (hinterval : 1 ≤ gapMs)
    (hreached : min (addedMs + times.length * gapMs) ceiling ≤ ms)
    (hlater : ∀ t ∈ times, t < ceiling → t ≤ ms) :
    Ahead gapMs addedMs times (addCapped ms gapMs) := by
  refine ⟨?_, fun t ht hcount => ?_⟩
  · rw [Nat.succ_mul]
    unfold addCapped
    omega
  · have hle := hlater t ht hcount
    unfold addCapped
    omega

end

/-! ## Due times -/

namespace Entry

variable {e : Entry} {gapMs addedMs nowMs : Nat} {times : List Nat}

/-- A due time that moves on does not move back. -/
theorem le_advanceDue {ms : Nat} (hcount : ms ≤ ceiling) (hdue : ms ≤ e.dueMs) :
    ms ≤ (e.advanceDue nowMs).dueMs := by
  simp only [advanceDue]
  unfold addCapped
  split <;> omega

/-- A due time that is passed over moves on, so it is still ahead of the launches. -/
theorem ahead_advanceDue (h : Ahead gapMs addedMs times e.dueMs) :
    Ahead gapMs addedMs times (e.advanceDue nowMs).dueMs :=
  ⟨le_advanceDue (Nat.min_le_right _ _) h.inTime,
    fun ms hms hcount => le_advanceDue hcount (h.later ms hms hcount)⟩

/-- The due time that follows a launch is one interval later at least, and later than the launch. -/
theorem ahead_advanceDue_of_launch (hinterval : 1 ≤ gapMs) (hms : e.intervalMs = gapMs)
    (hreached : min (addedMs + times.length * gapMs) ceiling ≤ e.dueMs)
    (hlater : ∀ ms ∈ times, ms < ceiling → ms ≤ nowMs) :
    Ahead gapMs addedMs times (e.advanceDue nowMs).dueMs := by
  simp only [advanceDue, hms]
  split
  · next hpast =>
    -- the rate starts afresh from the launch
    refine .of_addCapped hinterval ?_ hlater
    unfold addCapped at hpast
    omega
  · next hnext =>
    refine ⟨?_, fun ms hmem hcount => ?_⟩
    · rw [Nat.succ_mul]
      unfold addCapped
      omega
    · exact Nat.lt_of_le_of_lt (hlater ms hmem hcount) (Nat.lt_of_not_le hnext)

end Entry

/-! ## The invariant -/

/-- Where an entry stands with the wheels, and when it is due accordingly. -/
inductive Entry.Due (gapMs addedMs : Nat) (times : List Nat) (e : Entry) : Stage → Prop where
  /-- The wheels do not own the entry. -/
  | out (out : e.installed = false) : Due gapMs addedMs times e .free
  /-- A slot holds the entry. -/
  | waiting (owned : e.installed = true) (ahead : Ahead gapMs addedMs times e.dueMs) :
      Due gapMs addedMs times e .free
  | drained (level tick nowMs : Nat) (owned : e.installed = true)
      (ahead : Ahead gapMs addedMs times e.dueMs) :
      Due gapMs addedMs times e (.drained level tick nowMs)
  /-- The due time is still the one of the launch. -/
  | launched (nowMs : Nat) (last : Bool) (owned : e.installed = true)
      (reached : min (addedMs + times.length * gapMs) ceiling ≤ e.dueMs)
      (later : ∀ ms ∈ times, ms < ceiling → ms ≤ nowMs) :
      Due gapMs addedMs times e (.launched nowMs last)

/-- The launches of an entry lie as they should, and it is not due too early for the next one. -/
structure View.Unhurried (gapMs addedMs : Nat) (v : View) : Prop where
  intervalMs : v.entry.intervalMs = gapMs
  told : Spaced gapMs addedMs (launchTimes v.history)
  /-- The clock of the timer has come as far as the launches have. -/
  clock : v.there = true →
    min (addedMs + (launchTimes v.history).length * gapMs) ceiling ≤ v.nowMs
      ∧ ∀ ms ∈ launchTimes v.history, ms ≤ v.nowMs
  reading : ∀ {level tick nowMs : Nat}, v.stage = .drained level tick nowMs → v.there = true →
    nowMs ≤ v.nowMs
  due : v.entry.Due gapMs addedMs (launchTimes v.history) v.stage

namespace View

variable {v v' : View} {i : EntryId} {gapMs addedMs : Nat}

/-- At its addition an entry has no launch, and is due after one interval or not at all. -/
theorem Added.unhurried {r : Registration} (hinterval : 1 ≤ r.intervalMs)
    (h : v.Added i r addedMs) : v.Unhurried r.intervalMs addedMs := by
  have hms := h.intervalMs
  obtain ⟨task, owner, aim, rfl⟩ := h
  have hahead : Ahead r.intervalMs addedMs [] (addCapped addedMs r.intervalMs) := by
    refine .of_addCapped hinterval ?_ (by simp)
    rw [List.length_nil, Nat.zero_mul]
    exact Nat.min_le_left _ _
  refine ⟨hms, .nil, fun _ => ⟨?_, by simp [launchTimes, Page.registered, Event.launchMs?]⟩,
    fun hstage => by simp at hstage, ?_⟩
  · show min (addedMs + 0 * r.intervalMs) ceiling ≤ addedMs
    rw [Nat.zero_mul]
    exact Nat.min_le_left _ _
  · unfold Page.registered
    simp only
    split
    · exact .out rfl
    · exact .waiting rfl hahead

namespace Unhurried

/-- The timing stays. -/
theorem keeps (h : v.Unhurried gapMs addedMs) {p : Page} (hp : v.toPage.Keeps [] p)
    (flight : Flight) : Unhurried gapMs addedMs { v with toPage := p, flight := flight } := by
  have htimes : launchTimes p.history = launchTimes v.history := hp.launched
  refine ⟨hp.intervalMs.trans h.intervalMs, ?_, ?_, ?_, ?_⟩
  · rw [htimes]
    exact h.told
  · rw [htimes, hp.there, hp.nowMs]
    exact h.clock
  · rw [hp.there, hp.nowMs]
    exact h.reading
  · show p.entry.Due gapMs addedMs (launchTimes p.history) v.stage
    rw [htimes]
    have hdue := h.due
    generalize v.stage = stage at hdue
    cases hdue with
    | out out => exact .out (hp.installed.trans out)
    | waiting owned ahead =>
      exact .waiting (hp.installed.trans owned) (by rw [hp.dueMs]; exact ahead)
    | drained level tick nowMs owned ahead =>
      exact .drained level tick nowMs (hp.installed.trans owned) (by rw [hp.dueMs]; exact ahead)
    | launched nowMs last owned reached later =>
      exact .launched nowMs last (hp.installed.trans owned) (by rw [hp.dueMs]; exact reached) later

/-- The wheels put the entry where it is due at a time that is not too early. -/
theorem waits (h : v.Unhurried gapMs addedMs) {e : Entry} (hms : e.intervalMs = gapMs)
    (owned : e.installed = true)
    (hahead : Ahead gapMs addedMs (launchTimes v.history) e.dueMs) :
    Unhurried gapMs addedMs { v with
      toPage := (v.toPage.modify fun _ => e).place
      stage := .free } :=
  ⟨hms, h.told, h.clock, fun hstage => by simp at hstage, .waiting owned hahead⟩

/-- The wheels may take the entry back. It is due an interval after the reading of the clock then,
and no launch lies beyond that reading. -/
theorem reinstall (h : v.Unhurried gapMs addedMs) (hinterval : 1 ≤ gapMs) (i : EntryId) :
    Unhurried gapMs addedMs { v with toPage := v.toPage.reinstall i } := by
  unfold Page.reinstall
  split
  · next hfree =>
    obtain ⟨hthere, hout⟩ := Bool.and_eq_true_iff.1 hfree
    rw [Bool.not_eq_true'] at hout
    obtain ⟨hreached, hlater⟩ := h.clock hthere
    have hstage : v.stage = .free := by
      have hdue := h.due
      generalize v.stage = stage at hdue
      cases hdue with
      | out out => rfl
      | waiting owned ahead => rfl
      | drained level tick nowMs owned ahead => simp [hout] at owned
      | launched nowMs last owned reached later => simp [hout] at owned
    have hahead : Ahead gapMs addedMs (launchTimes v.history)
        (v.entry.rearm v.nowMs).dueMs := by
      show Ahead gapMs addedMs _ (addCapped v.nowMs v.entry.intervalMs)
      rw [h.intervalMs]
      exact .of_addCapped hinterval hreached fun ms hms _ => hlater ms hms
    have hlog := h.keeps ((Page.Keeps.refl v.toPage).tell
      (e := .logged (.entryReinstalled i)) rfl) v.flight
    have hplaced := hlog.waits (e := v.entry.rearm v.nowMs) h.intervalMs rfl <| by
      show Ahead gapMs addedMs (launchTimes (.logged (.entryReinstalled i) :: v.history)) _
      rw [launchTimes_cons_of_none rfl]
      exact hahead
    exact ⟨h.intervalMs, hplaced.told, hplaced.clock, by rw [hstage]; exact hplaced.reading,
      by rw [hstage]; exact hplaced.due⟩
  · exact h

/-- Nothing is asked of the due time of an entry that the wheels give up. -/
theorem leaves (h : v.Unhurried gapMs addedMs) :
    Unhurried gapMs addedMs { v with toPage := v.toPage.modify (·.release), stage := .free } :=
  ⟨h.intervalMs, h.told, h.clock, fun hstage => by simp at hstage, .out rfl⟩

/-- An entry whose slot a tick has drained is owned, and due later than at any launch. -/
theorem of_drained (h : v.Unhurried gapMs addedMs) {level tick nowMs : Nat}
    (drained : v.stage = .drained level tick nowMs) :
    v.entry.installed = true ∧ Ahead gapMs addedMs (launchTimes v.history) v.entry.dueMs := by
  have hdue := h.due
  rw [drained] at hdue
  cases hdue with
  | drained _ _ _ owned ahead => exact ⟨owned, ahead⟩

/-- The tick launches the entry, which is due. The launch is told at the time that the tick read,
which the clock of the timer has reached. -/
theorem launches (h : v.Unhurried gapMs addedMs) {p : Page} {level tick nowMs : Nat}
    (drained : v.stage = .drained level tick nowMs) (due : v.entry.dueMs ≤ nowMs)
    (same : v.toPage.Keeps [nowMs] p) (last : Bool) (flight : Flight) :
    Unhurried gapMs addedMs ⟨p, .launched nowMs last, flight⟩ := by
  have hreading := h.reading drained
  obtain ⟨howned, hahead⟩ := h.of_drained drained
  refine ⟨same.intervalMs.trans h.intervalMs, ?_, fun hthere => ?_, fun hstage => by simp at hstage,
    .launched nowMs last (same.installed.trans howned) ?_ fun ms hms hcount => ?_⟩
  · rw [same.told]
    exact h.told.append hahead due
  · rw [same.there] at hthere
    rw [same.told, List.length_append, same.nowMs]
    refine ⟨Nat.le_trans (Nat.le_trans hahead.inTime due) (hreading hthere), fun ms hms => ?_⟩
    rcases List.mem_append.1 hms with hbefore | hnow
    · exact (h.clock hthere).2 ms hbefore
    · rw [List.mem_singleton.1 hnow]
      exact hreading hthere
  · rw [same.told, List.length_append, same.dueMs]
    exact hahead.inTime
  · rw [same.told] at hms
    rcases List.mem_append.1 hms with hbefore | hnow
    · exact Nat.le_of_lt (Nat.lt_of_lt_of_le (hahead.later ms hbefore hcount) due)
    · exact Nat.le_of_eq (List.mem_singleton.1 hnow)

/-- **Whatever happens to an entry**, no launch is early and no two come at once, as long as the
clock of its timer does not go back. -/
theorem timingStep (h : v.Unhurried gapMs addedMs) (hinterval : 1 ≤ gapMs)
    (hstep : v.TimingStep i v') (hclock : v'.there = true → v.nowMs ≤ v'.nowMs) :
    v'.Unhurried gapMs addedMs := by
  cases hstep with
  | passes there nowMs aim gone =>
    refine ⟨h.intervalMs, h.told, fun hthere => ?_, fun hstage hthere => ?_, h.due⟩
    · obtain ⟨hreached, hlater⟩ := h.clock (gone hthere)
      exact ⟨Nat.le_trans hreached (hclock hthere),
        fun ms hms => Nat.le_trans (hlater ms hms) (hclock hthere)⟩
    · exact Nat.le_trans (h.reading hstage (gone hthere)) (hclock hthere)
  | keeps flight same => exact h.keeps same flight
  | takes same => exact (h.keeps same v.flight).reinstall hinterval i
  | drains aim free owned =>
    -- the reading that the tick takes is the one the timer shows
    refine ⟨h.intervalMs, h.told, h.clock, fun hstage _ => ?_, ?_⟩
    · exact Nat.le_of_eq (Stage.drained.inj hstage).2.2.symm
    · have hdue := h.due
      rw [free] at hdue
      cases hdue with
      | out out => simp [out] at owned
      | waiting owned ahead => exact .drained _ _ _ owned ahead
  | waits level tick nowMs drained early same =>
    obtain ⟨howned, hahead⟩ := h.of_drained drained
    exact (h.keeps same v.flight).waits (same.intervalMs.trans h.intervalMs)
      (same.installed.trans howned) (by rw [same.dueMs, same.launched]; exact hahead)
  | skips level tick nowMs drained due same =>
    -- no launch was made, and the due time has only moved on
    obtain ⟨howned, hahead⟩ := h.of_drained drained
    exact (h.keeps same v.flight).waits (same.intervalMs.trans h.intervalMs)
      (same.installed.trans howned)
      (Entry.ahead_advanceDue (by rw [same.dueMs, same.launched]; exact hahead))
  | launches level tick nowMs last flight drained due same =>
    exact h.launches drained due same last flight
  | advances nowMs last launched =>
    -- the due time of the launch itself gives way to one beyond it
    have hdue := h.due
    rw [launched] at hdue
    cases hdue with
    | launched _ _ owned reached later =>
      exact h.waits h.intervalMs owned
        (Entry.ahead_advanceDue_of_launch hinterval h.intervalMs reached later)
  | leaves busy same => exact (h.keeps same v.flight).leaves
  | returns busy same => exact (h.keeps same v.flight).leaves.reinstall hinterval i

end Unhurried

end View

/-! ## Runs of the world -/

/-- From the addition of an entry on its launches are spaced. -/
theorem Moment.AddedAs.unhurried {m : Moment} {i : EntryId} {r : Registration} {addedMs : Nat}
    (h : m.AddedAs .onward i r addedMs) (hinterval : 1 ≤ r.intervalMs) :
    ∃ v, m.view i = some v ∧ v.Unhurried r.intervalMs addedMs := by
  refine h.induction (fun hadded => hadded.unhurried hinterval)
    fun {m m' v v'} harises hmove hv hv' hstepped hspaced => ?_
  exact hspaced.timingStep hinterval hstepped.timingStep
    (hmove.nowMs_le (fun _ _ hwaits => hwaits) harises hv hv' hstepped)

/-- **No launch is early, and no two come at once.** An entry that was added at some time keeps the
interval it was added with, and the clock never read less at its `n`-th launch than the time of its
addition and `n` intervals. A later launch is at a later time. None of that depends on what was done
to the entry or to the timer in between, on how late the ticks were dealt with, or on how far the
clock went on, also in the middle of a tick. Counts end at the ceiling: a bound beyond it is cut off
there, as due times are. -/
theorem launches_spaced {nesting : Nat} {m : Moment}
    (h : Moves .onward ⟨{ nesting }, none, none⟩ m) {i : EntryId} {e : Entry}
    (he : m.world.entries[i]? = some e) :
    (∃ r addedMs, m.AddedAs .onward i r addedMs)
    ∧ ∀ r addedMs, m.AddedAs .onward i r addedMs → 1 ≤ r.intervalMs →
      e.intervalMs = r.intervalMs
      ∧ ∀ n ms, (launchTimes (m.world.history i))[n]? = some ms →
        min (addedMs + (n + 1) * r.intervalMs) ceiling ≤ ms
        ∧ ∀ ms', (launchTimes (m.world.history i))[n + 1]? = some ms' →
          ms < ceiling → ms < ms' := by
  refine ⟨Moves.exists_addedAs h he, fun r addedMs hadded hinterval => ?_⟩
  obtain ⟨v, hv, hunhurried⟩ := hadded.unhurried hinterval
  obtain ⟨rfl, hhistory⟩ := Moment.read_view hv he
  rw [← hhistory]
  refine ⟨hunhurried.intervalMs, fun n ms hms => ⟨hunhurried.told.inTime hms, fun ms' hms' => ?_⟩⟩
  obtain ⟨hn, hget⟩ := List.getElem?_eq_some_iff.1 hms
  obtain ⟨hn', hget'⟩ := List.getElem?_eq_some_iff.1 hms'
  have hapart := List.pairwise_iff_getElem.1 hunhurried.told.apart n (n + 1) hn hn'
    (Nat.lt_succ_self n)
  rw [hget, hget'] at hapart
  exact hapart

/-- A timer with two levels, five milliseconds after it was created. -/
def beforeHaste : World := World.after {}
  [.create { slots := 4, levels := 2, intervalMs := 10 }, .advance 5000]

/-- A job with an interval of 25 milliseconds that moves the clock by several intervals at its
second start. -/
def hastyJob : Action := .schedule "a" (.repeating 25) none [] [[], [.jump 95000]]

/-- The clock jumps once more, and the job is stopped and started. -/
def hastyRuns : World := (beforeHaste.after [.act hastyJob]).after
  [.advance 60000, .act (.jump 200000), .advance 30000, .act (.control "a" .stop), .advance 50000,
    .act (.control "a" .start), .advance 60000]

/-- The job was added at 5 and launched seven times. The seventh launch was not to be expected
before 180, and the clock was ahead of it for long. -/
theorem launches_spaced_after_jumps :
    launchTimes (hastyRuns.history 0) = [30, 60, 155, 355, 380, 460, 480]
      ∧ min (5 + (6 + 1) * 25) ceiling ≤ 480 ∧ 155 < 355 := by
  let m : Moment := ⟨beforeHaste, none, none⟩
  let m' : Moment := ⟨beforeHaste.after [.act hastyJob], none, none⟩
  obtain ⟨nesting, hbefore⟩ : ∃ nesting, Moves .onward ⟨{ nesting }, none, none⟩ m :=
    ((World.Reachable.fresh 3).after _).unfolds
  have hschedule : Move .onward m m' :=
    .act m hastyJob (World.invoke m.world.nesting) (Action.all_of_forall (fun _ => trivial) _)
      (fun handle => by simp [hastyJob])
  have hsince : Moves .onward m' ⟨hastyRuns, none, none⟩ :=
    World.after_onward ⟨nesting, Moves.free (hbefore.tail hschedule)⟩ _
  -- there was no entry before the job was scheduled
  have hblank : m.Blank 0 := by
    have hnone := Moment.Arises.blank (m := m) ⟨nesting, Moves.free hbefore⟩
    have hsize : m.world.entries.size = 0 := by decide +kernel
    rwa [hsize] at hnone
  obtain ⟨e', he', hms⟩ : ∃ e', m'.world.entries[0]? = some e' ∧ e'.intervalMs = 25 :=
    Option.map_eq_some_iff.1 (by decide +kernel)
  rcases Moves.addedAs_of_blank hbefore hschedule hblank with hblank' | ⟨r, v, hadded, hv, hview⟩
  · exact absurd hblank' (Moment.not_blank he')
  obtain ⟨rfl, -⟩ := Moment.read_view hv he'
  have hinterval : r.intervalMs = 25 := hview.intervalMs.symm.trans hms
  have hnow : m'.world.nowMs = 5 := by decide +kernel
  rw [hnow] at hadded
  have htimes : launchTimes (hastyRuns.history 0) = [30, 60, 155, 355, 380, 460, 480] := by
    decide +kernel
  obtain ⟨e, he⟩ : ∃ e, hastyRuns.entries[0]? = some e :=
    Option.isSome_iff_exists.1 (by decide +kernel)
  have hall := (hbefore.tail hschedule).trans hsince
  obtain ⟨-, hspaced⟩ := (launches_spaced hall he).2 r 5 (hadded.moves hsince)
    (by rw [hinterval]; decide)
  obtain ⟨hseventh, -⟩ := hspaced 6 480 (by rw [htimes]; rfl)
  obtain ⟨-, hapart⟩ := hspaced 2 155 (by rw [htimes]; rfl)
  rw [hinterval] at hseventh
  exact ⟨htimes, hseventh, hapart 355 (by rw [htimes]; rfl) (by decide)⟩

end TimingWheel
