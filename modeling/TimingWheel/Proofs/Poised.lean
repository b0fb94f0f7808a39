import TimingWheel.Proofs.Drift
import TimingWheel.Proofs.OnPlan

/-!
# Entries that wait for one launch

An entry that is armed and has a run left waits for its next launch, whatever plan it is on and
wherever it waits. Until then hardly anything can happen to it: it is drained, found to be early and
handed down to a finer level. What matters for the launch is the time at which the slot that holds
it is emptied, ticks counted that its level has lost.

* **`View.Poised`** — an entry that waits, and what can happen to it (`View.Poised.step`).
* **`Undisturbed`** — nobody interferes before the first launch that a history tells of.
* **`View.Aims`** — the launch that the place of the entry stands for.
-/

namespace TimingWheel

/-! ## Until the first launch -/

/-- The launches of a longer history are those before and those after. -/
theorem launchTimes_append (more told : List Event) :
    launchTimes (more ++ told) = launchTimes told ++ launchTimes more := by
  simp only [launchTimes, List.filterMap_append, List.reverse_append]

/-- Nobody interferes before the first launch that is told of. -/
def Undisturbed (told : List Event) : Prop :=
  ∀ e before, e :: before <:+ told → launchTimes before = [] → e.interferes = false

theorem Undisturbed.of_suffix {told told' : List Event} (h : Undisturbed told')
    (hsuffix : told <:+ told') : Undisturbed told :=
  fun e before hbefore => h e before (hbefore.trans hsuffix)

/-- Where nobody interferes at all, nobody does before the first launch. -/
theorem Undisturbed.of_calm {told : List Event} (h : ∀ e ∈ told, e.interferes = false) :
    Undisturbed told :=
  fun e _ hbefore _ => h e (hbefore.subset List.mem_cons_self)

/-! ## Entries that wait -/

/-- The entry is armed and due at a time, has a run left and no unfinished execution, and a slot
holds it, or the tick that drained the slot has not looked at it yet. -/
structure View.Poised (v : View) (dueMs : Nat) : Prop where
  ready : v.entry.status = .ready
  due : v.entry.dueMs = dueMs
  left : v.entry.remaining.isSpent = false
  inFlight : v.entry.inFlight = 0
  flight : v.flight = ⟨0, false⟩
  owned : v.entry.installed = true
  place : v.stage = .free
    ∨ ∃ nowMs, v.stage = .drained v.entry.level v.entry.installedTick nowMs

/-- What can happen to an entry that waits for its next launch. -/
inductive View.PoisedStep (v : View) (dueMs : Nat) (v' : View) : Prop where
  /-- It keeps its place, which may have been drained. -/
  | waits (more : List Event) (history : v'.history = more ++ v.history)
      (none : launchTimes more = []) (poised : v'.Poised dueMs)
      (seat : v'.entry.seat = v.entry.seat)
  /-- A tick finds that it is early, and it is placed again. -/
  | handsDown (more : List Event) (history : v'.history = more ++ v.history)
      (none : launchTimes more = []) (poised : v'.Poised dueMs) (level tick nowMs : Nat)
      (drained : v.stage = .drained level tick nowMs) (early : nowMs < dueMs)
      (place : (v'.entry.level, v'.entry.installedTick) = v.aim (dueMs - v.nowMs))
  | launched (more : List Event) (history : v'.history = more ++ v.history)
      (level tick nowMs : Nat) (drained : v.stage = .drained level tick nowMs)
      (due : dueMs ≤ nowMs) (told : launchTimes more = [nowMs])
  | disturbed (e : Event) (interferes : e.interferes = true)
      (told : e :: v.history <:+ v'.history)

section

variable {law : Law} {i : EntryId} {v v' : View} {dueMs : Nat}

/-- A poised entry that is due is launched by a look. -/
theorem View.Poised.look (h : v.Poised dueMs) {nowMs : Nat} (due : dueMs ≤ nowMs) :
    ∃ last e, v.entry.evaluate nowMs = (.run last, e) := by
  obtain ⟨rest, hrest⟩ : ∃ rest, v.entry.remaining.consume = some rest := by
    apply Option.ne_none_iff_exists'.1
    intro hnone
    rw [Runs.consume_eq_none_iff, h.left] at hnone
    exact absurd hnone (by decide)
  exact ⟨_, _, Entry.evaluate_due h.ready (by rw [h.due]; exact due) h.inFlight hrest⟩

/-- A drained entry was drained at its place. -/
theorem View.Poised.drained_at (h : v.Poised dueMs) {level tick nowMs : Nat}
    (drained : v.stage = .drained level tick nowMs) :
    v.entry.level = level ∧ v.entry.installedTick = tick := by
  rcases h.place with hfree | ⟨ms, hdrained⟩
  · exact absurd (drained.symm.trans hfree) nofun
  · have hsame := drained.symm.trans hdrained
    rw [Stage.drained.injEq] at hsame
    exact ⟨hsame.1.symm, hsame.2.1.symm⟩

theorem View.Poised.tell (h : v.Poised dueMs) (e : Event) :
    View.Poised { v with toPage := v.toPage.tell e } dueMs :=
  ⟨h.ready, h.due, h.left, h.inFlight, h.flight, h.owned, h.place⟩

/-- What is told besides launches leaves an entry waiting. -/
theorem View.PoisedStep.of_tell (h : v.Poised dueMs) {e : Event} (he : e.launchMs? = none) :
    v.PoisedStep dueMs { v with toPage := v.toPage.tell e } :=
  .waits [e] rfl (launchTimes_cons_of_none he []) (h.tell e) rfl

/-- **An entry that waits goes on waiting, is handed down, launched or interfered with.** -/
theorem View.Poised.step (h : v.Poised dueMs) (hstepped : v.EntryStep law i v') :
    v.PoisedStep dueMs v' := by
  cases hstepped with
  | passes there nowMs aim gone =>
    exact .waits [] rfl rfl ⟨h.ready, h.due, h.left, h.inFlight, h.flight, h.owned, h.place⟩ rfl
  | byHand => exact .disturbed (.controlled i .run) rfl List.suffix_rfl
  | begins job label clockUs => exact .of_tell h rfl
  | concludes outcome =>
    cases outcome with
    | exit => exact .disturbed (.logged (.jobExited i)) rfl List.suffix_rfl
    | failed reason => exact .of_tell h rfl
    | done => exact .waits [] rfl rfl h rfl
    | crashed => exact .waits [] rfl rfl h rfl
  | controls c plain => exact .disturbed (.controlled i c) rfl (v.toPage.suffix_control i c)
  -- no execution is in flight, so none ends and none is taken up
  | completes executing =>
    rw [h.flight] at executing
    exact absurd executing (by decide)
  | takesUp allowed held idle =>
    rw [h.flight] at held
    exact absurd held (by decide)
  | drains aim free owned =>
    exact .waits [] rfl rfl
      ⟨h.ready, h.due, h.left, h.inFlight, h.flight, h.owned, Or.inr ⟨v.nowMs, rfl⟩⟩ rfl
  | rests level tick nowMs drained idle =>
    by_cases hearly : nowMs < dueMs
    · have hlook := Entry.evaluate_early h.ready (by rw [h.due]; exact hearly)
      have hpage : (v.toPage.look i level tick nowMs).rest i nowMs (v.entry.evaluate nowMs).1
          = (v.toPage.tell (.evaluated i level tick nowMs .wait)).place := by
        rw [Page.look_eq hlook, hlook]
        rfl
      rw [hpage]
      refine .handsDown [.evaluated i level tick nowMs .wait] rfl rfl
        ⟨h.ready, h.due, h.left, h.inFlight, h.flight, h.owned, Or.inl rfl⟩ level tick nowMs drained
        hearly ?_
      rw [← h.due]
      rfl
    · -- were it due, it would be launched
      obtain ⟨last, e, hlook⟩ := h.look (Nat.le_of_not_lt hearly)
      exact absurd (congrArg (·.1) hlook) (idle last)
  | launches level tick nowMs last holding drained idle runs =>
    have hdue : dueMs ≤ nowMs := by
      apply Nat.le_of_not_lt
      intro hearly
      rw [Entry.evaluate_early h.ready (by rw [h.due]; exact hearly)] at runs
      simp at runs
    refine .launched [.evaluated i level tick nowMs (.run last)] ?_ level tick nowMs drained hdue
      rfl
    rw [← runs]
    rfl
  | putsBack nowMs last launched idle =>
    -- a launched entry is not poised any more
    rcases h.place with hfree | ⟨ms, hdrained⟩
    · exact absurd (launched.symm.trans hfree) nofun
    · exact absurd (launched.symm.trans hdrained) nofun

end

/-! ## The launch that a place stands for -/

/-- What the clock and the wheels, of which every level has lost a number of ticks, are known to be
while something happens to an entry. -/
structure View.Paced (k : Clockwork) (lost : Nat → Nat) (v : View) : Prop where
  /-- The wheels look at a placed entry in time. -/
  aim : ∀ {dueMs : Nat}, v.nowMs < dueMs → dueMs ≤ ceiling →
    k.tickMs (v.aim (dueMs - v.nowMs)).1
        ((v.aim (dueMs - v.nowMs)).2 + lost (v.aim (dueMs - v.nowMs)).1)
      ≤ roundUp k.config.intervalMs dueMs
  /-- A drained entry is looked at when the tick falls due. -/
  drained : ∀ {level tick nowMs : Nat}, v.stage = .drained level tick nowMs →
    nowMs = v.nowMs ∧ nowMs = min (k.tickMs level (tick + lost level)) ceiling

/-- The entry is launched at a time: when its slot is emptied, or at the first base tick at which it
is due if that comes later. -/
def View.Aims (k : Clockwork) (lost : Nat → Nat) (dueMs launchMs : Nat) (v : View) : Prop :=
  max (k.tickMs v.entry.level (v.entry.installedTick + lost v.entry.level))
    (roundUp k.config.intervalMs dueMs) = launchMs

section

variable {k : Clockwork} {lost : Nat → Nat} {dueMs launchMs : Nat} {v v' : View}

/-- The launch that an entry is aimed at is a matter of its seat. -/
theorem View.Aims.of_seat (h : v.Aims k lost dueMs launchMs)
    (hseat : v'.entry.seat = v.entry.seat) : v'.Aims k lost dueMs launchMs := by
  have hlevel : v'.entry.level = v.entry.level := congrArg (·.2.2.1) hseat
  have htick : v'.entry.installedTick = v.entry.installedTick := congrArg (·.2.2.2) hseat
  unfold View.Aims
  rw [hlevel, htick]
  exact h

/-- An entry that is handed down is aimed at the first base tick at which it is due. -/
theorem View.Aims.handDown (h : v.Aims k lost dueMs launchMs) (hv : v.Paced k lost)
    (hpoised : v.Poised dueMs) (hfits : dueMs ≤ ceiling) {level tick nowMs : Nat}
    (drained : v.stage = .drained level tick nowMs) (early : nowMs < dueMs)
    (place : (v'.entry.level, v'.entry.installedTick) = v.aim (dueMs - v.nowMs)) :
    v'.Aims k lost dueMs launchMs := by
  obtain ⟨hnow, htick⟩ := hv.drained drained
  obtain ⟨hlevel, hinstalled⟩ := hpoised.drained_at drained
  obtain ⟨-, hinterval, -⟩ := TimerConfig.pos_of_validate k.valid
  have hround := le_roundUp hinterval dueMs
  have hplaced : k.tickMs v'.entry.level (v'.entry.installedTick + lost v'.entry.level)
      ≤ roundUp k.config.intervalMs dueMs := by
    have haim := hv.aim (by rw [← hnow]; exact early) hfits
    rwa [← place] at haim
  unfold View.Aims at h ⊢
  rw [hlevel, hinstalled] at h
  omega

/-- A drained entry that is due is launched at the time that its place stands for. -/
theorem View.Aims.launch (h : v.Aims k lost dueMs launchMs) (hv : v.Paced k lost)
    (hpoised : v.Poised dueMs) {level tick nowMs : Nat}
    (drained : v.stage = .drained level tick nowMs) (due : dueMs ≤ nowMs) :
    k.tickMs level (tick + lost level) = launchMs ∧ nowMs = min launchMs ceiling := by
  obtain ⟨-, htick⟩ := hv.drained drained
  obtain ⟨hlevel, hinstalled⟩ := hpoised.drained_at drained
  obtain ⟨-, hinterval, -⟩ := TimerConfig.pos_of_validate k.valid
  have hround := roundUp_le hinterval (k.dvd_tickMs level (tick + lost level))
    (Nat.le_trans due (by rw [htick]; exact Nat.min_le_left _ _))
  unfold View.Aims at h
  rw [hlevel, hinstalled, Nat.max_eq_left hround] at h
  exact ⟨h, by rw [htick, h]⟩

end

end TimingWheel
