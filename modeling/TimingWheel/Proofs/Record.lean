import TimingWheel.Proofs.Addition
import TimingWheel.Proofs.Exclusivity

/-!
# What becomes of an entry with what is told of it

The history of an entry tells of everything that changes it, its place and its due time left out of
account. So an invariant that ties the two together is proved once for each kind of event, and it
does not matter which operation of the world told it, or from where.

* **`Entry.Becomes`** — what an event makes of the entry that it is told of.
* **`View.EntryStep.undergoes`** — whatever happens to an entry is one such event at most, and
  nothing else is told but what leaves the entry as it is.
* **`Moves.before_event`** — an event that changes the entry is told by a move of its own.
* **`Upheld.arises`** — what holds of a new entry and is kept by every event holds of the entry and
  its history in every moment that arises.
-/

namespace TimingWheel

/-- What a control makes of an entry. Running its body by hand leaves the entry alone. -/
def Entry.controlled (e : Entry) : Control → Entry
  | .stop => e.stop
  | .start => e.start
  | .reset => e.reset
  | .close => e.close
  | .run => e
  | .setRuns runs => e.setRuns runs
  | .setSingleton on => e.setSingleton on

/-- What an event makes of the entry that it is told of. An execution that ends is one that is
counted as being in flight. -/
inductive Entry.Becomes (i : EntryId) (e : Entry) : Event → Entry → Prop where
  | controlled (c : Control) : Becomes i e (.controlled i c) (e.controlled c)
  /-- A body of the entry asked for its end. -/
  | exited : Becomes i e (.logged (.jobExited i)) e.close
  | completed (flying : 1 ≤ e.inFlight) : Becomes i e (.completed i) e.complete
  | looked (level tick nowMs : Nat) :
      Becomes i e (.evaluated i level tick nowMs (e.evaluate nowMs).1) (e.evaluate nowMs).2

/-- Whether an event leaves the entry as it is: the start of a body does, and a line of the log
unless a body asked for the end. -/
def Event.plain : Event → Bool
  | .started .. => true
  | .logged (.jobExited _) => false
  | .logged _ => true
  | _ => false

theorem Event.not_launch_of_plain {ev : Event} (h : ev.plain = true) : ev.isLaunch = false := by
  cases ev with
  | evaluated i level tick nowMs verdict => simp [plain] at h
  | _ => rfl

theorem Event.not_completion_of_plain {ev : Event} (h : ev.plain = true) :
    ev.isCompletion = false := by
  cases ev with
  | completed i => simp [plain] at h
  | _ => rfl

/-- One thing happens to an entry: nothing that changes its terms, or one event. What is told beyond
that leaves the entry as it is. -/
inductive Page.Undergoes (i : EntryId) (p p' : Page) : Prop where
  | calm (same : p'.entry.terms = p.entry.terms)
      (told : TellsMore (·.plain = true) p.history p'.history)
  | event (ev : Event) (e : Entry) (becomes : p.entry.Becomes i ev e)
      (same : p'.entry.terms = e.terms)
      (told : TellsMore (·.plain = true) (ev :: p.history) p'.history)

namespace Page

variable {i : EntryId} {p p' p'' : Page}

theorem undergoes_refl (i : EntryId) (p : Page) : p.Undergoes i p := .calm rfl (.refl _)

/-- A single event that tells what becomes of the entry. -/
theorem undergoes_of_becomes {ev : Event} {f : Entry → Entry}
    (h : p.entry.Becomes i ev (f p.entry)) : p.Undergoes i ((p.tell ev).modify f) :=
  .event ev (f p.entry) h rfl (.refl _)

/-- A log line that leaves the entry as it is adds nothing to what it undergoes. -/
theorem Undergoes.log (h : p.Undergoes i p') {line : LogLine}
    (hplain : (Event.logged line).plain = true) : p.Undergoes i (p'.log line) := by
  cases h with
  | calm same told => exact .calm same (told.cons hplain)
  | event ev e becomes same told => exact .event ev e becomes same (told.cons hplain)

/-- What the wheels do with the entry afterwards tells nothing that matters. -/
theorem Undergoes.handled (h : p.Undergoes i p') (h' : p'.Handled p'') : p.Undergoes i p'' := by
  have hplain : TellsMore (·.plain = true) p'.history p''.history :=
    h'.told.mono fun ev ⟨j, hev⟩ => by rw [hev]; rfl
  cases h with
  | calm same told => exact .calm (h'.terms.trans same) (told.trans hplain)
  | event ev e becomes same told =>
    exact .event ev e becomes (h'.terms.trans same) (told.trans hplain)

/-- A control is one event: it changes the entry as it says, or not at all where it does not
apply. -/
theorem undergoes_control (p : Page) (i : EntryId) (c : Control) :
    p.Undergoes i (p.control i c) := by
  have hbecomes : p.Undergoes i ((p.tell (.controlled i c)).modify (·.controlled c)) :=
    undergoes_of_becomes (.controlled c)
  -- a control that finds nothing to do is told all the same
  have hidle (hsame : p.entry.controlled c = p.entry) :
      p.Undergoes i (p.tell (.controlled i c)) :=
    .event _ _ (.controlled c) (congrArg _ hsame.symm) (.refl _)
  cases c with
  | stop =>
    simp only [Page.control]
    split
    · next hstopped => exact hidle (if_pos hstopped)
    · exact hbecomes.log rfl
  | start =>
    simp only [Page.control]
    split
    · exact (hbecomes.log rfl).handled (handled_reinstall _ i)
    · next hstarted => exact hidle (if_neg hstarted)
  | reset => exact (hbecomes.log rfl).handled (handled_reinstall _ i)
  | close =>
    simp only [Page.control]
    split
    · next hclosed =>
      refine hidle ?_
      show { p.entry with status := .closed } = p.entry
      rw [← hclosed]
    · exact hbecomes.log rfl
  | run => exact hidle rfl
  | setRuns runs => exact hbecomes
  | setSingleton on => exact hbecomes

/-- The end of a body closes its entry, or leaves it alone. -/
theorem undergoes_conclude (p : Page) (i : EntryId) (outcome : Outcome) :
    p.Undergoes i (p.conclude i outcome) := by
  cases outcome with
  | exit => exact undergoes_of_becomes .exited
  | failed reason => exact (undergoes_refl i p).log rfl
  | done => exact undergoes_refl i p
  | crashed => exact undergoes_refl i p

/-- The end of an execution that is in flight is one event. -/
theorem undergoes_complete (p : Page) (i : EntryId) (flying : 1 ≤ p.entry.inFlight) :
    p.Undergoes i (p.complete i) := by
  have hend : p.Undergoes i ((p.modify (·.complete)).tell (.completed i)) :=
    undergoes_of_becomes (.completed flying)
  simp only [Page.complete]
  split
  · exact hend.log rfl
  · exact hend

/-- A look is one event, whatever it finds. -/
theorem undergoes_look (p : Page) (i : EntryId) (level tick nowMs : Nat) :
    p.Undergoes i (p.look i level tick nowMs) :=
  .event _ _ (.looked level tick nowMs) rfl (.refl _)

end Page

/-- **Whatever happens to an entry is one event at most.** That an execution which ends is counted
is where the count of executions in flight comes in. -/
theorem View.EntryStep.undergoes {law : Law} {i : EntryId} {v v' : View} (h : v.EntryStep law i v')
    (hv : v.Exclusive) : v.toPage.Undergoes i v'.toPage := by
  cases h with
  | passes there nowMs aim gone => exact .calm rfl (.refl _)
  | byHand => exact v.toPage.undergoes_control i .run
  | begins job label clockUs => exact .calm rfl (.cons rfl (.refl _))
  | concludes outcome => exact v.toPage.undergoes_conclude i outcome
  | controls c plain => exact v.toPage.undergoes_control i c
  | completes executing =>
    refine v.toPage.undergoes_complete i ?_
    rw [hv.inFlight, View.unfinished, Flight.count_of_executing executing]
    omega
  | takesUp allowed held idle => exact v.toPage.undergoes_refl i
  | drains aim free owned => exact .calm rfl (.refl _)
  | rests level tick nowMs drained idle =>
    exact (v.toPage.undergoes_look i level tick nowMs).handled (Page.handled_rest _ i nowMs _)
  | launches level tick nowMs last holding drained idle runs =>
    exact v.toPage.undergoes_look i level tick nowMs
  | putsBack nowMs last launched idle =>
    exact (v.toPage.undergoes_refl i).handled (v.toPage.handled_putBack i nowMs last)

/-- What a move means for an entry that is there: it stays there, and one event is told of it at
most. -/
theorem Move.undergoes {m m' : Moment} (hmove : Move .free m m') (h : m.Arises) {i : EntryId}
    {e : Entry} (he : m.world.entries[i]? = some e) :
    ∃ p p' : Page, p.entry = e ∧ p.history = m.world.history i
      ∧ m'.world.entries[i]? = some p'.entry ∧ p'.history = m'.world.history i
      ∧ p.Undergoes i p' := by
  obtain ⟨v, hv, -⟩ := Moment.exists_view he
  obtain ⟨hentry, hhistory⟩ := Moment.read_view hv he
  obtain ⟨v', hv', hstepped⟩ := (hmove.lives h.custody i).step hv
  obtain ⟨hentry', hhistory', -⟩ := World.page_eq_some.1 (Moment.view_eq_some.1 hv').1
  exact ⟨v.toPage, v'.toPage, hentry, hhistory, hentry', hhistory',
    hstepped.undergoes (h.life hv).exclusive⟩

/-- What is told beyond a history keeps an event that is not of the kind where it is. -/
theorem TellsMore.split {q : Event → Prop} {history history' later earlier : List Event}
    (h : TellsMore q history history') {ev : Event} (hev : ¬ q ev)
    (hsplit : history' = later ++ ev :: earlier) :
    ∃ later', history = later' ++ ev :: earlier := by
  obtain ⟨events, rfl, hevents⟩ := h
  rcases List.append_eq_append_iff.1 hsplit with ⟨more, -, hhistory⟩ | ⟨more, hmore, hrest⟩
  · exact ⟨more, hhistory⟩
  · cases more with
    | nil => exact ⟨[], hrest.symm⟩
    | cons first rest =>
      -- the event would be one of those that are told beyond the history
      obtain ⟨rfl, -⟩ := List.cons.inj hrest
      exact absurd (hevents ev (by rw [hmore]; simp)) hev

/-- **What is told of an entry at some moment was the whole story at an earlier one**, if it is what
came before an event that changes the entry. -/
theorem Moves.before_event {law : Law} {m m' : Moment} (h : Moves law m m') (harises : m.Arises)
    {i : EntryId} (hi : i < m.world.entries.size) {ev : Event} (hev : ev.plain = false)
    (hnew : ev ∉ m.world.history i) : ∀ {later earlier : List Event},
    m'.world.history i = later ++ ev :: earlier →
    ∃ m₁, Moves law m m₁ ∧ Moves law m₁ m' ∧ m₁.world.history i = earlier := by
  induction h with
  | refl =>
    intro later earlier hsplit
    rw [hsplit] at hnew
    exact absurd (by simp) hnew
  | @tail m₁ m₂ hmoves hmove ih =>
    intro later earlier hsplit
    have hbefore {later' : List Event} (hsplit' : m₁.world.history i = later' ++ ev :: earlier) :
        ∃ m₀, Moves law m m₀ ∧ Moves law m₀ m₂ ∧ m₀.world.history i = earlier := by
      obtain ⟨m₀, hfirst, hrest, hhistory⟩ := ih hsplit'
      exact ⟨m₀, hfirst, hrest.tail hmove, hhistory⟩
    have hknown := Nat.lt_of_lt_of_le hi (Moves.size_le hmoves)
    have hfree : Move .free m₁ m₂ := hmove.mono (fun _ _ => trivial) (fun _ => trivial)
      (fun _ _ _ => trivial) (fun _ _ => trivial) fun _ => trivial
    obtain ⟨p, p', -, hhistory, -, hhistory', hundergoes⟩ :=
      hfree.undergoes (harises.trans (Moves.free hmoves)) (Array.getElem?_eq_getElem hknown)
    rw [← hhistory'] at hsplit
    rw [← hhistory] at hbefore
    have hplain : ¬ ev.plain = true := by simp [hev]
    cases hundergoes with
    | calm same told =>
      obtain ⟨later', hsplit'⟩ := told.split hplain hsplit
      exact hbefore hsplit'
    | event ev' e becomes same told =>
      obtain ⟨later', hsplit'⟩ := told.split hplain hsplit
      cases later' with
      | nil =>
        -- the event is what this move tells
        obtain ⟨-, hearlier⟩ := List.cons.inj hsplit'
        exact ⟨m₁, hmoves, .single hmove, hhistory.symm.trans hearlier⟩
      | cons first rest => exact hbefore (List.cons.inj hsplit').2

/-! ## Invariants of entries and their histories -/

/-- A property of what is told of an entry and of the entry itself that holds of new entries and is
kept by every event. -/
structure Upheld (i : EntryId) (holds : List Event → Entry → Prop) : Prop where
  fresh : ∀ {e : Entry}, e.inFlight = 0 → e.status ≠ .running → holds [] e
  /-- Place and due time do not matter. -/
  same : ∀ {history : List Event} {e e' : Entry}, e'.terms = e.terms → holds history e →
    holds history e'
  plain : ∀ {history : List Event} {e : Entry} {ev : Event}, ev.plain = true → holds history e →
    holds (ev :: history) e
  /-- The count of executions in flight is what the history leaves. -/
  becomes : ∀ {history : List Event} {e e' : Entry} {ev : Event}, e.Becomes i ev e' →
    launchCount history = completionCount history + e.inFlight → holds history e →
    holds (ev :: history) e'

namespace Upheld

variable {i : EntryId} {holds : List Event → Entry → Prop}

/-- What leaves the entry as it is keeps the property. Induction on what is told. -/
theorem told (h : Upheld i holds) {history history' : List Event} {e : Entry}
    (hmore : TellsMore (·.plain = true) history history') (he : holds history e) :
    holds history' e := by
  obtain ⟨events, rfl, hplain⟩ := hmore
  induction events with
  | nil => exact he
  | cons ev events ih =>
    obtain ⟨hev, hrest⟩ := List.forall_mem_cons.1 hplain
    exact h.plain hev (ih hrest)

/-- One step of the world keeps the property, since it is one event at most. -/
theorem step (h : Upheld i holds) {law : Law} {v v' : View} (hstepped : v.EntryStep law i v')
    (hv : v.Exclusive) (he : holds v.history v.entry) : holds v'.history v'.entry := by
  have hcount : launchCount v.history = completionCount v.history + v.entry.inFlight := by
    rw [hv.inFlight]
    exact hv.balance
  cases hstepped.undergoes hv with
  | calm same told => exact h.told told (h.same same he)
  | event ev e becomes same told => exact h.told told (h.same same (h.becomes becomes hcount he))

theorem life (h : Upheld i holds) {v : View} (hv : v.Life i) : holds v.history v.entry := by
  induction hv with
  | born hborn =>
    obtain ⟨r, task, owner, nowMs, aim, rfl⟩ := hborn
    -- placing a new entry changes neither its status nor the count
    have hterms : (Page.registered i r task owner nowMs aim).entry.terms
        = (Entry.ofRegistration r task owner nowMs).terms := by
      simp only [Page.registered]
      split <;> rfl
    have hrunning : (Entry.ofRegistration r task owner nowMs).status ≠ .running := by
      show r.initialStatus ≠ .running
      unfold Registration.initialStatus
      split
      · decide
      · split
        · decide
        · assumption
    exact h.plain rfl (h.same hterms (h.fresh rfl hrunning))
  | step hlife hstepped ih => exact h.step hstepped hlife.exclusive ih

/-- **What is kept by every event holds in every moment that arises.** -/
theorem arises (h : Upheld i holds) {m : Moment} (hm : m.Arises) {e : Entry}
    (he : m.world.entries[i]? = some e) : holds (m.world.history i) e := by
  obtain ⟨v, hv, -⟩ := Moment.exists_view he
  obtain ⟨rfl, hhistory⟩ := Moment.read_view hv he
  rw [← hhistory]
  exact h.life (hm.life hv)

end Upheld

end TimingWheel
