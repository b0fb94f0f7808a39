import TimingWheel.Proofs.Effects

/-!
# One entry and what is told of it

The history of an entry are the events of the journal that are about it. A `Page` is what a world
shows of one entry: the entry itself, its history, whether its timer is there and what that timer's
clock reads.

* **`World.Spares`** — what is done to an entry leaves the pages of the others alone. There is one
  lemma for each operation.
* **`Page.reinstall`**, **`Page.release`**, **`Page.control`**, … — the operations as they show on
  the page of the entry they are done to. Where the timer puts an entry is a matter of its wheels;
  the page shows it as a function of the delay.
-/

namespace TimingWheel

/-- What is told of an entry, the latest first. -/
def World.history (w : World) (i : EntryId) : List Event :=
  w.journal.filter fun e => e.about == some i

/-- More is told, and all that is new has a property. -/
def TellsMore (q : Event → Prop) (history history' : List Event) : Prop :=
  ∃ events, history' = events ++ history ∧ ∀ e ∈ events, q e

section

variable {q : Event → Prop} {history history' history'' : List Event}

theorem TellsMore.refl (history : List Event) : TellsMore q history history := ⟨[], rfl, by simp⟩

theorem TellsMore.cons {e : Event} (he : q e) (h : TellsMore q history history') :
    TellsMore q history (e :: history') := by
  obtain ⟨events, rfl, hevents⟩ := h
  exact ⟨e :: events, rfl, List.forall_mem_cons.2 ⟨he, hevents⟩⟩

/-- What is told on two stretches of time has the property on both. -/
theorem TellsMore.trans (h : TellsMore q history history')
    (h' : TellsMore q history' history'') : TellsMore q history history'' := by
  obtain ⟨events, rfl, hevents⟩ := h
  obtain ⟨events', rfl, hevents'⟩ := h'
  exact ⟨events' ++ events, (List.append_assoc _ _ _).symm,
    List.forall_mem_append.2 ⟨hevents', hevents⟩⟩

theorem TellsMore.suffix (h : TellsMore q history history') : history <:+ history' := by
  obtain ⟨events, htold, -⟩ := h
  exact ⟨events, htold.symm⟩

theorem TellsMore.mono {q' : Event → Prop} (hq : ∀ e, q e → q' e)
    (h : TellsMore q history history') : TellsMore q' history history' := by
  obtain ⟨events, htold, hevents⟩ := h
  exact ⟨events, htold, fun e he => hq e (hevents e he)⟩

end

/-- What a world shows of one entry. -/
structure Page where
  entry : Entry
  /-- What is told of the entry, the latest first. -/
  history : List Event
  /-- Whether the timer of the entry is there. -/
  there : Bool
  /-- The clock of the timer. -/
  nowMs : Nat
  /-- Level and tick at which the timer puts an entry with a given delay. -/
  aim : Nat → Nat × Nat

/-- The page of an entry. -/
def World.page (w : World) (i : EntryId) : Option Page :=
  w.entries[i]?.map fun e => ⟨e, w.history i, w.hasTimer e.owner, w.nowMs, w.aim⟩

namespace World

variable {i j : EntryId}

/-! ## Operations on other entries -/

/-- Nothing is done to an entry and nothing is told of it. -/
structure Spares (i : EntryId) (w w' : World) : Prop where
  entry : w'.entries[i]? = w.entries[i]?
  history : w'.history i = w.history i

theorem Spares.refl (w : World) : w.Spares i w := ⟨rfl, rfl⟩

theorem Spares.trans {w w' w'' : World} (h : Spares i w w') (h' : Spares i w' w'') :
    Spares i w w'' :=
  ⟨h'.entry.trans h.entry, h'.history.trans h.history⟩

/-- An event is told of the entry that it is about, and of no other. -/
theorem history_tell (w : World) (e : Event) (i : EntryId) :
    (w.tell e).history i = if e.about == some i then e :: w.history i else w.history i :=
  List.filter_cons

theorem tell_spares (w : World) {e : Event} (h : e.about ≠ some i) : Spares i w (w.tell e) := by
  refine ⟨rfl, ?_⟩
  rw [history_tell, if_neg]
  simpa using h

theorem log_spares (w : World) {line : LogLine} (h : line.about ≠ some i) :
    Spares i w (w.log line) :=
  tell_spares w h

theorem modifyEntry_spares (w : World) (h : j ≠ i) (f : Entry → Entry) :
    Spares i w (w.modifyEntry j f) :=
  ⟨Array.getElem?_modify.trans (if_neg h), rfl⟩

theorem place_spares (w : World) (h : j ≠ i) : Spares i w (w.place j) := by
  unfold place
  split
  · exact ⟨Array.getElem?_modify.trans (if_neg h), rfl⟩
  · exact .refl w

/-- An entry that comes back to a slot spares the others: they stay in their slots. -/
theorem reinstall_spares (w : World) (h : j ≠ i) : Spares i w (w.reinstall j) := by
  unfold reinstall
  split
  · exact .refl w
  · split
    · have hmodify := modifyEntry_spares w h
      exact ((hmodify _).trans (log_spares _ (by simpa [LogLine.about] using h))).trans
        (place_spares _ h)
    · exact .refl w

theorem release_spares (w : World) (h : j ≠ i) : Spares i w (w.release j) := by
  have hgive := modifyEntry_spares w h (·.release)
  unfold release
  simp only
  split
  · exact hgive
  · split
    · exact hgive.trans (reinstall_spares _ h)
    · exact hgive

theorem register_spares (w : World) (h : w.entries.size ≠ i) (r : Registration) (task : Task) :
    Spares i w (w.register r task) := by
  have hpush : ∀ e : Entry, Spares i w { w with entries := w.entries.push e } := by
    intro e
    refine ⟨?_, rfl⟩
    rw [Array.getElem?_push, if_neg (Ne.symm h)]
  unfold register
  split
  · exact .refl w
  · refine Spares.trans ?_ (log_spares _ (by simpa [LogLine.about] using h))
    split
    · exact hpush _
    · exact (hpush _).trans (place_spares _ h)

theorem control_spares {c : Control} (hc : c ≠ .run) (runTask : EntryId → World → Outcome × World)
    (w : World) (h : j ≠ i) (e : Entry) : Spares i w (w.control runTask j e c).2 := by
  have htell : Spares i w (w.tell (.controlled j c)) :=
    tell_spares w (by simpa [Event.about] using h)
  -- a control tells of its entry, changes this one, and may have the wheels take it
  have hmodify : ∀ f : Entry → Entry, Spares i w ((w.tell (.controlled j c)).modifyEntry j f) :=
    fun f => htell.trans (modifyEntry_spares _ h f)
  cases c with
  | stop =>
    simp only [control, stopEntry]
    split
    · exact htell
    · exact (hmodify _).trans (log_spares _ (by simpa [LogLine.about] using h))
  | start =>
    simp only [control, startEntry]
    split
    · exact ((hmodify _).trans (log_spares _ (by simpa [LogLine.about] using h))).trans
        (reinstall_spares _ h)
    · exact htell
  | reset =>
    exact ((hmodify _).trans (log_spares _ (by simpa [LogLine.about] using h))).trans
      (reinstall_spares _ h)
  | close =>
    simp only [control, closeEntry]
    split
    · exact htell
    · exact (hmodify _).trans (log_spares _ (by simpa [LogLine.about] using h))
  | run => exact absurd rfl hc
  | setRuns runs => exact hmodify _
  | setSingleton on => exact hmodify _

theorem conclude_spares (w : World) (h : j ≠ i) (outcome : Outcome) :
    Spares i w (w.conclude j outcome) := by
  cases outcome with
  | exit =>
    exact (modifyEntry_spares w h _).trans (log_spares _ (by simpa [LogLine.about] using h))
  | failed reason => exact log_spares w (by simpa [LogLine.about] using h)
  | done => exact .refl w
  | crashed => exact .refl w

theorem complete_spares (w : World) (h : j ≠ i) : Spares i w (w.complete j) := by
  unfold complete
  split
  · exact .refl w
  · have hend : Spares i w ((w.modifyEntry j (·.complete)).tell (.completed j)) :=
      (modifyEntry_spares w h _).trans (tell_spares _ (by simpa [Event.about] using h))
    simp only
    split
    · exact hend.trans (log_spares _ (by simpa [LogLine.about] using h))
    · exact hend

theorem puttingBack_spares (w : World) (h : j ≠ i) (nowMs : Nat) (last : Bool) :
    Spares i w (w.puttingBack nowMs j last) := by
  unfold puttingBack
  split
  · exact release_spares w h
  · exact (modifyEntry_spares w h _).trans (place_spares _ h)

theorem launching_spares (w : World) (h : j ≠ i) (s : Sweep) (last : Bool) (e : Entry) :
    Spares i w (w.launching s j last e) := by
  have hlook : Spares i w ((w.modifyEntry j fun _ => e).tell
      (.evaluated j s.level s.tick s.nowMs (.run last))) :=
    (modifyEntry_spares w h _).trans (tell_spares _ (by simpa [Event.about] using h))
  unfold launching
  simp only
  split
  · exact ⟨hlook.entry, hlook.history⟩
  · exact hlook

/-- What a tick does with an entry that is not to run spares the others. -/
theorem dispatch_spares {w : World} (h : j ≠ i) {e : Entry} {nowMs : Nat}
    (he : w.entries[j]? = some e) (rests : ∀ last, (e.evaluate nowMs).1 ≠ .run last)
    (level tick : Nat) : Spares i w (w.dispatch level tick nowMs j) := by
  have hlook : ∀ v, Spares i w ((w.modifyEntry j fun _ => (e.evaluate nowMs).2).tell
      (.evaluated j level tick nowMs v)) :=
    fun v => (modifyEntry_spares w h _).trans (tell_spares _ (by simpa [Event.about] using h))
  unfold dispatch
  rw [he]
  simp only
  cases hv : (e.evaluate nowMs).1 with
  | drop => exact (hlook _).trans (release_spares _ h)
  | wait => exact (hlook _).trans (place_spares _ h)
  | skip => exact ((hlook _).trans (modifyEntry_spares _ h _)).trans (place_spares _ h)
  | run last => exact absurd hv (rests last)

/-- The timer and its clock are no entries. -/
theorem Quiet.spares {w : World} {journal : List Event} (h : w.Quiet journal) (clockUs : Nat)
    (timer : Option Timer) (timers : Nat) :
    Spares i w { w with clockUs, timer, timers, journal } := by
  obtain ⟨events, hevents, rfl⟩ := h
  refine ⟨rfl, ?_⟩
  have hnone : events.filter (fun e => e.about == some i) = [] := by
    rw [List.filter_eq_nil_iff]
    intro e he
    simp [hevents e he]
  unfold history
  rw [List.filter_append, hnone, List.nil_append]

end World

/-! ## Operations as they show on a page -/

/-- The entry but for its place and its due time. -/
def Entry.terms (e : Entry) : Entry :=
  { e with dueMs := 0, level := 0, installedTick := 0, installed := false }

namespace Page

/-- Something is told of the entry. -/
def tell (p : Page) (e : Event) : Page := { p with history := e :: p.history }

/-- The log says something of the entry. -/
def log (p : Page) (line : LogLine) : Page := p.tell (.logged line)

/-- The entry changes. -/
def modify (p : Page) (f : Entry → Entry) : Page := { p with entry := f p.entry }

/-- The entry is put into the slot that its remaining delay calls for. -/
def place (p : Page) : Page :=
  let seat := p.aim (p.entry.remainingMs p.nowMs)
  p.modify (·.putAt seat.1 seat.2)

/-- The entry is taken where the wheels do not own it and its timer is there. -/
def reinstall (i : EntryId) (p : Page) : Page :=
  if p.there && !p.entry.installed then
    ((p.modify (·.rearm p.nowMs)).log (.entryReinstalled i)).place
  else p

/-- The entry is given up, and taken back if it was reset. -/
def release (i : EntryId) (p : Page) : Page :=
  if p.entry.status = .reset then (p.modify (·.release)).reinstall i
  else p.modify (·.release)

/-- The entry is controlled, in any other way than by running its body. -/
def control (i : EntryId) (p : Page) (c : Control) : Page :=
  let p' := p.tell (.controlled i c)
  match c with
  | .stop =>
    if p.entry.status = .stopped ∨ p.entry.status = .closed then p'
    else (p'.modify (·.stop)).log (.entryStopped i)
  | .start =>
    if p.entry.status = .stopped then
      ((p'.modify (·.start)).log (.entryStarted i)).reinstall i
    else p'
  | .reset => ((p'.modify (·.reset)).log (.entryReset i p.entry.limit)).reinstall i
  | .close => if p.entry.status = .closed then p' else (p'.modify (·.close)).log (.entryClosed i)
  | .run => p'
  | .setRuns runs => p'.modify (·.setRuns runs)
  | .setSingleton on => p'.modify (·.setSingleton on)

/-- A body of the entry ends. -/
def conclude (i : EntryId) (p : Page) : Outcome → Page
  | .exit => (p.modify (·.close)).log (.jobExited i)
  | .failed reason => p.log (.jobFailed i reason)
  | .done | .crashed => p

/-- An execution of the entry ends. -/
def complete (i : EntryId) (p : Page) : Page :=
  let p' := (p.modify (·.complete)).tell (.completed i)
  if p.entry.complete.status = .closed ∧ p.entry.status ≠ .closed then p'.log (.runsUsedUp i)
  else p'

/-- A tick looks at the entry. -/
def look (i : EntryId) (level tick nowMs : Nat) (p : Page) : Page :=
  (p.modify fun e => (e.evaluate nowMs).2).tell
    (.evaluated i level tick nowMs (p.entry.evaluate nowMs).1)

/-- A look in terms of its verdict and of the entry it leaves. -/
theorem look_eq {p : Page} {nowMs : Nat} {verdict : Verdict} {e : Entry}
    (h : p.entry.evaluate nowMs = (verdict, e)) (i : EntryId) (level tick : Nat) :
    p.look i level tick nowMs
      = (p.modify fun _ => e).tell (.evaluated i level tick nowMs verdict) := by
  simp only [look, modify, h]

/-- What follows a look that launches nothing. -/
def rest (i : EntryId) (nowMs : Nat) (p : Page) : Verdict → Page
  | .drop => p.release i
  | .wait => p.place
  | .skip => (p.modify (·.advanceDue nowMs)).place
  | .run _ => p

/-- The tick has dealt with the entry that it launched. -/
def putBack (i : EntryId) (nowMs : Nat) (p : Page) (last : Bool) : Page :=
  if last then p.release i else (p.modify (·.advanceDue nowMs)).place

/-- The page of a new entry. -/
def registered (i : EntryId) (r : Registration) (task : Task) (owner nowMs : Nat)
    (aim : Nat → Nat × Nat) : Page :=
  let e := Entry.ofRegistration r task owner nowMs
  let seat := aim (e.remainingMs nowMs)
  let e' := if e.status = .closed then e else { e with installed := true }.putAt seat.1 seat.2
  { entry := e'
    history := [.logged (.entryAdded i r.intervalMs r.singleton e.status e'.level)]
    there := true
    nowMs
    aim }

/-! Nothing that is told is ever taken back. -/

theorem suffix_tell (p : Page) (e : Event) : p.history <:+ (p.tell e).history :=
  List.suffix_cons e p.history

/-- The way back into a slot is told on top of what was told. -/
theorem suffix_reinstall (p : Page) (i : EntryId) : p.history <:+ (p.reinstall i).history := by
  unfold reinstall
  split
  · exact (p.modify _).suffix_tell (.logged (.entryReinstalled i))
  · exact List.suffix_rfl

theorem suffix_release (p : Page) (i : EntryId) : p.history <:+ (p.release i).history := by
  unfold release
  split
  · exact (p.modify (·.release)).suffix_reinstall i
  · exact List.suffix_rfl

/-- That an entry is controlled is told, whatever comes of it. -/
theorem suffix_control (p : Page) (i : EntryId) (c : Control) :
    (p.tell (.controlled i c)).history <:+ (p.control i c).history := by
  have hlog : ∀ (f : Entry → Entry) (line : LogLine), (p.tell (.controlled i c)).history
      <:+ (((p.tell (.controlled i c)).modify f).log line).history :=
    fun f line => ((p.tell (.controlled i c)).modify f).suffix_tell (.logged line)
  cases c with
  | stop =>
    simp only [control]
    split
    · exact List.suffix_rfl
    · exact hlog _ _
  | start =>
    simp only [control]
    split
    · exact (hlog _ _).trans (suffix_reinstall _ i)
    · exact List.suffix_rfl
  | reset => exact (hlog _ _).trans (suffix_reinstall _ i)
  | close =>
    simp only [control]
    split
    · exact List.suffix_rfl
    · exact hlog _ _
  | run => exact List.suffix_rfl
  | setRuns runs => exact List.suffix_rfl
  | setSingleton on => exact List.suffix_rfl

theorem suffix_conclude (p : Page) (i : EntryId) (outcome : Outcome) :
    p.history <:+ (p.conclude i outcome).history := by
  cases outcome with
  | exit => exact (p.modify (·.close)).suffix_tell (.logged (.jobExited i))
  | failed reason => exact p.suffix_tell (.logged (.jobFailed i reason))
  | done => exact List.suffix_rfl
  | crashed => exact List.suffix_rfl

theorem suffix_complete (p : Page) (i : EntryId) : p.history <:+ (p.complete i).history := by
  have hend := (p.modify (·.complete)).suffix_tell (.completed i)
  unfold complete
  simp only
  split
  · exact hend.trans (suffix_tell _ (.logged (.runsUsedUp i)))
  · exact hend

theorem suffix_look (p : Page) (i : EntryId) (level tick nowMs : Nat) :
    p.history <:+ (p.look i level tick nowMs).history :=
  (p.modify fun e => (e.evaluate nowMs).2).suffix_tell _

theorem suffix_rest (p : Page) (i : EntryId) (nowMs : Nat) (verdict : Verdict) :
    p.history <:+ (p.rest i nowMs verdict).history := by
  cases verdict with
  | drop => exact p.suffix_release i
  | wait => exact List.suffix_rfl
  | skip => exact List.suffix_rfl
  | run last => exact List.suffix_rfl

theorem suffix_putBack (p : Page) (i : EntryId) (nowMs : Nat) (last : Bool) :
    p.history <:+ (p.putBack i nowMs last).history := by
  unfold putBack
  split
  · exact p.suffix_release i
  · exact List.suffix_rfl

/-! The wheels change where an entry is and when it is due, and tell of nothing but that it was
taken back. -/

/-- The wheels have dealt with the entry. -/
structure Handled (p p' : Page) : Prop where
  terms : p'.entry.terms = p.entry.terms
  told : TellsMore (fun e => ∃ i, e = .logged (.entryReinstalled i)) p.history p'.history

variable {p p' p'' : Page}

theorem Handled.refl (p : Page) : p.Handled p := ⟨rfl, .refl _⟩

theorem Handled.trans (h : p.Handled p') (h' : p'.Handled p'') : p.Handled p'' :=
  ⟨h'.terms.trans h.terms, h.told.trans h'.told⟩

/-- A change of place or of the due time, of which nothing is told. -/
theorem handled_modify (p : Page) {f : Entry → Entry} (hf : ∀ e, (f e).terms = e.terms) :
    p.Handled (p.modify f) := ⟨hf p.entry, .refl _⟩

theorem handled_place (p : Page) : p.Handled p.place := p.handled_modify fun _ => by rfl

theorem handled_advance (p : Page) (nowMs : Nat) :
    p.Handled (p.modify (·.advanceDue nowMs)).place :=
  (p.handled_modify fun _ => by rfl).trans (handled_place _)

/-- The way back into a slot is the one thing that the wheels tell. -/
theorem handled_reinstall (p : Page) (i : EntryId) : p.Handled (p.reinstall i) := by
  unfold reinstall
  split
  · exact ⟨rfl, .cons ⟨i, rfl⟩ (.refl _)⟩
  · exact .refl p

theorem handled_release (p : Page) (i : EntryId) : p.Handled (p.release i) := by
  unfold release
  split
  · exact (p.handled_modify fun _ => by rfl).trans (handled_reinstall _ i)
  · exact p.handled_modify fun _ => by rfl

theorem handled_rest (p : Page) (i : EntryId) (nowMs : Nat) (verdict : Verdict) :
    p.Handled (p.rest i nowMs verdict) := by
  cases verdict with
  | drop => exact p.handled_release i
  | wait => exact p.handled_place
  | skip => exact p.handled_advance nowMs
  | run last => exact .refl p

/-- After a launch the wheels have an entry put back or give it up. -/
theorem handled_putBack (p : Page) (i : EntryId) (nowMs : Nat) (last : Bool) :
    p.Handled (p.putBack i nowMs last) := by
  unfold putBack
  split
  · exact p.handled_release i
  · exact p.handled_advance nowMs

end Page

namespace World

variable {w : World} {i : EntryId} {p : Page}

/-- What a page is, field by field. -/
theorem page_eq_some : w.page i = some p ↔ w.entries[i]? = some p.entry ∧ p.history = w.history i
    ∧ p.there = w.hasTimer p.entry.owner ∧ p.nowMs = w.nowMs ∧ p.aim = w.aim := by
  unfold page
  rw [Option.map_eq_some_iff]
  constructor
  · rintro ⟨e, he, rfl⟩
    exact ⟨he, rfl, rfl, rfl, rfl⟩
  · rintro ⟨he, hhistory, hthere, hnow, haim⟩
    refine ⟨p.entry, he, ?_⟩
    rw [← hhistory, ← hthere, ← hnow, ← haim]

theorem page_tell (h : w.page i = some p) {e : Event} (he : e.about = some i) :
    (w.tell e).page i = some (p.tell e) := by
  obtain ⟨hentry, hhistory, hthere, hnow, haim⟩ := page_eq_some.1 h
  refine page_eq_some.2 ⟨hentry, ?_, hthere, hnow, haim⟩
  rw [history_tell, he, ← hhistory]
  simp [Page.tell]

theorem page_log (h : w.page i = some p) {line : LogLine} (hl : line.about = some i) :
    (w.log line).page i = some (p.log line) :=
  page_tell h hl

/-- A change of the entry shows in its page, if it leaves the entry with its timer. -/
theorem page_modifyEntry (h : w.page i = some p) {f : Entry → Entry}
    (hf : (f p.entry).owner = p.entry.owner) :
    (w.modifyEntry i f).page i = some (p.modify f) := by
  obtain ⟨hentry, hhistory, hthere, hnow, haim⟩ := page_eq_some.1 h
  refine page_eq_some.2 ⟨?_, hhistory, ?_, hnow, haim⟩
  · exact Array.getElem?_modify.trans (by rw [if_pos rfl, hentry]; rfl)
  · rw [Page.modify, hf]
    exact hthere

/-- The place where an entry is put shows in its page, if a timer is there to put it. -/
theorem page_place (h : w.page i = some p) (ht : w.timer.isSome = true) :
    (w.place i).page i = some p.place := by
  obtain ⟨t, ht⟩ := Option.isSome_iff_exists.1 ht
  obtain ⟨hentry, hhistory, hthere, hnow, haim⟩ := page_eq_some.1 h
  have haside := place_aside w i
  have hseat : p.aim (p.entry.remainingMs p.nowMs)
      = t.position (p.entry.remainingMs (t.nowMs w.clockUs)) := by
    rw [haim, hnow]
    simp only [aim, nowMs, ht, Option.map_some, Option.getD_some]
  refine page_eq_some.2 ⟨?_, ?_, ?_, ?_, ?_⟩
  · simp only [place, ht, hentry, Page.place, hseat]
    exact Array.getElem?_modify.trans (by rw [if_pos rfl, hentry]; rfl)
  · simp only [place, ht, hentry]
    exact hhistory
  · rw [haside.hasTimer]
    exact hthere
  · rw [haside.nowMs]
    exact hnow
  · rw [haside.aim]
    exact haim

theorem isSome_of_hasTimer {id : TimerId} (h : w.hasTimer id = true) : w.timer.isSome = true := by
  unfold hasTimer at h
  cases ht : w.timer with
  | none => simp [ht] at h
  | some t => rfl

/-- The way back into a slot shows in its page. -/
theorem page_reinstall (h : w.page i = some p) :
    (w.reinstall i).page i = some (p.reinstall i) := by
  obtain ⟨hentry, -, hthere, hnow, -⟩ := page_eq_some.1 h
  unfold reinstall Page.reinstall
  -- the page decides as the world does
  simp only [hentry, ← hthere, ← hnow]
  cases hfree : p.there && !p.entry.installed with
  | false => exact h
  | true =>
    rw [Bool.and_eq_true, hthere] at hfree
    exact page_place (page_log (page_modifyEntry h rfl) rfl) (isSome_of_hasTimer hfree.1)

/-- The release from the wheels shows in its page, also where a reset brings the entry back. -/
theorem page_release (h : w.page i = some p) :
    (w.release i).page i = some (p.release i) := by
  have hgive := page_modifyEntry h (f := (·.release)) rfl
  obtain ⟨hentry, -⟩ := page_eq_some.1 hgive
  unfold release Page.release
  simp only [hentry]
  have hstatus : (p.modify (·.release)).entry.status = p.entry.status := rfl
  rw [hstatus]
  split
  · exact page_reinstall hgive
  · exact hgive

/-- An entry that is added begins with the page of its registration. -/
theorem page_register {t : Timer} (ht : w.timer = some t) (hnew : w.history w.entries.size = [])
    (r : Registration) (task : Task) : (w.register r task).page w.entries.size
      = some (.registered w.entries.size r task t.id w.nowMs w.aim) := by
  have hhere : w.hasTimer t.id = true := by simp [hasTimer, ht]
  -- the number of a new entry is one that nothing was told of
  have hpush : ∀ e : Entry, e.owner = t.id →
      ({ w with entries := w.entries.push e } : World).page w.entries.size
        = some ⟨e, [], true, w.nowMs, w.aim⟩ := by
    intro e howner
    refine page_eq_some.2 ⟨Array.getElem?_push_size, hnew.symm, ?_, rfl, rfl⟩
    rw [howner]
    exact hhere.symm
  unfold register
  split
  · next hnone => simp [ht] at hnone
  next t' ht' =>
  obtain rfl : t = t' := Option.some.inj (ht.symm.trans ht')
  unfold Page.registered
  simp only
  -- without a run the entry is closed at once; otherwise the wheels place it
  split
  · have hadded := hpush (Entry.ofRegistration r task t.id w.nowMs) rfl
    have hentry := (page_eq_some.1 hadded).1
    simp only at hentry
    simp only [hentry]
    exact page_log hadded rfl
  · have hplaced := page_place
      (hpush { Entry.ofRegistration r task t.id w.nowMs with installed := true } rfl)
      (Option.isSome_iff_exists.2 ⟨t, ht⟩)
    have hentry := (page_eq_some.1 hplaced).1
    simp only [hentry]
    exact page_log hplaced rfl

/-- A control of the entry shows in its page. -/
theorem page_control (h : w.page i = some p) {c : Control} (hc : c ≠ .run)
    (runTask : EntryId → World → Outcome × World) :
    (w.control runTask i p.entry c).2.page i = some (p.control i c) := by
  have htell := page_tell h (e := .controlled i c) rfl
  cases c with
  | stop =>
    simp only [control, stopEntry, Page.control]
    split
    · exact htell
    · exact page_log (page_modifyEntry htell (Entry.owner_of_seat (Entry.seat_stop _))) rfl
  | start =>
    simp only [control, startEntry, Page.control]
    split
    · exact page_reinstall
        (page_log (page_modifyEntry htell (Entry.owner_of_seat (Entry.seat_start _))) rfl)
    · exact htell
  | reset => exact page_reinstall (page_log (page_modifyEntry htell rfl) rfl)
  | close =>
    simp only [control, closeEntry, Page.control]
    split
    · exact htell
    · exact page_log (page_modifyEntry htell rfl) rfl
  | run => exact absurd rfl hc
  | setRuns runs => exact page_modifyEntry htell rfl
  | setSingleton on => exact page_modifyEntry htell rfl

theorem page_conclude (h : w.page i = some p) (outcome : Outcome) :
    (w.conclude i outcome).page i = some (p.conclude i outcome) := by
  cases outcome with
  | exit => exact page_log (page_modifyEntry h rfl) rfl
  | failed reason => exact page_log h rfl
  | done => exact h
  | crashed => exact h

theorem page_complete (h : w.page i = some p) :
    (w.complete i).page i = some (p.complete i) := by
  have hend := page_tell (page_modifyEntry h (Entry.owner_of_seat p.entry.seat_complete))
    (e := .completed i) rfl
  unfold complete Page.complete
  simp only [(page_eq_some.1 h).1]
  split
  · exact page_log hend rfl
  · exact hend

theorem page_look (h : w.page i = some p) (level tick nowMs : Nat) :
    ((w.modifyEntry i fun _ => (p.entry.evaluate nowMs).2).tell
      (.evaluated i level tick nowMs (p.entry.evaluate nowMs).1)).page i
        = some (p.look i level tick nowMs) :=
  page_tell (page_modifyEntry h (Entry.owner_of_seat (p.entry.seat_evaluate nowMs))) rfl

/-- A launch shows in the page as the look that it follows from; what it counts is seen elsewhere.
-/
theorem page_launching (h : w.page i = some p) (s : Sweep) {last : Bool}
    (runs : (p.entry.evaluate s.nowMs).1 = .run last) :
    (w.launching s i last (p.entry.evaluate s.nowMs).2).page i
      = some (p.look i s.level s.tick s.nowMs) := by
  have hlook := page_look h s.level s.tick s.nowMs
  rw [runs] at hlook
  unfold launching
  simp only
  split <;> exact hlook

/-- What a tick does with an entry that is not to run shows in its page. -/
theorem page_dispatch (h : w.page i = some p) {nowMs : Nat}
    (rests : ∀ last, (p.entry.evaluate nowMs).1 ≠ .run last) (ht : w.timer.isSome = true)
    (level tick : Nat) : (w.dispatch level tick nowMs i).page i
      = some ((p.look i level tick nowMs).rest i nowMs (p.entry.evaluate nowMs).1) := by
  have hlook := page_look h level tick nowMs
  unfold dispatch
  simp only [(page_eq_some.1 h).1]
  cases hv : (p.entry.evaluate nowMs).1 with
  | drop =>
    rw [hv] at hlook
    exact page_release hlook
  | wait =>
    rw [hv] at hlook
    exact page_place hlook ht
  | skip =>
    rw [hv] at hlook
    exact page_place (page_modifyEntry hlook rfl) ht
  | run last => exact absurd hv (rests last)

/-- What a tick does with an entry after its launch shows in its page. -/
theorem page_puttingBack (h : w.page i = some p) (ht : w.timer.isSome = true) (nowMs : Nat)
    (last : Bool) :
    (w.puttingBack nowMs i last).page i = some (p.putBack i nowMs last) := by
  unfold puttingBack Page.putBack
  split
  · exact page_release h
  · exact page_place (page_modifyEntry h rfl) ht

end World

end TimingWheel
