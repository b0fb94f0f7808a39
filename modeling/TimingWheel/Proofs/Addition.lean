import TimingWheel.Proofs.Life

/-!
# How an entry was added

What an entry is entitled to depends on how it was added: with which registration, and at what time
of its timer's clock. An entry does not keep either, so both are said about the course of events
that led to a moment.

* **`Moment.AddedAs`** — on the way to a moment an entry was added with a registration at a time.
* **`Moves.exists_addedAs`** — every entry was.
* **`Moment.AddedAs.induction`** — what holds of a view when the entry is added and is kept by
  whatever happens to the entry holds in the end.
-/

namespace TimingWheel

/-- The view of an entry that was just added with a registration, at a time of its timer's clock. -/
def View.Added (i : EntryId) (r : Registration) (addedMs : Nat) (v : View) : Prop :=
  ∃ task owner aim, v = { Page.registered i r task owner addedMs aim with
    stage := .free, flight := ⟨0, false⟩ }

/-- On the way to a moment an entry was added with a registration, at a time of its timer's
clock. -/
def Moment.AddedAs (law : Law) (m : Moment) (i : EntryId) (r : Registration) (addedMs : Nat) :
    Prop :=
  ∃ nesting m₀ v, Moves law ⟨{ nesting }, none, none⟩ m₀ ∧ m₀.view i = some v
    ∧ v.Added i r addedMs ∧ Moves law m₀ m

variable {law : Law} {m m' : Moment} {i : EntryId} {r : Registration} {addedMs nesting : Nat}

/-- A view shows the entry and what is told of it. -/
theorem Moment.read_view {v : View} (hv : m.view i = some v) {e : Entry}
    (he : m.world.entries[i]? = some e) : v.entry = e ∧ v.history = m.world.history i := by
  obtain ⟨hpage, -⟩ := Moment.view_eq_some.1 hv
  exact ⟨Moment.entry_of_page hpage he, (World.page_eq_some.1 hpage).2.1⟩

/-- An added entry has the interval of its registration. -/
theorem View.Added.intervalMs {v : View} (h : v.Added i r addedMs) :
    v.entry.intervalMs = r.intervalMs := by
  obtain ⟨task, owner, aim, rfl⟩ := h
  unfold Page.registered
  simp only
  split <;> rfl

theorem View.Added.nowMs {v : View} (h : v.Added i r addedMs) : v.nowMs = addedMs := by
  obtain ⟨task, owner, aim, rfl⟩ := h
  rfl

/-- The addition of an entry stays a fact of its past, whatever comes after. -/
theorem Moment.AddedAs.moves (h : m.AddedAs law i r addedMs) (hmoves : Moves law m m') :
    m'.AddedAs law i r addedMs := by
  obtain ⟨nesting, m₀, v, hstart, hv, hadded, hsince⟩ := h
  exact ⟨nesting, m₀, v, hstart, hv, hadded, hsince.trans hmoves⟩

/-- A move that an entry comes into being by adds it, at what the clock reads. -/
theorem Moves.addedAs_of_blank (h : Moves law ⟨{ nesting }, none, none⟩ m) (hmove : Move law m m')
    (hblank : m.Blank i) :
    m'.Blank i ∨ ∃ r v, m'.AddedAs law i r m'.world.nowMs ∧ m'.view i = some v
      ∧ v.Added i r m'.world.nowMs := by
  have hcustody := Moment.Arises.custody ⟨nesting, Moves.free h⟩
  rcases (hmove.lives hcustody i).comes hblank with hblank' | ⟨v, hv, hborn⟩
  · exact Or.inl hblank'
  · obtain ⟨r, task, owner, nowMs, aim, hview⟩ := hborn
    have hadded : v.Added i r nowMs := ⟨task, owner, aim, hview⟩
    obtain ⟨-, -, -, hnow, -⟩ := World.page_eq_some.1 (Moment.view_eq_some.1 hv).1
    rw [hadded.nowMs] at hnow
    rw [hnow] at hadded
    exact Or.inr ⟨r, v, ⟨nesting, m', v, h.tail hmove, hv, hadded, .refl⟩, hv, hadded⟩

/-- An entry of a run was added in the course of it, or does not exist yet. Induction on the run:
the id that an addition takes is the first one that is free. -/
theorem Moves.blank_or_addedAs (h : Moves law ⟨{ nesting }, none, none⟩ m) (i : EntryId) :
    m.Blank i ∨ ∃ r addedMs, m.AddedAs law i r addedMs := by
  induction h with
  | refl => exact Or.inl ⟨rfl, rfl, rfl⟩
  | tail hmoves hmove ih =>
    rcases ih with hblank | ⟨r, addedMs, hadded⟩
    · rcases Moves.addedAs_of_blank hmoves hmove hblank with hblank' | ⟨r, v, hadded, -⟩
      · exact Or.inl hblank'
      · exact Or.inr ⟨r, _, hadded⟩
    · exact Or.inr ⟨r, addedMs, hadded.moves (.single hmove)⟩

/-- **Every entry was added some time.** -/
theorem Moves.exists_addedAs (h : Moves law ⟨{ nesting }, none, none⟩ m) {e : Entry}
    (he : m.world.entries[i]? = some e) : ∃ r addedMs, m.AddedAs law i r addedMs :=
  (Moves.blank_or_addedAs h i).resolve_left (Moment.not_blank he)

/-- Every entry of a world that arises was added once, with a registration that never changes. -/
theorem Moment.Arises.exists_addedAs (h : m.Arises) {e : Entry}
    (he : m.world.entries[i]? = some e) : ∃ r addedMs, m.AddedAs .free i r addedMs := by
  obtain ⟨_, hmoves⟩ := h
  exact hmoves.exists_addedAs he

/-- **What holds of an entry when it is added and is kept by whatever happens to it** holds as long
as it is there. What happens is one move after another. -/
theorem Moment.AddedAs.induction {p : View → Prop} (h : m.AddedAs law i r addedMs)
    (added : ∀ {v : View}, v.Added i r addedMs → p v)
    (step : ∀ {m m' : Moment} {v v' : View}, m.Arises → Move law m m' → m.view i = some v →
      m'.view i = some v' → v.EntryStep law i v' → p v → p v') : ∃ v, m.view i = some v ∧ p v := by
  obtain ⟨nesting, m₀, v₀, hstart, hv₀, hadded, hsince⟩ := h
  induction hsince with
  | refl => exact ⟨v₀, hv₀, added hadded⟩
  | tail hmoves hmove ih =>
    obtain ⟨v, hv, hp⟩ := ih
    have harises : Moment.Arises _ := ⟨nesting, Moves.free (hstart.trans hmoves)⟩
    obtain ⟨v', hv', hstepped⟩ := (hmove.lives harises.custody i).step hv
    exact ⟨v', hv', step harises hmove hv hv' hstepped hp⟩

end TimingWheel
