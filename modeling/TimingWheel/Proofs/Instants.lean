import TimingWheel.Proofs.Passage

/-!
# A course from instant to instant

While a command lets time pass, the clock moves in steps, and between two of them everything that is
due is dealt with. So a course of commands is made of what happens at an instant and of moves of the
clock, and what is said of an entry between commands can be said at every instant in between.

* **`Moves.of_takes`** — a course may take up held executions of more entries.
* **`World.Timely.clockUs_step`** — a command that lets no time pass leaves the clock alone.
* **`World.Course.instants`** — what holds at first and is kept by commands that let no time pass,
  by settling, and by moves of the clock up to the next tick, holds after a course.
-/

namespace TimingWheel

section

variable {k : Clockwork} {takes takes' : EntryId → Prop} {w w' : World} {p q : World → Prop}

/-- Nothing stands in the way of what is taken up. -/
theorem Moves.of_takes {m m' : Moment} (h : Moves (.steady takes) m m')
    (htakes : ∀ j, takes j → takes' j) : Moves (.steady takes') m m' := by
  induction h with
  | refl => exact .refl
  | tail _ hmove ih =>
    exact ih.tail (@Move.mono (.steady takes) (.steady takes') (fun _ ha => ha) id
      (fun _ _ hwait => hwait) htakes id _ _ hmove)

/-- No tick is passed when the clock is moved to a time. -/
def World.MayWait (w : World) (us : Nat) : Prop :=
  w.clockUs ≤ us ∧ ∀ t, w.timer = some t → ∀ wheel ∈ t.wheels, us ≤ t.nextTickUs wheel

/-- Whether a command lets no time pass. -/
def Command.AtOnce : Command → Prop
  | .advance _ => False
  | _ => True

/-- A steady command that lets no time pass leaves the clock alone. -/
theorem World.Timely.clockUs_step (h : w.Timely k) {c : Command} (hc : c.Steady)
    (honce : c.AtOnce) : (w.step c).2.clockUs = w.clockUs := by
  cases c with
  | act a =>
    exact Moves.clockUs_eq (@perform_moves (Law.steady fun _ => True).withinBody _
      (invoke_moves w.nesting) w h.bodies none none a hc)
  | create config =>
    simp only [World.step, World.create]
    split
    · rfl
    · next hvalid => exact absurd hvalid hc
  | dropTimer => exact hc.elim
  | dumpTimer =>
    simp only [World.step]
    split <;> rfl
  | timerStats =>
    simp only [World.step]
    split <;> rfl
  | touch => rfl
  | advance us => exact honce.elim
  | finish n =>
    simp only [World.step, World.finish]
    split
    · rfl
    · next j hj =>
      exact Moves.clockUs_eq (@execute_moves (Law.steady fun _ => True).withinBody
        { w with held := w.held.eraseIdx n } none j h.bodies)
  | unsupported => rfl

theorem World.Steady.settle (h : w.Steady k) : w.settle.Steady k :=
  h.moves (@settle_moves (.steady fun _ => True) trivial w h.bodies)

theorem World.Steady.wait (h : w.Steady k) {us : Nat} (hus : w.MayWait us) :
    World.Steady { w with clockUs := us } k :=
  h.moves (.single (@Move.wait (.steady fun _ => True) w us hus))

/-! ## While time passes -/

variable (hsettle : ∀ {w : World}, w.Steady k → q w → q w.settle)
  (hwait : ∀ {w : World} {us : Nat}, w.Steady k → q w → w.MayWait us → q { w with clockUs := us })

include hsettle hwait

/-- The stops on the way, one after the other: what is overdue is dealt with, and then time passes
to the next due tick. Induction on the number of stops. -/
theorem World.Steady.advanceWithin_keeps (targetUs n : Nat) : ∀ {w : World}, w.Steady k → q w →
    q (World.advanceWithin targetUs n w) := by
  induction n with
  | zero => exact fun _ hq => hq
  | succ n ih =>
    intro w hw hq
    obtain ⟨htimely, -, hidle⟩ := hw.timely.settle
    have hsettled := hsettle hw hq
    unfold World.advanceWithin
    rcases htimely.onTime.earliestTickUs with
      ⟨hnone, -⟩ | ⟨due, t, level, wheel, hsome, ht, hwheel, hdue, hleast⟩
    · simp only [hnone]
      exact hsettled
    · simp only [hsome]
      split
      · have hbefore := htimely.onTime.clearTo hidle t ht wheel (Array.mem_of_getElem? hwheel)
        have hus : w.settle.MayWait due := ⟨Nat.le_of_lt (hdue ▸ hbefore), hleast⟩
        exact ih (hw.settle.wait hus) (hwait hw.settle hsettled hus)
      · exact hsettled

/-- **What is kept at every instant is kept while time passes.** -/
theorem World.Steady.advance_keeps (hw : w.Steady k) (hq : q w) (us : Nat) : q (w.advance us) := by
  obtain ⟨hmoves, hend, hclear⟩ := hw.timely.advanceWithin (fun _ => True) (w.clockUs + us) _
    (Nat.le_add_right _ _) (hw.timely.onTime.enough us)
  have hmax := Nat.max_eq_right hend
  have hkept := World.Steady.advanceWithin_keeps hsettle hwait (w.clockUs + us)
    (w.ticksBy (w.clockUs + us) + 1) hw hq
  unfold World.advance
  simp only
  rw [hmax]
  exact hwait (hw.moves hmoves) hkept
    ⟨hend, fun t ht wheel hwheel => Nat.le_of_lt (hclear t ht wheel hwheel)⟩

/-- **A course goes from instant to instant.** -/
theorem World.Course.instants (h : w.Course p w') (hw : w.Steady k) (hsettled : w.Settled k)
    (hp : p w) (hq : q w)
    (hstep : ∀ {w : World} {c : Command}, w.Steady k → w.Settled k → p w → q w → c.Steady →
      c.AtOnce → q (w.step c).2) : w'.Steady k ∧ w'.Settled k ∧ p w' ∧ q w' := by
  have hcommand : ∀ {w : World} {c : Command}, w.Steady k ∧ w.Settled k ∧ p w ∧ q w → c.Steady →
      p (w.step c).2 → (w.step c).2.Steady k ∧ (w.step c).2.Settled k ∧ p (w.step c).2
        ∧ q (w.step c).2 := by
    rintro w c ⟨hw, hsettled, hp, hq⟩ hc hp'
    obtain ⟨hmoves, hsettled'⟩ := @World.Steady.step k w (fun _ => True) hw hsettled
      (fun _ _ => trivial) c hc
    refine ⟨hw.moves hmoves, hsettled', hp', ?_⟩
    cases c with
    | advance us => exact World.Steady.advance_keeps hsettle hwait hw hq us
    | _ => exact hstep hw hsettled hp hq hc trivial
  induction h with
  | start => exact ⟨hw, hsettled, hp, hq⟩
  | step c _ steady kept ih => exact hcommand ih steady kept
  | @stepShared w₁ loaded c _ steady kept ih =>
    rcases ih.1.timely.onTime.stepShared loaded steady with hsame | ⟨hc, hsame⟩
    · rwa [hsame]
    · rw [hsame] at kept ⊢
      exact hcommand ih hc kept

end

end TimingWheel
