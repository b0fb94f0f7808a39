import Mathlib.Data.List.Chain
import TimingWheel.Proofs.Residue

/-!
# Cascading is short and only goes down

An entry that is placed for a new due time may be handed down through all levels before it is due,
and a level may see it twice: once with almost two ticks left and once with less than one. It never
comes to a coarser level again.

* **`findings`** — what the looks at an entry found, and `earlyLevels`, on which levels it was found
  not to be due since the last look that found something else.
* **`View.Descends`** — the invariant of an entry, kept by everything that happens to it while its
  timer is there (`View.Descends.step`), and what is left of it afterwards (`View.Rested`).
* **`cascading_short`** — the bound for every entry whose interval the coarsest level spans.
-/

namespace TimingWheel

/-! ## What looks find -/

/-- The level of a look, and what it found. -/
structure Finding where
  level : Nat
  verdict : Verdict
  deriving DecidableEq

/-- What a look found, if the event is one. -/
def Event.finding? : Event → Option Finding
  | .evaluated _ level _ _ verdict => some ⟨level, verdict⟩
  | _ => none

/-- What the looks found that a history tells of, the latest first. -/
def findings (history : List Event) : List Finding := history.filterMap Event.finding?

@[simp] theorem findings_cons_of_none {e : Event} (h : e.finding? = none) (history : List Event) :
    findings (e :: history) = findings history := List.filterMap_cons_none h

/-- The levels on which the entry was found not to be due since the last look that found something
else, the latest first. -/
def earlyLevels : List Finding → List Nat
  | [] => []
  | f :: rest => if f.verdict = .wait then f.level :: earlyLevels rest else []

theorem earlyLevels_of_wait {f : Finding} (h : f.verdict = .wait) (rest : List Finding) :
    earlyLevels (f :: rest) = f.level :: earlyLevels rest := if_pos h

theorem earlyLevels_of_other {f : Finding} (h : f.verdict ≠ .wait) (rest : List Finding) :
    earlyLevels (f :: rest) = [] := if_neg h

/-- A stretch of early looks that ends with the latest look is part of the latest stretch.
Induction on the stretch. -/
theorem prefix_earlyLevels {block : List Finding} (hwait : ∀ f ∈ block, f.verdict = .wait) :
    ∀ {found : List Finding}, block <+: found → block.map (·.level) <+: earlyLevels found := by
  induction block with
  | nil => exact fun _ => List.nil_prefix
  | cons f rest ih =>
    obtain ⟨hf, hrest⟩ := List.forall_mem_cons.1 hwait
    rintro found ⟨more, rfl⟩
    rw [List.cons_append, earlyLevels_of_wait hf, List.map_cons]
    exact List.cons_prefix_cons.2 ⟨rfl, ih hrest (List.prefix_append _ _)⟩

/-- How often an entry may wait on a level for one due time. -/
def waitsOn (level : Nat) : Nat := if level = 0 then 1 else 2

/-- Every stretch of looks that found the entry not to be due is short, and the look after one of
them is on no coarser level. -/
structure Descent (levels : Nat) (found : List Finding) : Prop where
  short : ∀ {block : List Finding}, block <:+: found → (∀ f ∈ block, f.verdict = .wait) →
    ∀ level, (block.map (·.level)).count level ≤ waitsOn level
  lower : found.IsChain fun next f => f.verdict = .wait → next.level ≤ f.level
  within : ∀ f ∈ found, f.level < levels

namespace Descent

variable {levels : Nat} {found : List Finding} {f : Finding}

theorem nil : Descent levels [] :=
  ⟨fun hblock _ _ => by simp [List.infix_nil.1 hblock], .nil, by simp⟩

/-- One more look. -/
theorem cons (h : Descent levels found)
    (hfew : f.verdict = .wait → (earlyLevels found).count f.level < waitsOn f.level)
    (hlower : ∀ level ∈ earlyLevels found, f.level ≤ level) (hlevel : f.level < levels) :
    Descent levels (f :: found) := by
  refine ⟨fun {block} hblock hwait level => ?_, h.lower.cons fun before hbefore hearly => ?_,
    List.forall_mem_cons.2 ⟨hlevel, h.within⟩⟩
  · rcases List.infix_cons_iff.1 hblock with hprefix | hinfix
    · rcases List.prefix_cons_iff.1 hprefix with rfl | ⟨rest, rfl, hrest⟩
      · simp
      obtain ⟨hf, hearly⟩ := List.forall_mem_cons.1 hwait
      rw [List.map_cons, List.count_cons]
      by_cases hsame : f.level = level
      · subst hsame
        have hcount := (prefix_earlyLevels hearly hrest).sublist.count_le f.level
        have hlt := hfew hf
        rw [if_pos (beq_self_eq_true _)]
        omega
      · rw [if_neg (by simpa using hsame)]
        exact h.short hrest.isInfix hearly level
    · exact h.short hinfix hwait level
  · cases found with
    | nil => simp at hbefore
    | cons before' rest =>
      obtain rfl : before' = before := Option.some.inj hbefore
      exact hlower _ (by rw [earlyLevels_of_wait hearly]; exact List.mem_cons_self)

end Descent

/-- As many numbers as this are below a bound, if the first comes once at most and the others come
twice at most. -/
theorem length_le_of_waitsOn (n : Nat) : ∀ {levels : List Nat}, (∀ level ∈ levels, level < n) →
    (∀ level, levels.count level ≤ waitsOn level) → levels.length ≤ 2 * n - 1 := by
  induction n with
  | zero =>
    intro levels hlt _
    rw [List.eq_nil_iff_forall_not_mem.2 fun level hlevel => Nat.not_lt_zero _ (hlt level hlevel)]
    rfl
  | succ n ih =>
    intro levels hlt hcount
    -- without the coarsest level there is one level less
    have hfiner := @ih (levels.filter (· != n)) (fun level hlevel => ?_) fun level => ?_
    · have hcoarsest := hcount n
      have hsplit : levels.length = levels.count n + (levels.filter (· != n)).length := by
        rw [List.count_eq_countP, List.countP_eq_length_filter]
        exact List.length_eq_length_filter_add _
      unfold waitsOn at hcoarsest
      split at hcoarsest <;> omega
    · obtain ⟨hmem, hne⟩ := List.mem_filter.1 hlevel
      have hle := hlt level hmem
      have hne' : level ≠ n := by simpa using hne
      omega
    · exact Nat.le_trans (List.filter_sublist.count_le level) (hcount level)

/-! ### Where no look is taken -/

namespace Page

variable {p : Page} {i : EntryId}

@[simp] theorem findings_reinstall (p : Page) (i : EntryId) :
    findings (p.reinstall i).history = findings p.history := by
  unfold reinstall
  split
  · exact findings_cons_of_none rfl _
  · rfl

theorem findings_conclude (p : Page) (i : EntryId) (outcome : Outcome) :
    findings (p.conclude i outcome).history = findings p.history := by
  cases outcome with
  | exit => exact findings_cons_of_none rfl _
  | failed reason => exact findings_cons_of_none rfl _
  | done => rfl
  | crashed => rfl

theorem findings_complete (p : Page) (i : EntryId) :
    findings (p.complete i).history = findings p.history := by
  unfold complete
  simp only
  split
  · exact (findings_cons_of_none rfl _).trans (findings_cons_of_none rfl _)
  · exact findings_cons_of_none rfl _

/-- A control takes no look, even where it leads the entry back to a slot. -/
theorem findings_control (p : Page) (i : EntryId) (c : Control) :
    findings (p.control i c).history = findings p.history := by
  have htold : findings (p.tell (.controlled i c)).history = findings p.history :=
    findings_cons_of_none rfl _
  have hlog : ∀ (f : Entry → Entry) (line : LogLine),
      findings (((p.tell (.controlled i c)).modify f).log line).history = findings p.history :=
    fun f line => (findings_cons_of_none rfl _).trans htold
  cases c with
  | stop =>
    simp only [control]
    split
    · exact htold
    · exact hlog _ _
  | start =>
    simp only [control]
    split
    · exact (findings_reinstall _ i).trans (hlog _ _)
    · exact htold
  | reset => exact (findings_reinstall _ i).trans (hlog _ _)
  | close =>
    simp only [control]
    split
    · exact htold
    · exact hlog _ _
  | run => exact htold
  | setRuns runs => exact htold
  | setSingleton on => exact htold

/-- A control leaves the timing as it is and takes no look, but the wheels may take the entry after
it. -/
theorem control_cases (p : Page) (i : EntryId) (c : Control) :
    ∃ p', p.Keeps [] p' ∧ findings p'.history = findings p.history
      ∧ (p.control i c = p' ∨ p.control i c = p'.reinstall i) := by
  obtain ⟨p', hsame, hp'⟩ := p.keeps_control i c
  refine ⟨p', hsame, ?_, hp'⟩
  rw [← p.findings_control i c]
  rcases hp' with hp' | hp' <;> rw [hp']
  exact (findings_reinstall p' i).symm

end Page

/-! ## The invariant -/

/-- Where an entry stands with the wheels, and how near to its due time its slot is emptied. -/
inductive Entry.Descends (k : Clockwork) (early : List Nat) (e : Entry) : Stage → Prop where
  /-- The wheels do not own the entry. -/
  | out (out : e.installed = false) (anew : early = []) : Descends k early e .free
  /-- A slot holds the entry. -/
  | waiting (owned : e.installed = true) (lower : ∀ level ∈ early, e.level ≤ level)
      (near : k.Near e.level e.installedTick (early.count e.level) e.dueMs) :
      Descends k early e .free
  /-- The tick drained the slot and has not looked at the entry yet. -/
  | drained (nowMs : Nat) (owned : e.installed = true) (lower : ∀ level ∈ early, e.level ≤ level)
      (near : k.Near e.level e.installedTick (early.count e.level) e.dueMs) :
      Descends k early e (.drained e.level e.installedTick nowMs)
  /-- The tick launched an execution, and the due time is still the one of the launch. -/
  | launched (nowMs : Nat) (last : Bool) (owned : e.installed = true) (anew : early = [])
      (due : e.dueMs ≤ nowMs) : Descends k early e (.launched nowMs last)

/-- The looks at an entry were as few as they should be, and it is placed so that they will be. Only
entries whose interval the coarsest level spans are placed so. -/
structure View.Descends (k : Clockwork) (v : View) : Prop where
  span : v.entry.intervalMs ≤ k.config.resolutionMs k.config.levels
  told : Descent k.config.levels (findings v.history)
  phase : v.entry.Descends k (earlyLevels (findings v.history)) v.stage

/-- The looks at an entry were as few as they should be, and no tick has to do with it. -/
structure View.Rested (levels : Nat) (v : View) : Prop where
  told : Descent levels (findings v.history)
  free : v.stage = .free
  anew : v.entry.installed = false → earlyLevels (findings v.history) = []
  lower : ∀ level ∈ earlyLevels (findings v.history), v.entry.level ≤ level

theorem le_add_of_addCapped (ms intervalMs : Nat) : addCapped ms intervalMs ≤ ms + intervalMs := by
  unfold addCapped
  omega

/-- The due time after one that has passed is at most an interval away, whether the schedule goes
on or starts anew. -/
theorem Entry.advanceDue_le_add {e : Entry} {nowMs : Nat} (due : e.dueMs ≤ nowMs) :
    (e.advanceDue nowMs).dueMs ≤ nowMs + e.intervalMs := by
  simp only [advanceDue]
  have hnext := le_add_of_addCapped e.dueMs e.intervalMs
  have hanew := le_add_of_addCapped nowMs e.intervalMs
  split <;> omega

namespace View

variable {k : Clockwork} {v v' : View} {i : EntryId} {p : Page}

namespace Descends

/-- Nothing that has to do with the timing happens, and no look is taken. -/
theorem keeps (h : v.Descends k) (hp : v.toPage.Keeps [] p)
    (hfound : findings p.history = findings v.history) (flight : Flight) :
    Descends k { v with toPage := p, flight := flight } := by
  refine ⟨by rw [hp.intervalMs]; exact h.span, by rw [hfound]; exact h.told, ?_⟩
  show p.entry.Descends k (earlyLevels (findings p.history)) v.stage
  rw [hfound]
  have hphase := h.phase
  generalize v.stage = stage at hphase
  have hnear : ∀ {looks : Nat}, k.Near v.entry.level v.entry.installedTick looks v.entry.dueMs →
      k.Near p.entry.level p.entry.installedTick looks p.entry.dueMs := by
    rw [hp.level, hp.installedTick, hp.dueMs]
    exact id
  cases hphase with
  | out out anew => exact .out (hp.installed.trans out) anew
  | waiting owned lower near =>
    refine .waiting (hp.installed.trans owned) (by rw [hp.level]; exact lower) (hnear ?_)
    rw [hp.level]
    exact near
  | drained nowMs owned lower near =>
    rw [← hp.level, ← hp.installedTick]
    refine .drained nowMs (hp.installed.trans owned) (by rw [hp.level]; exact lower) (hnear ?_)
    rw [hp.level]
    exact near
  | launched nowMs last owned anew due =>
    exact .launched nowMs last (hp.installed.trans owned) anew (by rw [hp.dueMs]; exact due)

/-- The wheels put the entry where a new due time calls for. -/
theorem place (hv : v.Meshed k) (hnow : p.nowMs = v.nowMs) (haim : p.aim = v.aim)
    (hspan : p.entry.intervalMs ≤ k.config.resolutionMs k.config.levels)
    (htold : Descent k.config.levels (findings p.history))
    (hanew : earlyLevels (findings p.history) = []) (howned : p.entry.installed = true)
    (hcount : p.entry.dueMs ≤ ceiling) (hdue : p.entry.dueMs ≤ v.nowMs + p.entry.intervalMs)
    (flight : Flight) : Descends k ⟨p.place, .free, flight⟩ := by
  have hnear := hv.near hcount (Nat.le_trans hdue (Nat.add_le_add_left hspan _))
  rw [← hnow, ← haim] at hnear
  refine ⟨hspan, htold, ?_⟩
  show Entry.Descends k (earlyLevels (findings p.history)) _ .free
  rw [hanew]
  exact .waiting howned (by simp) hnear

/-- The wheels may take an entry that they do not own. -/
theorem reinstall (hv : v.Meshed k) (hnow : p.nowMs = v.nowMs) (haim : p.aim = v.aim)
    {stage : Stage} {flight : Flight} (h : Descends k ⟨p, stage, flight⟩)
    (i : EntryId) : Descends k ⟨p.reinstall i, stage, flight⟩ := by
  unfold Page.reinstall
  split
  · next htakes =>
    obtain ⟨-, hout⟩ := Bool.and_eq_true_iff.1 htakes
    rw [Bool.not_eq_true'] at hout
    have hphase : p.entry.Descends k (earlyLevels (findings p.history)) stage := h.phase
    cases hphase with
    | out out anew =>
      refine place (p := (p.modify (·.rearm p.nowMs)).log (.entryReinstalled i)) hv hnow haim h.span
        ?_ ?_ rfl (addCapped_le _ _) ?_ flight
      · rw [Page.log, Page.tell, findings_cons_of_none rfl]
        exact h.told
      · rw [Page.log, Page.tell, findings_cons_of_none rfl]
        exact anew
      · rw [← hnow]
        exact le_add_of_addCapped _ _
    | waiting owned lower near => simp [hout] at owned
    | drained nowMs owned lower near => simp [hout] at owned
    | launched nowMs last owned anew due => simp [hout] at owned
  · exact h

/-- The wheels give the entry up, after a look that found something else than that it was not
due. -/
theorem release (hv : v.Meshed k) (hnow : p.nowMs = v.nowMs) (haim : p.aim = v.aim)
    (hspan : p.entry.intervalMs ≤ k.config.resolutionMs k.config.levels)
    (htold : Descent k.config.levels (findings p.history))
    (hanew : earlyLevels (findings p.history) = []) (flight : Flight) (i : EntryId) :
    Descends k ⟨p.release i, .free, flight⟩ := by
  have hout : Descends k ⟨p.modify (·.release), .free, flight⟩ := ⟨hspan, htold, .out rfl hanew⟩
  unfold Page.release
  split
  · exact reinstall (p := p.modify (·.release)) hv hnow haim hout i
  · exact hout

/-- The slot that a tick has drained is the one in which the entry lay, on no coarser level than the
early looks before, and with room for one more. -/
theorem of_drained (h : v.Descends k) {level tick nowMs : Nat}
    (drained : v.stage = .drained level tick nowMs) :
    (level = v.entry.level ∧ tick = v.entry.installedTick) ∧ v.entry.installed = true
      ∧ (∀ early ∈ earlyLevels (findings v.history), v.entry.level ≤ early)
      ∧ k.Near v.entry.level v.entry.installedTick
          ((earlyLevels (findings v.history)).count v.entry.level) v.entry.dueMs := by
  have hphase := h.phase
  rw [drained] at hphase
  cases hphase with
  | drained _ owned lower near => exact ⟨⟨rfl, rfl⟩, owned, lower, near⟩

/-- Found not to be due, the entry is put on a finer level, or on the same one with less than a tick
to go. So the stretch of early looks stays within its bound. -/
theorem handsDown (h : v.Descends k) (hv : v.Meshed k) (hcount : v.entry.dueMs ≤ ceiling)
    {level tick nowMs : Nat} (drained : v.stage = .drained level tick nowMs)
    (early : v.nowMs < v.entry.dueMs) (hsame : v.toPage.Keeps [] p)
    (hfound : findings p.history = ⟨v.entry.level, .wait⟩ :: findings v.history) :
    Descends k { v with toPage := p.place, stage := .free } := by
  obtain ⟨⟨rfl, rfl⟩, howned, lower, near⟩ := h.of_drained drained
  -- where the entry is put next: on no coarser level, and nearer if on the same
  obtain ⟨hreading, hfiner, hagain⟩ := hv.again drained near hcount early
  -- the time left is within the coarsest level, since this one spanned it
  have hnear := hv.near hcount <| by
    have hspanned := near.spanned
    have hlongest :
        k.config.resolutionMs (v.entry.level + 1) ≤ k.config.resolutionMs k.config.levels :=
      k.resolutionMs_mono near.level_lt
    omega
  rw [← hsame.dueMs, ← hsame.nowMs, ← hsame.aim] at hfiner hagain hnear
  have hplace : p.place.entry = p.entry.putAt (p.aim (p.entry.dueMs - p.nowMs)).1
      (p.aim (p.entry.dueMs - p.nowMs)).2 := rfl
  generalize p.aim (p.entry.dueMs - p.nowMs) = seat at *
  have hearly : earlyLevels (findings p.history)
      = v.entry.level :: earlyLevels (findings v.history) := by
    rw [hfound]
    exact earlyLevels_of_wait rfl _
  refine ⟨Nat.le_trans (Nat.le_of_eq hsame.intervalMs) h.span, ?_, ?_⟩
  · -- `Near` leaves room for this look among those that the level may take
    show Descent _ (findings p.history)
    rw [hfound]
    exact h.told.cons (fun _ => near.looks_lt (by omega)) lower near.level_lt
  · show Entry.Descends k (earlyLevels (findings p.history)) p.place.entry .free
    rw [hearly, hplace]
    refine .waiting (hsame.installed.trans howned)
      (List.forall_mem_cons.2 ⟨hfiner, fun level hlevel => ?_⟩) ?_
    · exact Nat.le_trans hfiner (lower level hlevel)
    · show k.Near seat.1 seat.2 (List.count seat.1 _) p.entry.dueMs
      rcases Nat.eq_or_lt_of_le hfiner with hlevel | hlt
      · rw [hlevel, List.count_cons_self]
        exact hagain hlevel
      · -- the entry has not been on the finer level before
        rw [List.count_eq_zero.2 fun hmem => ?_]
        · exact hnear
        · rcases List.mem_cons.1 hmem with heq | hmem
          · omega
          · have hle := lower _ hmem
            omega

/-- A look that launches nothing keeps the invariant. Found early, the entry is handed down. Any
other finding ends the stretch of early looks, and the entry is placed anew or given up. -/
theorem rests (h : v.Descends k) (hv : v.Meshed k) (hcount : v.entry.dueMs ≤ ceiling)
    {level tick nowMs : Nat} (drained : v.stage = .drained level tick nowMs)
    (idle : ∀ last, (v.entry.evaluate nowMs).1 ≠ .run last) :
    Descends k { v with
      toPage := (v.toPage.look i level tick nowMs).rest i nowMs (v.entry.evaluate nowMs).1
      stage := .free } := by
  have hnow := hv.drained drained
  obtain ⟨⟨rfl, rfl⟩, owned, lower, near⟩ := h.of_drained drained
  have hsame := v.toPage.keeps_look i v.entry.level v.entry.installedTick idle
  have hfound : findings (v.toPage.look i v.entry.level v.entry.installedTick nowMs).history
      = ⟨v.entry.level, (v.entry.evaluate nowMs).1⟩ :: findings v.history := rfl
  have hlook := v.entry.evaluated nowMs
  generalize v.toPage.look i v.entry.level v.entry.installedTick nowMs = p at hsame hfound
  generalize v.entry.evaluate nowMs = look at hlook hfound idle
  have hspan : p.entry.intervalMs ≤ k.config.resolutionMs k.config.levels := by
    rw [hsame.intervalMs]
    exact h.span
  have howned : p.entry.installed = true := hsame.installed.trans owned
  -- a look that finds something else begins anew
  have hanew : look.1 ≠ .wait → Descent k.config.levels (findings p.history)
      ∧ earlyLevels (findings p.history) = [] := by
    intro hother
    rw [hfound]
    exact ⟨h.told.cons (fun hwait => absurd hwait hother) lower near.level_lt,
      earlyLevels_of_other hother _⟩
  have hdrops : look.1 ≠ .wait → Descends k { v with toPage := p.release i, stage := .free } := by
    intro hother
    obtain ⟨htold, hnone⟩ := hanew hother
    exact release hv hsame.nowMs hsame.aim hspan htold hnone v.flight i
  have hskips : look.1 ≠ .wait → v.entry.dueMs ≤ nowMs →
      Descends k { v with toPage := (p.modify (·.advanceDue nowMs)).place, stage := .free } := by
    intro hother due
    obtain ⟨htold, hnone⟩ := hanew hother
    refine place (p := p.modify (·.advanceDue nowMs)) hv hsame.nowMs hsame.aim hspan htold hnone
      howned (Entry.advanceDue_le _ _) ?_ v.flight
    rw [← hnow]
    exact Entry.advanceDue_le_add (by rw [hsame.dueMs]; exact due)
  cases hlook with
  | ended closed => exact hdrops (by simp)
  | early alive wait =>
    rw [hnow] at wait
    exact h.handsDown hv hcount drained wait hsame hfound
  | suspended stopped due => exact hskips (by simp) due
  | busy alive due active singleton inFlight => exact hskips (by simp) due
  | spent alive due active none => exact hdrops (by simp)
  | launched alive due active free rest left => exact absurd rfl (idle _)

/-- **Whatever happens to an entry while its timer is there**, the looks at it are as few as they
should be. -/
theorem step {law : Law} (h : v.Descends k) (hv : v.Meshed k) (hcount : v.entry.dueMs ≤ ceiling)
    (hstepped : v.EntryStep law i v') : v'.Descends k := by
  have htell : ∀ {e : Event}, e.finding? = none → e.launchMs? = none →
      Descends k { v with toPage := v.toPage.tell e } := by
    intro e hlook hlaunch
    exact h.keeps ((Page.Keeps.refl v.toPage).tell hlaunch) (findings_cons_of_none hlook _) v.flight
  cases hstepped with
  | passes there nowMs aim gone => exact ⟨h.span, h.told, h.phase⟩
  | byHand => exact htell rfl rfl
  | begins job label clockUs => exact htell rfl rfl
  | concludes outcome =>
    exact h.keeps (v.toPage.keeps_conclude i outcome) (v.toPage.findings_conclude i outcome)
      v.flight
  | controls c plain =>
    obtain ⟨p, hsame, hfound, hp | hp⟩ := v.toPage.control_cases i c
    -- the wheels may take the entry after a control, as if it were new to them
    · rw [hp]
      exact h.keeps hsame hfound v.flight
    · rw [hp]
      exact reinstall hv hsame.nowMs hsame.aim (h.keeps hsame hfound v.flight) i
  | completes executing =>
    exact h.keeps (v.toPage.keeps_complete i) (v.toPage.findings_complete i) _
  | takesUp allowed held idle => exact ⟨h.span, h.told, h.phase⟩
  | drains aim free owned =>
    refine ⟨h.span, h.told, ?_⟩
    have hphase := h.phase
    rw [free] at hphase
    cases hphase with
    | out out anew => simp [out] at owned
    | waiting owned lower near => exact .drained v.nowMs owned lower near
  | rests level tick nowMs drained idle => exact h.rests hv hcount drained idle
  | launches level tick nowMs last holding drained idle runs =>
    have hsame := v.toPage.keeps_look_run i level tick runs
    obtain ⟨⟨rfl, rfl⟩, owned, lower, near⟩ := h.of_drained drained
    -- a verdict to run ends the waits: none is counted behind it
    have hother : (v.entry.evaluate nowMs).1 ≠ .wait := by
      rw [runs]
      simp
    obtain ⟨hdue, -⟩ := Entry.launch_of_run runs
    refine ⟨by rw [hsame.intervalMs]; exact h.span, ?_,
      .launched nowMs last (hsame.installed.trans owned) (earlyLevels_of_other hother _)
        (by rw [hsame.dueMs]; exact hdue)⟩
    exact h.told.cons (fun hwait => absurd hwait hother) lower near.level_lt
  | putsBack nowMs last launched idle =>
    have hnow := hv.launched launched
    have hphase := h.phase
    rw [launched] at hphase
    cases hphase with
    | launched _ _ owned anew due =>
      unfold Page.putBack
      cases last with
      | true => exact release hv rfl rfl h.span h.told anew v.flight i
      -- the next due time lies within an interval, and hence within the span of the levels
      | false =>
        refine place (p := v.toPage.modify (·.advanceDue nowMs)) hv rfl rfl h.span h.told anew owned
          (Entry.advanceDue_le _ _) ?_ v.flight
        rw [← hnow]
        exact Entry.advanceDue_le_add due

end Descends

/-- A new entry is placed so that the looks at it will be few. -/
theorem Born.descends (h : v.Born i) (hv : v.Meshed k)
    (hspan : v.entry.intervalMs ≤ k.config.resolutionMs k.config.levels) : v.Descends k := by
  obtain ⟨r, task, owner, nowMs, aim, rfl⟩ := h
  refine ⟨hspan, ?_, ?_⟩
  · show Descent _ (findings [_])
    rw [findings_cons_of_none rfl]
    exact .nil
  · show Entry.Descends k (earlyLevels (findings [_])) _ .free
    rw [findings_cons_of_none rfl]
    have hinterval :
        (Page.registered i r task owner nowMs aim).entry.intervalMs = r.intervalMs := by
      unfold Page.registered
      simp only
      split <;> rfl
    have hnear := hv.near (addCapped_le nowMs r.intervalMs)
      (Nat.le_trans (le_add_of_addCapped _ _) (Nat.add_le_add_left (hinterval ▸ hspan) _))
    unfold Page.registered
    simp only
    split
    · exact .out rfl rfl
    · exact .waiting rfl (by simp [earlyLevels, findings]) hnear

/-! ### When the timer is over -/

/-- What is left of the invariant when the timer is over: the counts stand, and the entry keeps
the place it had. -/
theorem Descends.rested (h : v.Descends k) (hfree : v.stage = .free) :
    v.Rested k.config.levels := by
  have hphase := h.phase
  rw [hfree] at hphase
  refine ⟨h.told, hfree, fun hout => ?_, ?_⟩
  · cases hphase with
    | out out anew => exact anew
    | waiting owned lower near => simp [hout] at owned
  · cases hphase with
    | out out anew => simp [anew]
    | waiting owned lower near => exact lower

/-- Nobody has looked at a new entry yet. -/
theorem Born.rested (h : v.Born i) (levels : Nat) : v.Rested levels := by
  obtain ⟨r, task, owner, nowMs, aim, rfl⟩ := h
  have hfound : findings (Page.registered i r task owner nowMs aim).history = [] :=
    findings_cons_of_none rfl _
  refine ⟨?_, rfl, fun _ => ?_, ?_⟩ <;> simp only [hfound]
  · exact .nil
  · rfl
  · simp [earlyLevels]

namespace Rested

variable {levels : Nat}

/-- What has nothing to do with the timing changes neither the looks nor the place. -/
theorem keeps (h : v.Rested levels) (hp : v.toPage.Keeps [] p)
    (hfound : findings p.history = findings v.history) (flight : Flight) :
    Rested levels { v with toPage := p, flight := flight } := by
  refine ⟨?_, h.free, ?_, ?_⟩ <;> simp only [hfound]
  · exact h.told
  · rw [hp.installed]
    exact h.anew
  · rw [hp.level]
    exact h.lower

/-- An entry that comes back to a slot starts a new stretch: the wheels did not own it, so its
last look was not an early one. -/
theorem reinstall (h : v.Rested levels) (i : EntryId) :
    Rested levels { v with toPage := v.toPage.reinstall i } := by
  by_cases hout : v.entry.installed = true
  · have hsame : v.toPage.reinstall i = v.toPage := by
      unfold Page.reinstall
      simp [hout]
    rw [hsame]
    exact h
  · have hanew := h.anew (by simpa using hout)
    refine ⟨?_, h.free, fun _ => ?_, ?_⟩ <;> simp only [Page.findings_reinstall, hanew]
    · exact h.told
    · simp

/-- As long as no tick has to do with an entry, no look is taken at it. -/
theorem step {law : Law} (h : v.Rested levels) (hstepped : v.EntryStep law i v')
    (hfree : v'.stage = .free) :
    v'.Rested levels := by
  have htell : ∀ {e : Event}, e.finding? = none → e.launchMs? = none →
      Rested levels { v with toPage := v.toPage.tell e } := by
    intro e hlook hlaunch
    exact h.keeps ((Page.Keeps.refl v.toPage).tell hlaunch) (findings_cons_of_none hlook _) v.flight
  cases hstepped with
  | passes there nowMs aim gone => exact ⟨h.told, h.free, h.anew, h.lower⟩
  | byHand => exact htell rfl rfl
  | begins job label clockUs => exact htell rfl rfl
  | concludes outcome =>
    exact h.keeps (v.toPage.keeps_conclude i outcome) (v.toPage.findings_conclude i outcome)
      v.flight
  | controls c plain =>
    obtain ⟨p, hsame, hfound, hp | hp⟩ := v.toPage.control_cases i c
    · rw [hp]
      exact h.keeps hsame hfound v.flight
    · rw [hp]
      exact (h.keeps hsame hfound v.flight).reinstall i
  | completes executing =>
    exact h.keeps (v.toPage.keeps_complete i) (v.toPage.findings_complete i) _
  | takesUp allowed held idle => exact ⟨h.told, h.free, h.anew, h.lower⟩
  | drains aim free owned => simp at hfree
  | rests level tick nowMs drained idle => exact absurd (drained.symm.trans h.free) nofun
  | launches level tick nowMs last holding drained idle runs => simp at hfree
  | putsBack nowMs last launched idle => exact absurd (launched.symm.trans h.free) nofun

end Rested

end View

/-! ## Moments -/

section

variable {law : Law} {k : Clockwork} {m m' : Moment} {i : EntryId} {v v' : View}

/-- An entry that a tick has drained and not looked at is one of the looks ahead. -/
theorem Moment.mem_ahead_of_drained {level tick nowMs : Nat}
    (h : m.stage i = .drained level tick nowMs) : ∃ look ∈ m.ahead, look.1 = i := by
  unfold Moment.stage at h
  unfold Moment.ahead
  cases hs : m.sweep with
  | none => simp [hs] at h
  | some s =>
    rw [hs, Option.map_some, Option.getD_some] at h
    have hwaiting : i ∈ s.waiting := by
      unfold Sweep.stage at h
      split at h
      · split at h
        · simp at h
        · split at h
          · assumption
          · simp at h
      · split at h
        · assumption
        · simp at h
    exact ⟨_, List.mem_map.2 ⟨i, hwaiting, rfl⟩, rfl⟩

/-- What a tick still has to look at is in its hand. -/
theorem Moment.mem_hand_of_ahead {look : EntryId × Nat × Nat × Nat} (h : look ∈ m.ahead) :
    look.1 ∈ m.hand := by
  unfold Moment.ahead at h
  unfold Moment.hand
  cases hs : m.sweep with
  | none => simp [hs] at h
  | some s =>
    rw [hs, Option.map_some, Option.getD_some] at h
    obtain ⟨j, hj, rfl⟩ := List.mem_map.1 h
    exact List.mem_append_right _ hj

/-- No tick comes to have to do with an entry whose timer is over. -/
theorem Move.stays_free (h : Move law m m') (hcustody : m.world.Custody m.hand)
    (hover : m.world.Over v.entry.owner) (hv : m.view i = some v) (hv' : m'.view i = some v')
    (hstepped : v.EntryStep law i v') (hfree : v.stage = .free) : v'.stage = .free := by
  obtain ⟨hpage, hstage, -⟩ := Moment.view_eq_some.1 hv
  have hentry := (World.page_eq_some.1 hpage).1
  obtain ⟨-, hstage', -⟩ := Moment.view_eq_some.1 hv'
  have hnot : ∀ {level tick nowMs : Nat}, v'.stage ≠ .drained level tick nowMs := by
    intro level tick nowMs hdrained
    obtain ⟨look, hlook, rfl⟩ := Moment.mem_ahead_of_drained (hstage'.symm.trans hdrained)
    rcases h.looks hcustody with ⟨looks, -, hleft⟩ | ⟨t, -, ht, hrunning, howned⟩
    · have hahead := hleft.subset (List.mem_append_right looks hlook)
      exact Moment.notMem_of_free (hstage.symm.trans hfree) (Moment.mem_hand_of_ahead hahead)
    · -- the slot that was drained is one of another timer
      obtain ⟨e, he, howner⟩ := howned look hlook
      obtain rfl : v.entry = e := Option.some.inj (hentry.symm.trans he)
      rw [hover.closed ht howner.symm] at hrunning
      simp at hrunning
  cases hstepped with
  | drains aim free owned => exact absurd rfl hnot
  | rests level tick nowMs drained idle => rfl
  | launches level tick nowMs last holding drained idle runs =>
    exact absurd (drained.symm.trans hfree) nofun
  | putsBack nowMs last launched idle => rfl
  | _ => exact hfree

theorem View.TimingStep.intervalMs (h : v.TimingStep i v') :
    v'.entry.intervalMs = v.entry.intervalMs := by
  have htake : ∀ p : Page, (p.reinstall i).entry.intervalMs = p.entry.intervalMs := by
    intro p
    unfold Page.reinstall
    split <;> rfl
  cases h with
  | passes there nowMs aim gone => rfl
  | keeps flight same => exact same.intervalMs
  | takes same => exact (htake _).trans same.intervalMs
  | drains aim free owned => rfl
  | waits level tick nowMs drained early same => exact same.intervalMs
  | skips level tick nowMs drained due same => exact same.intervalMs
  | launches level tick nowMs last flight drained due same => exact same.intervalMs
  | advances nowMs last launched => rfl
  | leaves busy same => exact same.intervalMs
  | returns busy same => exact (htake _).trans same.intervalMs

/-- The looks at entries of a timer were as few as they should be, while the timer is there and
after it is over. -/
inductive Moment.Cascades (k : Clockwork) (m : Moment) : Prop where
  | geared (geared : m.Geared k) (descends : ∀ {i : EntryId} {v : View}, m.view i = some v →
      v.entry.owner = k.id → v.entry.intervalMs ≤ k.config.resolutionMs k.config.levels →
        v.Descends k)
  | ended (ended : m.world.Over k.id) (rested : ∀ {i : EntryId} {v : View}, m.view i = some v →
      v.entry.owner = k.id → v.entry.intervalMs ≤ k.config.resolutionMs k.config.levels →
      v.Rested k.config.levels)

/-- In either phase of the timer the looks at its entries are few, and their places no coarser
than the looks of the latest stretch. -/
theorem Moment.Cascades.descent (h : m.Cascades k) (hv : m.view i = some v)
    (howner : v.entry.owner = k.id)
    (hspan : v.entry.intervalMs ≤ k.config.resolutionMs k.config.levels) :
    Descent k.config.levels (findings v.history)
      ∧ ∀ level ∈ earlyLevels (findings v.history), v.entry.level ≤ level := by
  cases h with
  | geared _ descends =>
    have hdescends := descends hv howner hspan
    refine ⟨hdescends.told, ?_⟩
    have hphase := hdescends.phase
    generalize v.stage = stage at hphase
    cases hphase with
    | out out anew => simp [anew]
    | waiting owned lower near => exact lower
    | drained nowMs owned lower near => exact lower
    | launched nowMs last owned anew due => simp [anew]
  | ended _ rested => exact ⟨(rested hv howner hspan).told, (rested hv howner hspan).lower⟩

/-- Before a move an entry was there with its timer and its interval, or it is new. -/
theorem Move.view_before (h : Move law m m') (harises : m.Arises) (hv' : m'.view i = some v') :
    v'.Born i ∨ ∃ v, m.view i = some v ∧ v.Life i ∧ v.EntryStep law i v'
      ∧ v.entry.owner = v'.entry.owner ∧ v.entry.intervalMs = v'.entry.intervalMs := by
  have hlives := h.lives harises.custody i
  rcases harises.lives i with hblank | ⟨v, hv, hlife⟩
  · rcases hlives.comes hblank with hblank' | ⟨v₁, hv₁, hborn⟩
    · exact absurd hblank'
        (Moment.not_blank (World.page_eq_some.1 (Moment.view_eq_some.1 hv').1).1)
    · obtain rfl : v₁ = v' := Option.some.inj (hv₁.symm.trans hv')
      exact Or.inl hborn
  · obtain ⟨v₁, hv₁, hstepped⟩ := hlives.step hv
    obtain rfl : v₁ = v' := Option.some.inj (hv₁.symm.trans hv')
    exact Or.inr ⟨v, hv, hlife, hstepped, hstepped.timingStep.owner.symm,
      hstepped.timingStep.intervalMs.symm⟩

/-- One move keeps the invariant of all entries. The move that ends the timer turns `Descends`
into `Rested`, and both are carried by the steps of the single entries. -/
theorem Move.cascades (h : Move .unstopped m m') (harises : m.Arises) (hm : m.Cascades k) :
    m'.Cascades k := by
  cases hm with
  | geared hgeared descends =>
    have hafter : ∀ {i : EntryId} {v' : View}, m'.view i = some v' → v'.entry.owner = k.id →
        v'.entry.intervalMs ≤ k.config.resolutionMs k.config.levels →
        v'.Born i ∨ v'.Descends k := by
      intro i v' hv' howner hspan
      -- an entry that was there descends by what happens to it; one that is new is looked at
      -- below
      rcases h.view_before harises hv' with hborn | ⟨v, hv, hlife, hstepped, hsame, hms⟩
      · exact Or.inl hborn
      · rw [← hsame] at howner
        rw [← hms] at hspan
        exact Or.inr ((descends hv howner hspan).step (hgeared.meshed hv howner) hlife.dueMs_le
          hstepped)
    -- the timer stays in gear, or it is over and no entry of it is in hand any more
    rcases h.geared harises.custody hgeared with hgeared' | ⟨hsweep, hover⟩
    · refine .geared hgeared' fun hv' howner hspan => ?_
      rcases hafter hv' howner hspan with hborn | hdescends
      · exact hborn.descends (hgeared'.meshed hv' howner) hspan
      · exact hdescends
    · refine .ended hover fun {i v'} hv' howner hspan => ?_
      rcases hafter hv' howner hspan with hborn | hdescends
      · exact hborn.rested _
      · obtain ⟨-, hstage, -⟩ := Moment.view_eq_some.1 hv'
        refine hdescends.rested (hstage.trans ?_)
        simp [Moment.stage, hsweep]
  | ended hover rested =>
    -- over is over: entries of the timer can only rest
    refine .ended (hover.rests (h.rests hover)) fun {i v'} hv' howner hspan => ?_
    rcases h.view_before harises hv' with hborn | ⟨v, hv, -, hstepped, hsame, hms⟩
    · exact hborn.rested _
    · rw [← hsame] at howner
      rw [← hms] at hspan
      have hrested := rested hv howner hspan
      rw [← howner] at hover
      exact hrested.step hstepped (h.stays_free harises.custody hover hv hv' hstepped hrested.free)

/-- A run keeps the invariant. Induction on its moves. -/
theorem Moves.cascades (h : Moves .unstopped m m') (harises : m.Arises) (hm : m.Cascades k) :
    m'.Cascades k := by
  induction h with
  | refl => exact hm
  | tail hmoves hmove ih => exact hmove.cascades (harises.trans (Moves.free hmoves)) ih

end

/-- **Cascading is short and only goes down.** A timer of any accepted shape starts and is never
stopped, and time passes from one due tick to the next one. Apart from that anything may happen, in
any order, and the timer may be closed or replaced. Then for every entry of this timer whose
interval is no longer than a rotation of the coarsest level, at any moment: of the looks at the
entry that follow one another and find it not to be due there are fewer than two for each level, one
at most of them on the finest level and two at most on every other. The look after one of them is on
a level that is no coarser, and so is the place to which the last of them has put the entry. -/
theorem cascading_short {w₀ : World} {c : TimerConfig} (hc : c.validate = .ok ())
    (h₀ : Moment.Arises ⟨w₀, none, none⟩) {m : Moment}
    (h : Moves .unstopped ⟨w₀.startTimer c, none, none⟩ m) {i : EntryId} {e : Entry}
    (he : m.world.entries[i]? = some e) (howner : e.owner = w₀.timers)
    (hspan : e.intervalMs ≤ c.intervalMs * Nat.pow c.slots c.levels) :
    (∀ block, block <:+: findings (m.world.history i) → (∀ f ∈ block, f.verdict = .wait) →
        block.length ≤ 2 * c.levels - 1
        ∧ ∀ level, (block.map (·.level)).count level ≤ if level = 0 then 1 else 2)
    ∧ (findings (m.world.history i)).IsChain
        (fun next f => f.verdict = .wait → next.level ≤ f.level)
    ∧ ∀ f rest, findings (m.world.history i) = f :: rest → f.verdict = .wait →
        e.level ≤ f.level := by
  let k : Clockwork := ⟨c, hc, w₀.timers, w₀.clockUs⟩
  have hstart : Moment.Arises ⟨w₀.startTimer c, none, none⟩ := h₀.tail (.create w₀ c trivial hc)
  have hbegins : Moment.Cascades k ⟨w₀.startTimer c, none, none⟩ := by
    refine .geared (.of_inStep (w₀.startTimer_inStep hc).1) fun hv hown => ?_
    -- the entries there were are those of other timers
    obtain ⟨hentry, -⟩ := World.page_eq_some.1 (Moment.view_eq_some.1 hv).1
    obtain ⟨journal, -, heq⟩ := w₀.startTimer_eq c
    rw [heq] at hentry
    exact absurd hown (Nat.ne_of_lt (h₀.custody.owners hentry))
  obtain ⟨v, hv, hpage, rfl, -⟩ := Moment.exists_view he
  have hhistory := (World.page_eq_some.1 hpage).2.1
  have hlongest : k.config.resolutionMs k.config.levels = c.intervalMs * Nat.pow c.slots c.levels :=
    k.config.resolutionMs_eq _
  obtain ⟨hdescent, hlower⟩ :=
    (Moves.cascades h hstart hbegins).descent hv howner (by rw [hlongest]; exact hspan)
  rw [hhistory] at hdescent hlower
  refine ⟨fun block hblock hwait => ⟨?_, hdescent.short hblock hwait⟩, hdescent.lower,
    fun f rest hfound hwait => ?_⟩
  · have hlength : (block.map (·.level)).length = block.length := List.length_map _
    rw [← hlength]
    refine length_le_of_waitsOn _ (fun level hlevel => ?_) (hdescent.short hblock hwait)
    obtain ⟨f, hf, rfl⟩ := List.mem_map.1 hlevel
    exact hdescent.within f (hblock.subset hf)
  · rw [hfound, earlyLevels_of_wait hwait] at hlower
    exact hlower _ List.mem_cons_self

/-- Three levels of two slots that are served coarsest first, and a job every 79 ms that is
scheduled when 25 ms have passed. Then 90 ms pass, and the timer is closed. -/
def fiveWaits : List Command :=
  [.act (.coarseFirst true), .advance 25000, .act (.schedule "a" (.repeating 79) none [] []),
    .advance 90000, .act (.timer .close), .advance 90000]

/-- The world after `fiveWaits`. -/
def afterFiveWaits : World :=
  (({} : World).startTimer { slots := 2, levels := 3, intervalMs := 10 }).after fiveWaits

/-- The job is found not to be due twice on each of the coarser levels and once on the finest one,
and no entry can be found so more often. -/
theorem cascading_short_of_five_waits :
    findings (afterFiveWaits.history 0) = ⟨0, .run false⟩ :: [0, 1, 1, 2, 2].map (⟨·, .wait⟩)
    ∧ ([0, 1, 1, 2, 2].map fun level => (⟨level, .wait⟩ : Finding)).length ≤ 2 * 3 - 1
    ∧ (findings (afterFiveWaits.history 0)).IsChain
      (fun next f => f.verdict = .wait → next.level ≤ f.level) := by
  have hc : ({ slots := 2, levels := 3, intervalMs := 10 } : TimerConfig).validate = .ok () := by
    decide +kernel
  have hstart : Moment.Arises
      ⟨({} : World).startTimer { slots := 2, levels := 3, intervalMs := 10 }, none, none⟩ :=
    (Moment.Arises.start 3).tail (.create {} _ trivial hc)
  have hallowed : ∀ command ∈ fiveWaits, command.Allowed .unstopped := by
    refine List.forall_mem_cons.2 ⟨trivial, List.forall_mem_cons.2 ⟨trivial,
      List.forall_mem_cons.2 ⟨⟨trivial, trivial⟩, List.forall_mem_cons.2 ⟨trivial,
        List.forall_mem_cons.2 ⟨?_, List.forall_mem_cons.2 ⟨trivial, by simp⟩⟩⟩⟩⟩⟩
    show TimerControl.close ≠ .stop
    decide
  have hmoves : Moves .unstopped
      ⟨({} : World).startTimer { slots := 2, levels := 3, intervalMs := 10 }, none, none⟩
      ⟨afterFiveWaits, none, none⟩ :=
    World.after_unstopped hstart (World.startTimer_allBodies (fun j hj => by simp at hj) _)
      (Or.inr ⟨_, .of_inStep (World.startTimer_inStep {} hc).1⟩) hallowed
  obtain ⟨e, he, hmark⟩ : ∃ e, afterFiveWaits.entries[0]? = some e
      ∧ (e.owner, e.intervalMs) = (0, 79) := Option.map_eq_some_iff.1 (by decide +kernel)
  simp only [Prod.mk.injEq] at hmark
  obtain ⟨howner, hinterval⟩ := hmark
  obtain ⟨hshort, hlower, -⟩ :=
    cascading_short hc (.start 3) hmoves he howner (by rw [hinterval]; decide)
  have hfound : findings (afterFiveWaits.history 0)
      = ⟨0, .run false⟩ :: [0, 1, 1, 2, 2].map (⟨·, .wait⟩) := by decide +kernel
  refine ⟨hfound, (hshort _ ?_ (by decide)).1, hlower⟩
  rw [hfound]
  exact (List.suffix_cons _ _).isInfix

end TimingWheel
