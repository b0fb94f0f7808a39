import TimingWheel.Proofs.Custody

/-!
# Ownership of slots

What custody says about the contents of slots and about the report of pending entries, between
commands and in the middle of a tick (`slot_ownership`).
-/

namespace TimingWheel

/-- Counting the elements of an array that have a property by listing their numbers. -/
theorem length_eq_countP {α : Type} {as : Array α} {p : α → Bool} {l : List Nat} (hl : l.Nodup)
    (hmem : ∀ i, i ∈ l ↔ ∃ a, as[i]? = some a ∧ p a = true) : l.length = as.countP p := by
  have hcount : ∀ xs : List α,
      (List.range xs.length).countP (fun i => xs[i]?.any p) = xs.countP p := by
    intro xs
    induction xs with
    | nil => rfl
    | cons x xs ih =>
      rw [List.length_cons, List.range_succ_eq_map, List.countP_cons, List.countP_map,
        List.countP_cons, ← ih]
      rfl
  have hperm : l.Perm ((List.range as.toList.length).filter fun i => as.toList[i]?.any p) := by
    refine (List.perm_ext_iff_of_nodup hl (List.nodup_range.filter _)).2 fun i => ?_
    rw [hmem, List.mem_filter, List.mem_range, Array.getElem?_toList]
    constructor
    · rintro ⟨a, ha, hp⟩
      exact ⟨(Array.getElem?_eq_some_iff.1 ha).1, by rw [ha]; exact hp⟩
    · rintro ⟨-, hany⟩
      cases ha : as[i]? with
      | none => simp [ha] at hany
      | some a => exact ⟨a, rfl, by simpa [ha] using hany⟩
  rw [hperm.length_eq, ← List.countP_eq_length_filter, hcount, Array.countP_toList]

/-- The slots of a timer, together with what a tick has drained and not dealt with, hold exactly the
marked entries of the timer, each of them once and in the place that is recorded for it. -/
structure Timer.HoldsOnce (t : Timer) (entries : Array Entry) (hand : List EntryId) : Prop where
  once : (t.contents ++ hand).Nodup
  marked : ∀ {i : EntryId} {e : Entry}, entries[i]? = some e → e.owner = t.id →
    (i ∈ t.contents ++ hand ↔ e.installed = true)
  owned : ∀ {i : EntryId}, i ∈ t.contents ++ hand →
    ∃ e, entries[i]? = some e ∧ e.owner = t.id
  berth : ∀ {level k : Nat} {i : EntryId} {e : Entry}, t.SlotHas level k i →
    entries[i]? = some e → ∃ wheel, t.wheels[level]? = some wheel ∧ e.level = level ∧
      k = e.installedTick % wheel.slotCount
  pending : t.stats.pending + hand.length
    = entries.countP fun e => e.owner == t.id && e.installed

/-- What custody says of a timer, in terms of its slots. -/
theorem Timer.Keeps.holdsOnce {t : Timer} {entries : Array Entry} {hand : List EntryId}
    (h : t.Keeps entries hand) : t.HoldsOnce entries hand := by
  refine ⟨h.once, ?_, ?_, ?_, ?_⟩
  · intro i e he howner
    rw [h.owned i]
    constructor
    · rintro ⟨e', he', -, hinstalled⟩
      rw [he] at he'
      rwa [Option.some.inj he']
    · exact fun hinstalled => ⟨e, he, howner, hinstalled⟩
  · intro i hi
    obtain ⟨e, he, howner, -⟩ := (h.owned i).1 hi
    exact ⟨e, he, howner⟩
  · rintro level k i e ⟨wheel, slot, hwheel, hslot, hi⟩ he
    have hberth := h.berth ⟨wheel, slot, hwheel, hslot, hi⟩ he hwheel
    exact ⟨wheel, hwheel, hberth.level_eq, hberth.slot.symm⟩
  · rw [t.pending_stats, ← List.length_append]
    refine length_eq_countP h.once fun i => ?_
    rw [h.owned i]
    simp only [Bool.and_eq_true, beq_iff_eq]

/-- **Every entry is in at most one slot.** Between commands the slots of the timer hold exactly
the entries that are marked as its own, so that is what it reports as pending. In the middle of a
tick what the tick has drained and not dealt with counts, too. -/
theorem slot_ownership :
    (∀ {w : World} {t : Timer}, w.Reachable → w.timer = some t → t.HoldsOnce w.entries [])
    ∧ ∀ {m : Moment} {t : Timer}, m.Arises → m.world.timer = some t →
        t.HoldsOnce m.world.entries m.hand :=
  ⟨fun h ht => (h.arises.custody.keeps ht).holdsOnce,
    fun h ht => (h.custody.keeps ht).holdsOnce⟩

/-- A timer of one wheel with one job, at the clock at which its first tick falls due. -/
def oneJobDue : World := World.after {}
  [.create { slots := 4, levels := 1, intervalMs := 10 },
    .act (.schedule "a" (.repeating 10) none [] []), .act (.jump 10000)]

theorem oneJobDue_reachable : oneJobDue.Reachable := .after (.fresh 3) _

/-- The job is in a slot before its tick and in hand once that tick drained the slot. -/
theorem slot_ownership_of_one_job :
    (∃ t, oneJobDue.timer = some t ∧ t.contents = [0] ∧ t.HoldsOnce oneJobDue.entries [])
    ∧ ∃ (m : Moment) (t : Timer), m.Arises ∧ m.world.timer = some t ∧ t.contents = [] ∧ m.hand = [0]
        ∧ t.HoldsOnce m.world.entries m.hand := by
  obtain ⟨t, ht⟩ : ∃ t, oneJobDue.timer = some t := Option.isSome_iff_exists.1 (by decide +kernel)
  have hthere : oneJobDue.timer.map (·.contents) = some [0] := by decide +kernel
  have hrunning : oneJobDue.timer.map (·.status) = some .running := by decide +kernel
  have hwheels : (oneJobDue.timer.bind (·.wheels[0]?)).isSome := by decide +kernel
  have hbatch : (oneJobDue.timer.bind (·.wheels[0]?)).map (·.nextBatch.toList) = some [0] := by
    decide +kernel
  have hdrained : (oneJobDue.timer.bind (·.wheels[0]?)).map
      (fun wheel => (oneJobDue.drained 0 wheel).timer.map (·.contents)) = some (some []) := by
    decide +kernel
  rw [ht] at hthere hrunning hwheels hbatch hdrained
  obtain ⟨wheel, hwheel⟩ := Option.isSome_iff_exists.1 hwheels
  replace hwheel : t.wheels[0]? = some wheel := hwheel
  simp only [Option.bind_some, Option.map_some, hwheel, Option.some.injEq] at hbatch hdrained
  obtain ⟨t', ht', hempty⟩ := Option.map_eq_some_iff.1 hdrained
  have hdrain : Move .free ⟨oneJobDue, none, none⟩ _ :=
    .drain oneJobDue 0 t wheel trivial ht (Option.some.inj hrunning) hwheel (by decide +kernel)
  have harises := oneJobDue_reachable.arises.tail hdrain
  refine ⟨⟨t, ht, Option.some.inj hthere, slot_ownership.1 oneJobDue_reachable ht⟩, _, t', harises,
    ht', hempty, ?_, slot_ownership.2 harises ht'⟩
  exact hbatch

end TimingWheel
