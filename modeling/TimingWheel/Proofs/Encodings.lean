import TimingWheel.Proofs.Layouts
import TimingWheel.Proofs.Overriding

/-!
# Encodings are read back

Settings and statistics are written as JSON and read from it. What was written is read as it was,
in any layout, as long as its counts are counts. Fields of settings may be deleted from what was
written, and have their defaults then.

* **`Json.fields?_ofMembers`** — the fields of an object are found by their names.
* **`TimerConfig.ofJson?_without`**, **`LevelStats.ofJson?_toJson`**,
  **`TimerStats.ofJson?_toJson`** — each record is read from its form.
* **`Json.DecodesAs`** — whatever the layout of a value, a decoder makes the same of it.
-/

namespace TimingWheel

namespace Json

/-! ## Members -/

/-- The value without the members of given names. -/
def without (keys : List String) : Json → Json
  | .object members => .object (members.filter fun m => m.1.all fun key => !keys.contains key)
  | v => v

/-- The value with one member changed. -/
def modify (key : String) (f : Json → Json) : Json → Json
  | .object members =>
    .object (members.map fun m => if m.1 = some key then (m.1, f m.2) else m)
  | v => v

section

variable {members : List (String × Json)}

/-- An object without some members is the object of the other members. -/
theorem without_ofMembers (keys : List String) (members : List (String × Json)) :
    (ofMembers members).without keys
      = ofMembers (members.filter fun m => !keys.contains m.1) := by
  simp only [without, ofMembers, List.filter_map]
  rfl

/-- Deleting members takes away those and no others. -/
theorem lookup_filter (keys : List String) (key : String) (members : List (String × Json)) :
    (members.filter fun m => !keys.contains m.1).lookup key
      = if key ∈ keys then none else members.lookup key := by
  induction members with
  | nil => simp
  | cons m rest ih =>
    obtain ⟨k, v⟩ := m
    by_cases heq : key = k
    · subst heq
      by_cases hdeleted : key ∈ keys
      · rw [List.filter_cons_of_neg (by simpa using hdeleted), ih, if_pos hdeleted, if_pos hdeleted]
      · rw [List.filter_cons_of_pos (by simpa using hdeleted), if_neg hdeleted,
          List.lookup_cons_self, List.lookup_cons_self]
    · have hskip : ∀ ms : List (String × Json), ((k, v) :: ms).lookup key = ms.lookup key := by
        intro ms
        rw [List.lookup_cons, beq_eq_false_iff_ne.2 heq]
      rw [List.filter_cons, hskip, ← ih]
      split
      · rw [hskip]
      · rfl

/-- A name comes up once at most. -/
theorem filter_ofMembers (h : Members.Distinct members) (key : String) :
    (members.map fun (key, v) => (some key, v)).filter (·.1 == some key)
      = ((members.lookup key).map fun v => (some key, v)).toList := by
  induction members with
  | nil => rfl
  | cons m rest ih =>
    obtain ⟨k, v⟩ := m
    obtain ⟨hk, hrest⟩ := List.nodup_cons.1 h
    by_cases heq : key = k
    · subst heq
      have hnone : rest.lookup key = none := List.lookup_eq_none_iff.2 fun m hm => by
        refine bne_iff_ne.2 fun heq => hk ?_
        exact List.mem_map.2 ⟨m, hm, heq.symm⟩
      rw [List.map_cons, List.filter_cons_of_pos (by simp), ih hrest, hnone,
        List.lookup_cons_self]
      rfl
    · rw [List.map_cons, List.filter_cons_of_neg (by simpa using Ne.symm heq), ih hrest,
        List.lookup_cons, beq_eq_false_iff_ne.2 heq]

/-- Where names are distinct, a reader finds the one member of a name, or none. -/
theorem member?_ofMembers (h : Members.Distinct members) (key : String) :
    member? (members.map fun (key, v) => (some key, v)) key = some (members.lookup key) := by
  rw [member?, filter_ofMembers h]
  cases members.lookup key <;> rfl

/-- **The fields of an object are found by their names.** -/
theorem fields?_ofMembers (h : Members.Distinct members) (keys : List String) :
    (ofMembers members).fields? keys = some (keys.map (members.lookup ·)) := by
  have hnamed : (members.map fun (key, v) => (some key, v)).any (·.1.isNone) = false := by
    simp
  have hmembers : member? (members.map fun (key, v) => (some key, v))
      = fun key => pure (members.lookup key) := funext (member?_ofMembers h)
  rw [ofMembers, fields?, hnamed, hmembers]
  exact List.mapM_pure

end

/-- A field that is there or has a default. -/
theorem optional_count? {p : Prop} [Decidable p] {n : Nat} (h : n ≤ ceiling) (default : Nat) :
    optional count? default (if p then none else some (ofNat n))
      = some (if p then default else n) := by
  split
  · rfl
  · exact count?_ofNat h

/-! ## Values that can be written -/

theorem sound_ofNat (n : Nat) : Sound (ofNat n) := .number (isNumber_ofNat n)

/-- An object of values that can be written can be written. -/
theorem sound_ofMembers {members : List (String × Json)} (h : ∀ m ∈ members, Sound m.2) :
    Sound (ofMembers members) := by
  refine .object (fun m hm => ?_) fun m hm => ?_
  · obtain ⟨m', -, rfl⟩ := List.mem_map.1 hm
    rfl
  · obtain ⟨m', hm', rfl⟩ := List.mem_map.1 hm
    exact h m' hm'

/-- What can be written can be written without some of its members. -/
theorem Sound.without {v : Json} (h : Sound v) (keys : List String) : Sound (v.without keys) := by
  cases h with
  | object hkeys h =>
    exact .object (fun m hm => hkeys m (List.mem_of_mem_filter hm))
      fun m hm => h m (List.mem_of_mem_filter hm)
  | null => exact .null
  | bool b => exact .bool b
  | number h => exact .number h
  | string text => exact .string text
  | array h => exact .array h

/-- Whatever the layout of a value, a decoder makes the same of it. -/
structure DecodesAs {α : Type} (v : Json) (decode : String → Option α) (a : α) : Prop where
  compact : decode v.compact = some a
  pretty : decode v.pretty = some a
  text : ∀ {text : String}, v.IsText text → decode text = some a

/-- A value that can be written is read back from every layout, so what is made of the value is
made of its text. -/
theorem Sound.decodesAs {α : Type} {v : Json} (h : Sound v) {ofJson? : Json → Option α} {a : α}
    (hread : ofJson? v = some a) : v.DecodesAs (fun text => (read? text).bind ofJson?) a := by
  have htext : ∀ {text : String}, v.IsText text → (read? text).bind ofJson? = some a := by
    intro text htext
    rw [read?_of_isText htext, Option.bind_some, hread]
  exact ⟨htext (isText_compact h), htext (isText_pretty h), htext⟩

end Json

/-! ## Settings -/

namespace TimerConfig

variable {c : TimerConfig}

/-- The fields are counts. -/
def OfCounts (c : TimerConfig) : Prop := ∀ field : TimerField, field.get c ≤ ceiling

/-- The shape with the defaults of given fields. -/
def reverted (c : TimerConfig) (fields : List TimerField) : TimerConfig :=
  let value (field : TimerField) : Nat := if field ∈ fields then field.get {} else field.get c
  { slots := value .slots, levels := value .levels, intervalMs := value .intervalMs
    maxJobThreads := value .maxJobThreads }

theorem reverted_nil (c : TimerConfig) : c.reverted [] = c := rfl

/-- The fields in the order in which they are written. -/
def written : List TimerField := [.slots, .levels, .intervalMs, .maxJobThreads]

/-- What is written of each field. -/
def members (c : TimerConfig) : List (String × Json) :=
  written.map fun field => (field.key, .ofNat (field.get c))

theorem toJson_eq (c : TimerConfig) : c.toJson = .ofMembers c.members := rfl

/-- What is written of a shape can be written: it is an object of numbers. -/
theorem sound_toJson (c : TimerConfig) : c.toJson.Sound := by
  rw [toJson_eq]
  refine Json.sound_ofMembers fun m hm => ?_
  obtain ⟨field, -, rfl⟩ := List.mem_map.1 hm
  exact Json.sound_ofNat _

theorem key_injective : Function.Injective TimerField.key := by
  intro a b h
  cases a <;> cases b <;> first | rfl | exact absurd h (by decide)

/-- The members that are written of a shape have distinct names. -/
theorem distinct_members (c : TimerConfig) : Members.Distinct c.members := by
  rw [Members.Distinct, members, List.map_map]
  exact List.Nodup.map key_injective (by decide)

/-- Under its name stands the value of a field. -/
theorem lookup_members (c : TimerConfig) (field : TimerField) :
    c.members.lookup field.key = some (.ofNat (field.get c)) := by
  cases field <;> rfl

/-- **Fields that are deleted have their defaults, and the others are read as they were.** -/
theorem ofJson?_without (h : c.OfCounts) (deleted : List TimerField) :
    ofJson? (c.toJson.without (deleted.map TimerField.key)) = some (c.reverted deleted) := by
  have hdistinct : Members.Distinct
      (c.members.filter fun m => !(deleted.map TimerField.key).contains m.1) :=
    c.distinct_members.sublist (List.filter_sublist.map _)
  have hfield : ∀ field : TimerField,
      (c.members.filter fun m => !(deleted.map TimerField.key).contains m.1).lookup field.key
        = if field ∈ deleted then none else some (.ofNat (field.get c)) := by
    intro field
    rw [Json.lookup_filter, lookup_members]
    simp only [List.mem_map_of_injective key_injective]
  -- fields are found by their names, so it does not matter where the deleted ones stood
  have hfields : (c.toJson.without (deleted.map TimerField.key)).fields? fieldNames
      = some (written.map fun field =>
        if field ∈ deleted then none else some (.ofNat (field.get c))) := by
    have hnames : fieldNames = written.map TimerField.key := rfl
    rw [toJson_eq, Json.without_ofMembers, Json.fields?_ofMembers hdistinct, hnames, List.map_map]
    exact congrArg some (List.map_congr_left fun field _ => hfield field)
  simp only [ofJson?, hfields, written, List.map_cons, List.map_nil, Option.bind_eq_bind,
    Option.bind_some, Json.optional_count? (h _)]
  rfl

end TimerConfig

namespace Settings

/-- What is written of settings, without some fields of the timer. -/
def without (s : Settings) (deleted : List TimerField) : Json :=
  s.toJson.modify "timer" (·.without (deleted.map TimerField.key))

variable {s : Settings}

theorem without_eq (s : Settings) (deleted : List TimerField) :
    s.without deleted
      = .ofMembers [("timer", s.timer.toJson.without (deleted.map TimerField.key))] := rfl

/-- What is written of settings can be written, also where fields are deleted. -/
theorem sound_without (s : Settings) (deleted : List TimerField) : (s.without deleted).Sound := by
  rw [without_eq]
  refine Json.sound_ofMembers fun m hm => ?_
  rw [List.mem_singleton.1 hm]
  exact s.timer.sound_toJson.without _

/-- Settings without some fields of the timer are read with the defaults of these. -/
theorem ofJson?_without (h : s.timer.OfCounts) (deleted : List TimerField) :
    ofJson? (s.without deleted) = some ⟨s.timer.reverted deleted⟩ := by
  have hfields : (s.without deleted).fields? ["timer"]
      = some [some (s.timer.toJson.without (deleted.map TimerField.key))] := rfl
  simp only [ofJson?, hfields, Option.bind_eq_bind, Option.bind_some, Json.optional,
    TimerConfig.ofJson?_without h]

/-- Where nothing is deleted, everything is there. -/
theorem without_nil (s : Settings) : s.without [] = s.toJson := rfl

end Settings

/-! ## Statistics -/

namespace LevelStats

variable {l : LevelStats}

/-- The fields are counts. -/
structure OfCounts (l : LevelStats) : Prop where
  level : l.level ≤ ceiling
  resolutionMs : l.resolutionMs ≤ ceiling
  ticks : l.ticks ≤ ceiling
  pending : l.pending ≤ ceiling

/-- What is written of a level can be written. -/
theorem sound_toJson (l : LevelStats) : l.toJson.Sound := by
  refine Json.sound_ofMembers fun m hm => ?_
  simp only [List.mem_cons, List.not_mem_nil, or_false] at hm
  rcases hm with rfl | rfl | rfl | rfl <;> exact Json.sound_ofNat _

/-- The statistics of a level are read back as they were. -/
theorem ofJson?_toJson (h : l.OfCounts) : ofJson? l.toJson = some l := by
  have hfields : l.toJson.fields? fieldNames = some [some (.ofNat l.level),
      some (.ofNat l.resolutionMs), some (.ofNat l.ticks), some (.ofNat l.pending)] := by
    rw [toJson, Json.fields?_ofMembers]
    · rfl
    · show List.Nodup ["level", "resolution_ms", "ticks", "pending"]
      decide
  simp only [ofJson?, hfields, Option.bind_eq_bind, Option.bind_some, Json.count?_ofNat h.level,
    Json.count?_ofNat h.resolutionMs, Json.count?_ofNat h.ticks, Json.count?_ofNat h.pending]

/-- The levels are read back in their order. Induction on the list. -/
theorem mapM_ofJson?_toJson {levels : List LevelStats} (h : ∀ l ∈ levels, l.OfCounts) :
    (levels.map toJson).mapM ofJson? = some levels := by
  induction levels with
  | nil => rfl
  | cons l rest ih =>
    rw [List.map_cons, List.mapM_cons, ofJson?_toJson (h l List.mem_cons_self),
      ih fun l hl => h l (List.mem_cons_of_mem _ hl)]
    rfl

end LevelStats

namespace TimerStats

variable {s : TimerStats}

/-- What is written of statistics can be written: a name and an array of levels. -/
theorem sound_toJson (s : TimerStats) : s.toJson.Sound := by
  refine Json.sound_ofMembers fun m hm => ?_
  simp only [List.mem_cons, List.not_mem_nil, or_false] at hm
  rcases hm with rfl | rfl
  · exact .string _
  · refine .array fun v hv => ?_
    obtain ⟨l, -, rfl⟩ := List.mem_map.1 hv
    exact l.sound_toJson

/-- Statistics are read back as they were, if those of the levels are counts. -/
theorem ofJson?_toJson (h : ∀ l ∈ s.levels, l.OfCounts) : ofJson? s.toJson = some s := by
  have hfields : s.toJson.fields? ["status", "levels"]
      = some [some s.status.toJson, some (.array (s.levels.map LevelStats.toJson))] := by
    rw [toJson, Json.fields?_ofMembers]
    · rfl
    · show List.Nodup ["status", "levels"]
      decide
  have hstatus : TimerStatus.ofJson? s.status.toJson = some s.status := s.status.ofName?_name
  simp only [ofJson?, hfields, hstatus, Json.items?, LevelStats.mapM_ofJson?_toJson h,
    Option.bind_eq_bind, Option.bind_some]

end TimerStats

/-! ## Texts -/

/-- **Encodings are read back.** Settings whose counts are counts are read as they were from what
they are written as; from that without some fields, or without the timer, they are read with the
defaults of what is missing, in any layout. Statistics are read as they were, too, and are then
written as they were. -/
theorem encodings_read_back :
    (∀ s : Settings, s.timer.OfCounts →
        Settings.ofText? s.text = some s
        ∧ (∀ deleted : List TimerField,
            (s.without deleted).DecodesAs Settings.ofText? ⟨s.timer.reverted deleted⟩)
        ∧ (s.toJson.without ["timer"]).DecodesAs Settings.ofText? {})
      ∧ ∀ s : TimerStats, (∀ l ∈ s.levels, l.OfCounts) →
        TimerStats.ofText? s.text = some s
        ∧ (TimerStats.ofText? s.text).map TimerStats.text = some s.text
        ∧ s.toJson.DecodesAs TimerStats.ofText? s := by
  constructor
  · intro s h
    have hdeleted : ∀ deleted : List TimerField,
        (s.without deleted).DecodesAs Settings.ofText? ⟨s.timer.reverted deleted⟩ :=
      fun deleted => (s.sound_without deleted).decodesAs (Settings.ofJson?_without h deleted)
    have hempty : (Json.ofMembers []).DecodesAs Settings.ofText? {} :=
      (Json.sound_ofMembers fun m hm => absurd hm List.not_mem_nil).decodesAs rfl
    refine ⟨?_, hdeleted, hempty⟩
    -- nothing deleted is the first case of fields deleted
    have hall := (hdeleted []).pretty
    rw [s.without_nil, s.timer.reverted_nil] at hall
    exact hall
  · intro s h
    have hdecodes : s.toJson.DecodesAs TimerStats.ofText? s :=
      s.sound_toJson.decodesAs (TimerStats.ofJson?_toJson h)
    have hread : TimerStats.ofText? s.text = some s := hdecodes.compact
    exact ⟨hread, by rw [hread, Option.map_some], hdecodes⟩

/-- Settings with the largest count of slots, written without two of their fields, and statistics of
two levels. -/
theorem encodings_read_back_at_ceiling :
    (⟨ceiling, 0, 7, 1⟩ : TimerConfig).OfCounts
      ∧ (Settings.without ⟨⟨ceiling, 0, 7, 1⟩⟩ [.levels, .maxJobThreads]).pretty
        = "\x7b\n  \"timer\": \x7b\n    \"slots\": 18446744073709551615,\n"
          ++ "    \"interval_ms\": 7\n  \x7d\n\x7d"
      ∧ Settings.ofText? (Settings.without ⟨⟨ceiling, 0, 7, 1⟩⟩ [.levels, .maxJobThreads]).pretty
        = some ⟨⟨ceiling, 6, 7, 512⟩⟩
      ∧ (∀ l ∈ [(⟨0, 50, ceiling, 3⟩ : LevelStats), ⟨1, 500, 0, 0⟩], l.OfCounts)
      ∧ TimerStats.ofText? (TimerStats.text ⟨.stopped, [⟨0, 50, ceiling, 3⟩, ⟨1, 500, 0, 0⟩]⟩)
        = some ⟨.stopped, [⟨0, 50, ceiling, 3⟩, ⟨1, 500, 0, 0⟩]⟩ := by
  have hsettings : (⟨ceiling, 0, 7, 1⟩ : TimerConfig).OfCounts := by
    intro field
    cases field <;> decide
  have hstats : ∀ l ∈ [(⟨0, 50, ceiling, 3⟩ : LevelStats), ⟨1, 500, 0, 0⟩], l.OfCounts := by
    intro l hl
    simp only [List.mem_cons, List.not_mem_nil, or_false] at hl
    rcases hl with rfl | rfl <;> exact ⟨by decide, by decide, by decide, by decide⟩
  obtain ⟨-, hdeleted, -⟩ := encodings_read_back.1 ⟨⟨ceiling, 0, 7, 1⟩⟩ hsettings
  obtain ⟨hread, -, -⟩ :=
    encodings_read_back.2 ⟨.stopped, [⟨0, 50, ceiling, 3⟩, ⟨1, 500, 0, 0⟩]⟩ hstats
  exact ⟨hsettings, by decide +kernel, (hdeleted [.levels, .maxJobThreads]).pretty, hstats, hread⟩

end TimingWheel
