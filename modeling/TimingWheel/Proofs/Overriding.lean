import TimingWheel.Proofs.Documents
import TimingWheel.Proofs.Layering
import TimingWheel.Proofs.Shapes

/-!
# Field by field

Each field of the shape of a timer has one setting that counts: the flag, where there is one, else
the variable of the environment, else what the file has, else the default. Loading succeeds exactly
if each of them is a count, and answers with these counts; otherwise the fault is about the first
field of which it is none. What a lower layer has under a key that a higher one sets is of no
consequence.

* **`TimerField`** — the fields, in the order in which they are read, with the names that they have
  in a file and in the environment.
* **`TimerField.winner`** — the setting of a field that counts.
* **`Settings.tells_merged`** — merging all layers leaves that setting.
* **`FieldByField`** — what is read off settings that stand for the fields one by one.
-/

namespace TimingWheel

/-! ## Counts -/

namespace Setting

/-- The integer that a setting is. -/
def integer? : Setting → Option Int
  | .scalar _ (.signed i) => some i
  | .scalar _ (.count n) => some n
  | _ => none

/-- The setting is an integer between 0 and the largest count. -/
def IsCount (s : Setting) (n : Nat) : Prop := s.integer? = some (n : Int) ∧ n ≤ ceiling

/-- The integer that the setting is, if it is one, is one that a layer can hold. -/
def InRange (s : Setting) : Prop := ∀ origin value, s = .scalar origin value → value.InRange

theorem Tidy.inRange {s : Setting} (h : s.Tidy) : s.InRange := by
  rintro origin value rfl
  cases h with
  | scalar inRange => exact inRange

variable {s : Setting}

/-- A count is read as that count, whatever is expected of it and wherever it stands. -/
theorem IsCount.count_eq {n : Nat} (h : s.IsCount n) (expected : String) (path : List String) :
    s.count expected path = .ok n := by
  obtain ⟨hinteger, -⟩ := h
  cases s with
  | scalar origin value =>
    cases value with
    | signed i =>
      obtain rfl : i = n := Option.some.inj hinteger
      rw [count, if_pos (Int.natCast_nonneg n), Int.toNat_natCast]
    | count m =>
      obtain rfl : m = n := Int.ofNat.inj (Option.some.inj hinteger)
      rw [count]
    | _ => simp [integer?] at hinteger
  | _ => simp [integer?] at hinteger

/-- A setting that is no count is refused, and the fault says where it comes from. -/
theorem count_eq_error (hrange : s.InRange) (h : ¬ ∃ n, s.IsCount n) (expected : String)
    (path : List String) : ∃ fault, s.count expected path = .error fault ∧ fault.path = path
      ∧ fault.origin = s.origin := by
  cases s with
  | scalar origin value =>
    have hvalue := hrange origin value rfl
    cases value with
    | signed i =>
      have hnegative : ¬ 0 ≤ i := by
        intro hpos
        have hlarge : i < 0x8000000000000000 := hvalue.2
        refine h ⟨i.toNat, congrArg some (Int.toNat_of_nonneg hpos).symm, ?_⟩
        unfold ceiling
        omega
      exact ⟨_, by rw [count, if_neg hnegative], rfl, rfl⟩
    | count n => exact absurd ⟨n, rfl, hvalue⟩ h
    | text t => exact ⟨_, rfl, rfl, rfl⟩
    | bool b => exact ⟨_, rfl, rfl, rfl⟩
    | float x => exact ⟨_, rfl, rfl, rfl⟩
  | sequence origin items => exact ⟨_, rfl, rfl, rfl⟩
  | table origin members => exact ⟨_, rfl, rfl, rfl⟩

end Setting

/-- What a word of the environment writes is in range. -/
theorem Variable.inRange_word (s : List Char) : (word s).InRange := by
  unfold word
  simp only
  split
  · exact trivial
  · next n _ hcount =>
    obtain ⟨n', hread⟩ : ∃ n', Text.readCount s = .ok n' := by
      cases hread : Text.readCount s with
      | error fault => simp [Text.count?, hread, Except.toOption] at hcount
      | ok n' => exact ⟨n', rfl⟩
    obtain rfl : n' = n := by simpa [Text.count?, hread, Except.toOption] using hcount
    exact Text.readCount_le hread
  · next i _ _ hnegative =>
    unfold negative? at hnegative
    split at hnegative
    · obtain ⟨n, -, h⟩ := Option.bind_eq_some_iff.1 hnegative
      split at h
      · next hle =>
        obtain rfl := Option.some.inj h
        show -0x8000000000000000 ≤ -(n : Int) ∧ -(n : Int) < 0x8000000000000000
        omega
      · simp at h
    · simp at hnegative
  · exact trivial

/-- The value of a variable is in range: it is a word, which is, or something that is no integer. -/
theorem Variable.inRange_value (text : String) : (Variable.value text).InRange := by
  -- numbers are read up to their ranges only, and what is too large stays text
  have htoken : ∀ {depth : Nat} {s rest : List Char} {v : Setting},
      token depth s = some (v, rest) → v.InRange := by
    intro depth s rest v h
    cases depth with
    | zero => simp [token] at h
    | succ depth =>
      unfold token at h
      split at h
      · obtain ⟨rfl, -⟩ := Prod.mk.inj (Option.some.inj h)
        rintro _ _ ⟨⟩
        exact trivial
      · obtain ⟨rfl, -⟩ := Prod.mk.inj (Option.some.inj h)
        rintro _ _ ⟨⟩
        exact trivial
      · obtain ⟨_, -, heq⟩ := Option.map_eq_some_iff.1 h
        obtain ⟨rfl, -⟩ := Prod.mk.inj heq
        rintro _ _ ⟨⟩
      · obtain ⟨_, -, heq⟩ := Option.map_eq_some_iff.1 h
        obtain ⟨rfl, -⟩ := Prod.mk.inj heq
        rintro _ _ ⟨⟩
      · obtain ⟨_, -, heq⟩ := Option.map_eq_some_iff.1 h
        obtain ⟨rfl, -⟩ := Prod.mk.inj heq
        rintro _ _ ⟨⟩
        exact trivial
      · obtain ⟨rfl, -⟩ := Prod.mk.inj (Option.some.inj h)
        rintro _ _ ⟨⟩
        exact trivial
      · simp at h
      · obtain ⟨rfl, -⟩ := Prod.mk.inj (Option.some.inj h)
        rintro _ _ ⟨⟩
        exact inRange_word _
  have hraw : (value.raw text).InRange := by
    rintro _ _ ⟨⟩
    exact trivial
  unfold value
  simp only
  split
  · next v rest hread =>
    split
    · exact htoken hread
    · exact hraw
  · exact hraw

/-! ## Fields -/

/-- A field of the shape of a timer. -/
inductive TimerField where
  | intervalMs
  | levels
  | maxJobThreads
  | slots
  deriving DecidableEq

namespace TimerField

/-- The fields in the order in which they are read. -/
def all : List TimerField := [intervalMs, levels, maxJobThreads, slots]

/-- The key of the field in a table. -/
def key : TimerField → String
  | intervalMs => "interval_ms"
  | levels => "levels"
  | maxJobThreads => "max_job_threads"
  | slots => "slots"

/-- The variable of the field in the environment. -/
def variableName : TimerField → String
  | intervalMs => "TICKWHEEL_TIMER_INTERVAL_MS"
  | levels => "TICKWHEEL_TIMER_LEVELS"
  | maxJobThreads => "TICKWHEEL_TIMER_MAX_JOB_THREADS"
  | slots => "TICKWHEEL_TIMER_SLOTS"

/-- The flag of the field, which the number of threads does not have. -/
def flag? (o : Overrides) : TimerField → Option Nat
  | intervalMs => o.intervalMs
  | levels => o.levels
  | maxJobThreads => none
  | slots => o.slots

/-- The value of the field in a shape. -/
def get (c : TimerConfig) : TimerField → Nat
  | intervalMs => c.intervalMs
  | levels => c.levels
  | maxJobThreads => c.maxJobThreads
  | slots => c.slots

/-- How a message names the kind of count that the field is. -/
def kind : TimerField → String
  | intervalMs => Setting.millisKind
  | _ => Setting.sizeKind

/-- Whether a variable is that of the field, in whatever letter case. -/
def isNamed (field : TimerField) (v : String × String) : Bool :=
  Environment.canonical v.1 == field.variableName.toList

/-- Whether a variable sets a part of the field, behind a point. -/
def Nested (field : TimerField) (v : String × String) : Prop :=
  field.variableName.toList ++ ['.'] <+: Environment.canonical v.1

/-- The value of the variable of the field. -/
def inEnvironment? (env : Environment) (field : TimerField) : Option Setting :=
  (env.find? field.isNamed).map fun v => Variable.value v.2

/-- The flag of the field as a setting. -/
def inFlags? (flags : Option Overrides) (field : TimerField) : Option Setting :=
  (flags.bind (flag? · field)).map fun n => .scalar .flags (.count n)

/-- **The setting of the field that counts**: the flag, else the variable, else what the file has,
else the default. -/
def winner (file : Setting) (env : Environment) (flags : Option Overrides) (field : TimerField) :
    Setting :=
  ((inFlags? flags field).or ((inEnvironment? env field).or (file.timer? field.key))).getD
    (.scalar .defaults (.count (field.get {})))

/-- The name of the variable of a field is the stem and the key in capital letters. -/
theorem variableName_eq (field : TimerField) :
    field.variableName.toList = variableStem.toList ++ field.key.toList.map Char.toUpper := by
  cases field <;> decide

/-- The variable of a field has the path of that field. -/
theorem path?_of_isNamed {field : TimerField} {v : String × String} (h : field.isNamed v = true) :
    Environment.path? v.1 = some [field.key] := by
  have hcanonical : Environment.canonical v.1 = field.variableName.toList := by
    simpa [isNamed] using h
  rw [variableName_eq] at hcanonical
  refine Environment.path?_of_canonical ?_ ?_ ?_ hcanonical
  all_goals cases field <;> decide

/-- A variable that sets a field or a part of it is that of the field, if it does not set a part. -/
theorem isNamed_of_path? {field : TimerField} {v : String × String} (hflat : ¬ field.Nested v)
    {rest : List String} (h : Environment.path? v.1 = some (field.key :: rest)) :
    field.isNamed v = true := by
  unfold Nested at hflat
  rw [variableName_eq] at hflat
  rcases Environment.canonical_of_path? h with ⟨-, hcanonical⟩ | hnested
  · simpa [isNamed, variableName_eq] using hcanonical
  · exact absurd hnested hflat

end TimerField

/-! ## All layers -/

namespace Setting

/-- Fields of distinct names make a layer. -/
theorem isLayer_ofTimer (origin : Origin) {fields : List (String × Nat)}
    (h : (fields.map (·.1)).Nodup) : (ofTimer origin fields).IsLayer := by
  refine ⟨⟨⟨origin, rfl⟩, by simp [Members.Distinct, ofTimer, members]⟩, fun {timer} htimer => ?_⟩
  obtain rfl := Option.some.inj (by simpa [ofTimer, members] using htimer)
  refine ⟨⟨origin, rfl⟩, ?_⟩
  show ((fields.map _).map _).Nodup
  rw [List.map_map]
  exact h

theorem isLayer_defaults : defaults.IsLayer := isLayer_ofTimer .defaults (by decide)

theorem tells_defaults (field : TimerField) :
    defaults.Tells field.key (some (.scalar .defaults (.count (field.get {})))) := by
  cases field <;> exact .some fun _ _ => rfl

theorem isLayer_ofOverrides (o : Overrides) : (ofOverrides o).IsLayer := by
  obtain ⟨slots, levels, intervalMs⟩ := o
  apply isLayer_ofTimer
  cases slots <;> cases levels <;> cases intervalMs <;> simp

/-- The flags say about a field what its flag says, or nothing. -/
theorem tells_ofOverrides (o : Overrides) (field : TimerField) :
    (ofOverrides o).Tells field.key (field.inFlags? (some o)) := by
  obtain ⟨slots, levels, intervalMs⟩ := o
  -- every choice of flags and every field: a lookup in a table of three members at most
  cases slots <;> cases levels <;> cases intervalMs <;> cases field <;>
    first
    | exact .none
    | exact .some fun _ _ => rfl

/-- What a file has about the timer, where that is nothing or a table, makes it a layer. -/
theorem isLayer_ofFile {files : Files} {path : String} {file : Setting}
    (h : ofFile? files path = .ok file)
    (htimer : ∀ timer, file.members.lookup "timer" = some timer →
      ∃ origin members, timer = .table origin members) : file.IsLayer := by
  obtain ⟨origin, ms, rfl, htidy⟩ := tidy_ofFile h
  cases htidy with
  | table distinct each =>
    refine ⟨⟨⟨origin, rfl⟩, distinct⟩, fun {timer} hlookup => ?_⟩
    obtain ⟨origin', ms', rfl⟩ := htimer timer hlookup
    have hinner := each _ (Members.mem_of_lookup hlookup)
    cases hinner with
    | table distinct' _ => exact ⟨⟨origin', rfl⟩, distinct'⟩

/-- What a file says about the timer is in range: it was read from a document. -/
theorem inRange_timer?_ofFile {files : Files} {path : String} {file v : Setting} {key : String}
    (h : ofFile? files path = .ok file) (hv : file.timer? key = some v) : v.InRange := by
  obtain ⟨origin, ms, rfl, htidy⟩ := tidy_ofFile h
  obtain ⟨timer, htimer, hmember⟩ := Option.bind_eq_some_iff.1 hv
  cases htidy with
  | table distinct each =>
    have hinner := each _ (Members.mem_of_lookup htimer)
    cases timer with
    | table origin' ms' =>
      cases hinner with
      | table _ each' => exact (each' _ (Members.mem_of_lookup hmember)).inRange
    | scalar _ _ => simp [members] at hmember
    | sequence _ _ => simp [members] at hmember

end Setting

/-- What the variables of an environment have to be like: one for each field at most, and none for
a part of a field. -/
structure Environment.Plain (env : Environment) : Prop where
  single : ∀ field : TimerField, (env.filter field.isNamed).length ≤ 1
  flat : ∀ field : TimerField, ∀ v ∈ env, ¬ field.Nested v

/-- The layers of settings merged, the later ones over the earlier ones. -/
def Settings.merged (file : Setting) (env : Environment) (flags : Option Overrides) : Setting :=
  let merged := (Setting.defaults.merge file).merge env.layer
  match flags with
  | none => merged
  | some o => merged.merge (.ofOverrides o)

section

variable {file : Setting} {env : Environment} {field : TimerField}

/-- A plain environment says about a field what its one variable says. -/
theorem Environment.Plain.tells (h : env.Plain) (field : TimerField) :
    env.layer.Tells field.key (field.inEnvironment? env) :=
  tells_layer (fun _ hv => TimerField.path?_of_isNamed hv)
    (fun v hv _ hpath => TimerField.isNamed_of_path? (h.flat field v hv) hpath) (h.single field)

/-- **Of each field, merging leaves the setting that counts.** -/
theorem Settings.tells_merged (hfile : file.IsLayer) (henv : env.Plain) (flags : Option Overrides)
    (field : TimerField) :
    (merged file env flags).IsLayer
      ∧ (merged file env flags).Tells field.key (some (field.winner file env flags)) := by
  have hlower := Setting.isLayer_defaults.merge hfile
  have hlayer := hlower.merge (Environment.isLayer_layer env)
  have htells := hlower.tells_merge (Environment.isLayer_layer env)
    (Setting.isLayer_defaults.tells_merge hfile (Setting.tells_defaults field)
      (file.tells_timer? field.key)) (henv.tells field)
  have hwinner : some (field.winner file env flags)
      = (field.inFlags? flags).or ((field.inEnvironment? env).or ((file.timer? field.key).or
          (some (.scalar .defaults (.count (field.get {})))))) := by
    unfold TimerField.winner
    cases field.inFlags? flags <;> cases field.inEnvironment? env <;>
      cases file.timer? field.key <;> rfl
  rw [hwinner]
  cases flags with
  | none => exact ⟨hlayer, htells⟩
  | some o =>
    have hflags := Setting.isLayer_ofOverrides o
    have hlast := Setting.tells_ofOverrides o field
    exact ⟨hlayer.merge hflags, hlayer.tells_merge hflags htells hlast⟩

/-- Whichever layer wins, what it says is in range. -/
theorem TimerField.inRange_winner {files : Files} {path : String} {flags : Option Overrides}
    (hfile : Setting.ofFile? files path = .ok file)
    (hflags : ∀ n, flags.bind (field.flag? ·) = some n → n ≤ ceiling) :
    (field.winner file env flags).InRange := by
  unfold winner
  cases hflag : field.inFlags? flags with
  | some v =>
    obtain ⟨n, hn, rfl⟩ := Option.map_eq_some_iff.1 hflag
    rintro _ _ ⟨⟩
    exact hflags n hn
  | none =>
    cases hvariable : field.inEnvironment? env with
    | some v =>
      obtain ⟨u, -, rfl⟩ := Option.map_eq_some_iff.1 hvariable
      exact Variable.inRange_value u.2
    | none =>
      cases hinFile : file.timer? field.key with
      | some v => exact Setting.inRange_timer?_ofFile hfile hinFile
      | none =>
        rintro _ _ ⟨⟩
        show field.get {} ≤ ceiling
        cases field <;> decide

end

/-! ## Reading -/

/-- The first field that a setting counts for which is no count. -/
def FirstBad (winner : TimerField → Setting) : TimerField → Prop :=
  FirstFailing TimerField.all fun field => ∃ n, (winner field).IsCount n

/-- What loading comes to where each field has a setting that counts. -/
structure FieldByField (winner : TimerField → Setting) (result : Except LoadFault TimerConfig) :
    Prop where
  /-- It succeeds exactly if each of the settings is a count. -/
  succeeds_iff : (∃ c, result = .ok c) ↔ ∀ field, ∃ n, (winner field).IsCount n
  /-- The result has exactly these counts. -/
  value : ∀ {c : TimerConfig}, result = .ok c → ∀ field : TimerField,
    (winner field).IsCount (field.get c)
  /-- The fault names the first field whose setting is no count, and the layer it comes from. -/
  fault : ∀ {field : TimerField}, FirstBad winner field → ∃ fault, result = .error (.setting fault)
    ∧ fault.path = ["timer", field.key] ∧ fault.origin = (winner field).origin

section

variable {winner : TimerField → Setting} {s : Setting}

/-- The shape that the settings of the fields give, one field read after another. -/
def readFields (winner : TimerField → Setting) : Except SettingFault TimerConfig := do
  let read (field : TimerField) := (winner field).count field.kind ["timer", field.key]
  let intervalMs ← read .intervalMs
  let levels ← read .levels
  let maxJobThreads ← read .maxJobThreads
  let slots ← read .slots
  return { slots, levels, intervalMs, maxJobThreads }

/-- What is read off a layer depends on what it says about the fields. -/
theorem settings_of_tells (h : s.IsLayer)
    (htells : ∀ field : TimerField, s.Tells field.key (some (winner field))) :
    s.settings = (readFields winner).map fun timer => { timer } := by
  have hfield : ∀ field : TimerField,
      ∃ v, s.timer? field.key = some v ∧ v.CountsAs (winner field) := by
    intro field
    have hrel := htells field
    unfold Setting.Tells at hrel
    cases hv : s.timer? field.key with
    | none => rw [hv] at hrel; cases hrel
    | some v => rw [hv] at hrel; cases hrel with | some hcounts => exact ⟨v, rfl, hcounts⟩
  -- some field is set in the timer's table, so there is one
  obtain ⟨timer, htimer⟩ : ∃ timer, s.members.lookup "timer" = some timer := by
    obtain ⟨v, hv, -⟩ := hfield .slots
    obtain ⟨timer, htimer, -⟩ := Option.bind_eq_some_iff.1 hv
    exact ⟨timer, htimer⟩
  obtain ⟨origin, htable⟩ := (h.timer htimer).table
  -- each field is read off that table, where what is found counts as the winner
  have hcount : ∀ (field : TimerField) (default : Nat),
      Setting.countOr default field.kind ["timer", field.key] (timer.members.lookup field.key)
        = (winner field).count field.kind ["timer", field.key] := by
    intro field default
    obtain ⟨v, hv, hcounts⟩ := hfield field
    rw [Setting.timer?, htimer, Option.bind_some] at hv
    rw [hv]
    exact hcounts _ _
  unfold Setting.settings
  rw [htimer, htable]
  simp only [Setting.timerConfig, List.cons_append, List.nil_append]
  have hinterval := hcount .intervalMs ({} : TimerConfig).intervalMs
  have hlevels := hcount .levels ({} : TimerConfig).levels
  have hthreads := hcount .maxJobThreads ({} : TimerConfig).maxJobThreads
  have hslots := hcount .slots ({} : TimerConfig).slots
  simp only [TimerField.key, TimerField.kind] at hinterval hlevels hthreads hslots
  rw [hinterval, hlevels, hthreads, hslots]
  -- the fields are read in this order, and the first that fails ends the reading
  unfold readFields
  simp only [TimerField.key, TimerField.kind]
  cases (winner .intervalMs).count Setting.millisKind ["timer", "interval_ms"] with
  | error fault => rfl
  | ok intervalMs =>
    cases (winner .levels).count Setting.sizeKind ["timer", "levels"] with
    | error fault => rfl
    | ok levels =>
      cases (winner .maxJobThreads).count Setting.sizeKind ["timer", "max_job_threads"] with
      | error fault => rfl
      | ok maxJobThreads =>
        cases (winner .slots).count Setting.sizeKind ["timer", "slots"] <;> rfl

/-- Where every field is a count, these counts are what is loaded. -/
theorem readFields_of_isCount {c : TimerConfig}
    (h : ∀ field : TimerField, (winner field).IsCount (field.get c)) :
    readFields winner = .ok c := by
  unfold readFields
  simp only [(h .intervalMs).count_eq, (h .levels).count_eq, (h .maxJobThreads).count_eq,
    (h .slots).count_eq]
  rfl

/-- Where a field is no count, the first one in the order of reading is what loading fails with.
-/
theorem readFields_of_firstBad (hrange : ∀ field, (winner field).InRange) {field : TimerField}
    (h : FirstBad winner field) : ∃ fault, readFields winner = .error fault
      ∧ fault.path = ["timer", field.key] ∧ fault.origin = (winner field).origin := by
  obtain ⟨hbad, hearlier⟩ := h
  obtain ⟨fault, hfault, hpath, horigin⟩ :=
    Setting.count_eq_error (hrange field) hbad field.kind ["timer", field.key]
  refine ⟨fault, ?_, hpath, horigin⟩
  -- all fields that are read before this one are counts
  have hgood : ∀ earlier : TimerField,
      TimerField.all.idxOf earlier < TimerField.all.idxOf field →
      ∃ n, (winner earlier).count earlier.kind ["timer", earlier.key] = .ok n := by
    intro earlier hless
    obtain ⟨n, hn⟩ := hearlier earlier hless
    exact ⟨n, hn.count_eq _ _⟩
  unfold readFields
  cases field with
  | intervalMs =>
    simp only [hfault]
    rfl
  | levels =>
    obtain ⟨intervalMs, hinterval⟩ := hgood .intervalMs (by decide)
    simp only [hinterval, hfault]
    rfl
  | maxJobThreads =>
    obtain ⟨intervalMs, hinterval⟩ := hgood .intervalMs (by decide)
    obtain ⟨levels, hlevels⟩ := hgood .levels (by decide)
    simp only [hinterval, hlevels, hfault]
    rfl
  | slots =>
    obtain ⟨intervalMs, hinterval⟩ := hgood .intervalMs (by decide)
    obtain ⟨levels, hlevels⟩ := hgood .levels (by decide)
    obtain ⟨maxJobThreads, hthreads⟩ := hgood .maxJobThreads (by decide)
    simp only [hinterval, hlevels, hthreads, hfault]
    rfl

/-- Where every setting is a count, there is a shape of these counts. -/
theorem exists_shape (h : ∀ field, ∃ n, (winner field).IsCount n) :
    ∃ c : TimerConfig, ∀ field : TimerField, (winner field).IsCount (field.get c) := by
  choose count hcount using h
  refine ⟨⟨count .slots, count .levels, count .intervalMs, count .maxJobThreads⟩, fun field => ?_⟩
  cases field <;> exact hcount _

/-- Reading the winners field by field is what loading should do. -/
theorem fieldByField_readFields (hrange : ∀ field, (winner field).InRange) :
    FieldByField winner ((readFields winner).mapError .setting) := by
  have hall : ∀ {c : TimerConfig}, (readFields winner).mapError LoadFault.setting = .ok c →
      ∀ field : TimerField, (winner field).IsCount (field.get c) := by
    intro c hc
    -- if a winner were no count, the first such would have ended the reading
    have hgood : ∀ field, ∃ n, (winner field).IsCount n := by
      apply Classical.byContradiction
      intro hbad
      obtain ⟨field, hfirst⟩ := exists_firstFailing TimerField.all hbad
      obtain ⟨fault, hfault, -⟩ := readFields_of_firstBad hrange hfirst
      rw [hfault] at hc
      cases hc
    obtain ⟨c', hshape⟩ := exists_shape hgood
    rw [readFields_of_isCount hshape] at hc
    rw [← Except.ok.inj hc]
    exact hshape
  refine ⟨⟨?_, ?_⟩, hall, fun hfirst => ?_⟩
  · rintro ⟨c, hc⟩ field
    exact ⟨_, hall hc field⟩
  · intro hgood
    obtain ⟨c, hshape⟩ := exists_shape hgood
    refine ⟨c, ?_⟩
    rw [readFields_of_isCount hshape]
    rfl
  · obtain ⟨fault, hfault, hpath, horigin⟩ := readFields_of_firstBad hrange hfirst
    refine ⟨fault, ?_, hpath, horigin⟩
    rw [hfault]
    rfl

end

/-- Loading merges the layers and reads the fields. -/
theorem loadLayers_eq {s : Surroundings} {path : Option String} {file : Setting}
    (hfile : Setting.ofFile? s.files (s.settingsPath path) = .ok file)
    (flags : Option Overrides) :
    Settings.loadLayers s path flags
      = (Settings.merged file s.env flags).settings.mapError .setting := by
  unfold Settings.loadLayers
  rw [hfile]
  rfl

/-- **Layers override field by field.** Whatever a readable file has under the four keys of the
timer, whatever the values of the variables and of the flags: each field is the setting of the
highest layer that has it. Loading succeeds exactly if these four settings are counts, so that a bad
value below is of no consequence, and the fault names the first field in the order interval, levels,
threads, slots otherwise. Without flags the same holds of what defaults, file and environment
give. -/
theorem layers_override_by_field {s : Surroundings} {path : Option String} {file : Setting}
    {flags : Option Overrides}
    (hfile : Setting.ofFile? s.files (s.settingsPath path) = .ok file)
    (htimer : ∀ timer, file.members.lookup "timer" = some timer →
      ∃ origin members, timer = .table origin members)
    (henv : s.env.Plain)
    (hflags : ∀ (field : TimerField) n, flags.bind (field.flag? ·) = some n → n ≤ ceiling) :
    FieldByField (TimerField.winner file s.env flags)
        ((Settings.loadLayers s path flags).map (·.timer))
      ∧ FieldByField (TimerField.winner file s.env none) ((Settings.load s path).map (·.timer))
      ∧ FieldByField (TimerField.winner file s.env none) (TimerConfig.load s path) := by
  have hlayer := Setting.isLayer_ofFile hfile htimer
  -- the merged layers tell the winner of every field, with flags and without
  have hload : ∀ flags : Option Overrides,
      (∀ (field : TimerField) n, flags.bind (field.flag? ·) = some n → n ≤ ceiling) →
      FieldByField (TimerField.winner file s.env flags)
        ((Settings.loadLayers s path flags).map (·.timer)) := by
    intro flags hflags
    have hmerged := fun field => Settings.tells_merged hlayer henv flags field
    rw [loadLayers_eq hfile, settings_of_tells (hmerged .slots).1 fun field => (hmerged field).2]
    have hrange : ∀ field : TimerField, (field.winner file s.env flags).InRange :=
      fun field => TimerField.inRange_winner hfile (hflags field)
    have hread := fieldByField_readFields hrange
    cases hresult : readFields (TimerField.winner file s.env flags) with
    | error fault =>
      rw [hresult] at hread
      exact hread
    | ok c =>
      rw [hresult] at hread
      exact hread
  have hnone := hload none fun _ _ h => by simp at h
  exact ⟨hload flags hflags, hnone, hnone⟩

/-- A file with a text for the slots and a negative number of levels, and a variable for the
levels. -/
def overridden : Surroundings where
  files := [("/etc/tickwheel.toml", "[timer]\nslots = \"many\"\nlevels = -3\ninterval_ms = 25\n")]
  env := [("TickWheel_Timer_Levels", "4"), ("HOME", "/root")]

/-- Whether a setting is a table. -/
def Setting.isTable : Setting → Bool
  | .table .. => true
  | _ => false

/-- With a flag for the slots the bad values of the file do not matter; without it the text is what
the slots are to be, and loading fails. -/
theorem layers_override_by_field_of_bad_file : ∃ file,
    Setting.ofFile? overridden.files (overridden.settingsPath (some "/etc/tickwheel.toml"))
        = .ok file
      ∧ FieldByField (TimerField.winner file overridden.env (some { slots := some 20 }))
        ((Settings.loadLayers overridden (some "/etc/tickwheel.toml")
          (some { slots := some 20 })).map (·.timer))
      ∧ ((Settings.loadLayers overridden (some "/etc/tickwheel.toml")
          (some { slots := some 20 })).map (·.timer)).toOption = some ⟨20, 4, 25, 512⟩
      ∧ (TimerConfig.load overridden (some "/etc/tickwheel.toml")).toOption = none := by
  -- the file is read, and has a table about the timer
  have hread : ((Setting.ofFile? overridden.files
      (overridden.settingsPath (some "/etc/tickwheel.toml"))).toOption.bind
      (·.members.lookup "timer")).any Setting.isTable = true := by decide +kernel
  cases hfile : Setting.ofFile? overridden.files
      (overridden.settingsPath (some "/etc/tickwheel.toml")) with
  | error fault => simp [hfile, Except.toOption] at hread
  | ok file =>
    rw [hfile] at hread
    replace hread : (file.members.lookup "timer").any Setting.isTable = true := hread
    refine ⟨file, rfl, ?_, by decide +kernel, by decide +kernel⟩
    have htimer : ∀ timer, file.members.lookup "timer" = some timer →
        ∃ origin members, timer = .table origin members := by
      intro timer htimer
      rw [htimer, Option.any_some] at hread
      cases timer with
      | table origin members => exact ⟨origin, members, rfl⟩
      | _ => simp [Setting.isTable] at hread
    have henv : overridden.env.Plain := by
      refine ⟨fun field => by cases field <;> decide +kernel, fun field v hv => ?_⟩
      simp only [overridden, List.mem_cons, List.not_mem_nil, or_false] at hv
      unfold TimerField.Nested
      rcases hv with rfl | rfl <;> cases field <;> decide +kernel
    have hflags : ∀ (field : TimerField) n,
        (some { slots := some 20 } : Option Overrides).bind (field.flag? ·) = some n →
          n ≤ ceiling := by
      intro field n hn
      cases field <;> simp [TimerField.flag?] at hn
      rw [← hn]
      decide
    exact (layers_override_by_field hfile htimer henv hflags).1

end TimingWheel
