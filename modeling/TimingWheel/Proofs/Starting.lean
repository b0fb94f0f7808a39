import TimingWheel.Proofs.Enrolling

/-!
# Launches start executions

A verdict of a tick says that an execution is launched, and a launch is worth something only if the
body starts. It starts at once, as the next thing that is told, or the execution is held back and
its body starts when it is taken up. Nothing else starts a body, but for whoever runs it by hand.

* **`World.dispatch_starts`** — a verdict to run is followed at once by the start of the body, or
  the execution is held.
* **`World.StartsMatch`** — between two worlds a body starts as often as the task of its entry is
  run, but for a number of starts ahead of what is told.
* **`World.invoke_startsMatch`** — so it is for every task that is run, by induction on the nesting
  of bodies, and for ticks and commands (`World.kept_startsMatch`, `World.Course.startsMatch`).
* **`World.Reachable.launches_started`** — launches and runs by hand have started the body, all but
  those that are held back.
-/

namespace TimingWheel

/-! ## What is told of runs by hand -/

/-- Whether an event tells that somebody runs the task of an entry by hand. -/
def Event.isHandRun : Event → Bool
  | .controlled _ .run => true
  | _ => false

/-- How often the task of an entry was run by hand, as its history tells. -/
def handRunCount (history : List Event) : Nat := history.countP Event.isHandRun

/-- The task of an entry is run in its executions and by hand. -/
theorem taskRuns_eq_add (history : List Event) :
    taskRuns history = completionCount history + handRunCount history := by
  induction history with
  | nil => rfl
  | cons ev history ih =>
    have hev : (if ev.runsTask then 1 else 0)
        = (if ev.isCompletion then 1 else 0) + if ev.isHandRun then 1 else 0 := by
      cases ev with
      | controlled i c => cases c <;> rfl
      | _ => rfl
    simp only [taskRuns, completionCount, handRunCount, List.countP_cons] at ih ⊢
    omega

namespace World

/-- The task of an entry is to schedule a job. -/
def IsRegistrar (w : World) (i : EntryId) : Prop :=
  ∃ r job owner, w.posts[i]? = some (.register r job, owner)

/-- An entry with a body of its own is no registrar. -/
theorem not_isRegistrar_of_body {w : World} {i : EntryId} {e : Entry} {job : JobId}
    (he : w.entries[i]? = some e) (htask : e.task = .body job) : ¬ w.IsRegistrar i := by
  rintro ⟨r, job', owner, hpost⟩
  obtain ⟨e', he', hsame⟩ := posts_eq_some.1 hpost
  obtain rfl : e = e' := Option.some.inj (he.symm.trans he')
  have htask' : e.task = .register r job' := congrArg (·.1) hsame
  rw [htask] at htask'
  simp at htask'

/-- Between two worlds every entry keeps its post and what is told goes on. Unless its task is to
schedule a job, every run of an entry's task that is told started the body once, and a number of
starts are ahead of what is told of runs. -/
structure StartsMatch (i : EntryId) (ahead : Nat) (w w' : World) : Prop where
  known : w'.JobsKnown
  posts : ∀ {j : EntryId} {post : Task × TimerId}, w.posts[j]? = some post →
    w'.posts[j]? = some post
  grows : w.journal <:+ w'.journal
  count : ¬ w'.IsRegistrar i → startCount (w'.history i) + taskRuns (w.history i)
    = startCount (w.history i) + ahead + taskRuns (w'.history i)

section

variable {i : EntryId} {n n' : Nat} {w w' w'' : World}

/-- Jobs stay known while posts stay and jobs are only added. -/
theorem JobsKnown.of_posts (h : w.JobsKnown) (hposts : w'.posts = w.posts)
    (hjobs : w.jobs.size ≤ w'.jobs.size) : w'.JobsKnown := by
  intro j post hj
  rw [hposts] at hj
  exact Nat.lt_of_lt_of_le (h hj) hjobs

theorem StartsMatch.refl (h : w.JobsKnown) : StartsMatch i 0 w w :=
  ⟨h, id, List.suffix_rfl, fun _ => rfl⟩

/-- Starts that are ahead add up. An entry that is no registrar at the end was none before,
because posts stay. -/
theorem StartsMatch.trans (h : StartsMatch i n w w') (h' : StartsMatch i n' w' w'') :
    StartsMatch i (n + n') w w'' := by
  refine ⟨h'.known, fun hj => h'.posts (h.posts hj), h.grows.trans h'.grows, fun hbody => ?_⟩
  have hcount' := h'.count hbody
  have hcount := h.count fun ⟨r, job, owner, hj⟩ => hbody ⟨r, job, owner, h'.posts hj⟩
  omega

/-- Nothing that is done has to do with posts and jobs. -/
theorem KeepsPosts.startsMatch (h : KeepsPosts i 0 w w') (hknown : w.JobsKnown)
    (hjobs : w.jobs.size ≤ w'.jobs.size) : StartsMatch i 0 w w' := by
  refine ⟨hknown.of_posts h.posts hjobs, fun hj => h.posts ▸ hj, h.grows, fun _ => ?_⟩
  rw [h.told, h.startless]
  omega

/-- What leaves entries and journal alone starts nothing. -/
theorem JobsKnown.of_same (hw : w.JobsKnown) (hentries : w'.entries = w.entries)
    (hjournal : w'.journal = w.journal) (hjobs : w.jobs.size ≤ w'.jobs.size) :
    StartsMatch i 0 w w' :=
  (KeepsPosts.of_same hentries hjournal).startsMatch hw hjobs

/-- What started ahead is told. -/
theorem StartsMatch.tell (h : StartsMatch i n w w') (hkeeps : KeepsPosts i n w' w'')
    (hjobs : w'.jobs.size ≤ w''.jobs.size) : StartsMatch i 0 w w'' := by
  refine ⟨h.known.of_posts hkeeps.posts hjobs, fun hj => hkeeps.posts ▸ h.posts hj,
    h.grows.trans hkeeps.grows, fun hbody => ?_⟩
  have hcount := h.count fun ⟨r, job, owner, hj⟩ => hbody ⟨r, job, owner, hkeeps.posts ▸ hj⟩
  rw [hkeeps.told, hkeeps.startless]
  omega

/-- What was told starts. -/
theorem StartsMatch.told (hkeeps : KeepsPosts i n w w') (h : StartsMatch i n w' w'') :
    StartsMatch i 0 w w'' := by
  refine ⟨h.known, fun hj => h.posts (hkeeps.posts ▸ hj), hkeeps.grows.trans h.grows,
    fun hbody => ?_⟩
  have hcount := h.count hbody
  rw [hkeeps.told, hkeeps.startless] at hcount
  omega

/-- To begin the body of an entry puts its starts ahead by one. -/
theorem startsMatch_beginBody (hw : w.JobsKnown) (i j : EntryId) (job : JobId) (label : String) :
    StartsMatch i (if j = i then 1 else 0) w (w.beginBody j job label) := by
  refine ⟨hw.of_posts rfl (Nat.le_of_eq Array.size_modify.symm), id, List.suffix_cons _ _,
    fun _ => ?_⟩
  rw [taskRuns_beginBody, history_beginBody]
  split
  · rw [startCount, List.countP_cons_of_pos rfl, startCount]
  · rfl

/-- A new entry has not started anything. -/
theorem startsMatch_register (hw : w.JobsKnown) (i : EntryId) (r : Registration) {task : Task}
    (hjob : task.job < w.jobs.size) : StartsMatch i 0 w (w.register r task) := by
  cases ht : w.timer with
  | none =>
    have hsame : w.register r task = w := by simp only [register, ht]
    rw [hsame]
    exact .refl hw
  | some t =>
    obtain ⟨e, hpost, hkeeps⟩ := keepsPosts_register ht r task
    have hposts := posts_register ht r task
    refine ⟨fun {j post} hj => ?_, fun hj => ?_, (hkeeps i).grows, fun _ => ?_⟩
    · rw [(register_aside w r task).jobs]
      rw [hposts, Array.getElem?_push] at hj
      split at hj
      · obtain rfl := Option.some.inj hj
        exact hjob
      · exact hw hj
    · have hlt := (Array.getElem?_eq_some_iff.1 hj).1
      rw [hposts, Array.getElem?_push, if_neg (Nat.ne_of_lt hlt)]
      exact hj
    -- what a new entry brings about is told in its log line only
    · have htold := (hkeeps i).told
      have hstarts := (hkeeps i).startless
      have hhistory : history { w with entries := w.entries.push e } i = w.history i := rfl
      rw [hhistory] at htold hstarts
      omega

/-! ## Tasks that are run -/

/-- An action other than a run by hand starts no body. A new job is known before its entry is
registered. -/
theorem Performed.startsMatch {a : Action} (h : Performed w a w') (hw : w.JobsKnown) :
    StartsMatch i 0 w w' := by
  have hsame : w.jobs.size ≤ w.jobs.size := Nat.le_refl _
  cases h with
  | control handle j e c runTask known plain =>
    exact (KeepsPosts.control plain runTask w j e).startsMatch hw
      (Nat.le_of_eq (congrArg Array.size (control_aside plain runTask w j e).jobs.symm))
  | schedule handle r delayMs outcomes rounds =>
    obtain ⟨r', task, handles, htask, heq⟩ := w.schedule_eq_job handle r delayMs
      { outcomes, rounds }
    have hpush : (w.withJob handle { outcomes, rounds }).jobs.size = w.jobs.size + 1 :=
      Array.size_push _
    have hjob : StartsMatch i 0 w (w.withJob handle { outcomes, rounds }) :=
      hw.of_same rfl rfl (by rw [hpush]; exact Nat.le_succ _)
    have hnew : task.job < (w.withJob handle { outcomes, rounds }).jobs.size := by
      rw [htask, hpush]
      exact Nat.lt_succ_self _
    have hregister := hjob.trans (startsMatch_register hjob.known i r' hnew)
    rw [heq]
    -- handles are no concern of the journal and the entries
    exact ⟨hregister.known, hregister.posts, hregister.grows, hregister.count⟩
  | timer t c there =>
    obtain ⟨status, journal, hquiet, heq⟩ := controlTimer_eq w there c
    rw [heq]
    exact (KeepsPosts.of_quiet hquiet w.clockUs _ w.timers).startsMatch hw hsame
  | _ => exact hw.of_same rfl rfl hsame

section

variable {runTask : EntryId → World → Outcome × World}

/-- An action of a body starts as many bodies as it tells of, if every run of a task does. -/
theorem perform_startsMatch
    (hrun : ∀ {j : EntryId} {w : World} {e : Entry}, w.JobsKnown → w.entries[j]? = some e →
      StartsMatch i (if j = i then 1 else 0) w (runTask j w).2)
    (hw : w.JobsKnown) (a : Action) : StartsMatch i 0 w (w.perform runTask a).2 := by
  by_cases plain : ∀ handle, a ≠ .control handle .run
  · exact (performed_perform plain runTask w).startsMatch hw
  · obtain ⟨handle, hhandle⟩ := Classical.not_forall.1 plain
    rw [Classical.not_not.1 hhandle]
    simp only [perform, withEntry]
    cases w.lookup handle with
    | none => exact .refl hw
    | some j =>
      cases he : w.entries[j]? with
      | none => simp only [he]; exact .refl hw
      | some e =>
        simp only [he]
        -- a run by hand is told of before the task is run
        have htell : KeepsPosts i (0 + if j = i then 1 else 0) w (w.tell (.controlled j .run)) :=
          (KeepsPosts.refl w).tell_run rfl rfl
        rw [Nat.zero_add] at htell
        exact .told htell (hrun (hw.of_posts htell.posts (Nat.le_refl _)) he)

/-- The actions of a body do so one after another, by induction on the actions. -/
theorem round_startsMatch
    (hrun : ∀ {j : EntryId} {w : World} {e : Entry}, w.JobsKnown → w.entries[j]? = some e →
      StartsMatch i (if j = i then 1 else 0) w (runTask j w).2) (round : List Action) :
    ∀ {w : World}, w.JobsKnown →
      StartsMatch i 0 w (round.foldl (fun w a => (w.perform runTask a).2) w) := by
  induction round with
  | nil => exact fun hw => .refl hw
  | cons a rest ih =>
    intro w hw
    have hfirst := perform_startsMatch hrun hw a
    exact hfirst.trans (ih hfirst.known)

end

/-- What is left of a body once it has started. -/
def bodyFrom (nesting : Nat) (i : EntryId) (j : Job) (w : World) : World :=
  (match nesting with
    | 0 => w
    | n + 1 => (j.script.round j.starts).foldl (fun w a => (w.perform (invoke n) a).2) w).conclude i
      (j.script.outcome j.starts)

/-- The body of a job starts, and the rest follows. -/
theorem invoke_eq_bodyFrom {e : Entry} {job : JobId} {j : Job} (he : w.entries[i]? = some e)
    (htask : e.task = .body job) (hjob : w.jobs[job]? = some j) (nesting : Nat) :
    (invoke nesting i w).2 = (w.beginBody i job j.label).bodyFrom nesting i j := by
  unfold invoke bodyFrom
  cases nesting <;> simp only [he, htask, hjob]

/-- A task that is run begins its body, which is ahead of what is told by that one start. Only a
registrar begins none. -/
theorem invoke_startsMatch_of_bodyFrom {nesting : Nat}
    (hbody : ∀ {w : World} (j : EntryId) (job : Job), w.JobsKnown →
      StartsMatch i 0 w (w.bodyFrom nesting j job))
    {j : EntryId} {e : Entry} (hw : w.JobsKnown) (he : w.entries[j]? = some e) :
    StartsMatch i (if j = i then 1 else 0) w (invoke nesting j w).2 := by
  have hpost := posts_eq_some.2 ⟨e, he, rfl⟩
  have hknown := hw hpost
  cases htask : e.task with
  | register r job =>
    have hrun : StartsMatch i 0 w (invoke nesting j w).2 := by
      unfold invoke
      simp only [he, htask]
      split
      · rw [Entry.post, htask] at hknown
        exact startsMatch_register hw i r hknown
      · exact .refl hw
    refine ⟨hrun.known, hrun.posts, hrun.grows, fun hbearer => ?_⟩
    -- the entry that schedules a job is none whose starts are counted
    have hji : j ≠ i := by
      rintro rfl
      refine hbearer ⟨r, job, e.owner, ?_⟩
      rw [hrun.posts hpost, Entry.post, htask]
    rw [if_neg hji]
    exact hrun.count hbearer
  | body job =>
    rw [Entry.post, htask] at hknown
    have hjob : w.jobs[job]? = some w.jobs[job] := Array.getElem?_eq_getElem hknown
    rw [invoke_eq_bodyFrom he htask hjob]
    have hbegin := startsMatch_beginBody hw i j job w.jobs[job].label
    exact hbegin.trans (hbody j w.jobs[job] hbegin.known)

theorem StartsMatch.conclude (h : StartsMatch i n w w') (j : EntryId) (outcome : Outcome) :
    StartsMatch i n w (w'.conclude j outcome) :=
  h.trans ((KeepsPosts.conclude w' j outcome).startsMatch h.known
    (Nat.le_of_eq (congrArg Array.size (conclude_aside w' j outcome).jobs.symm)))

/-- What a body does once it has started: whatever it runs by hand is told. -/
theorem bodyFrom_startsMatch (nesting : Nat) : ∀ {w : World} (j : EntryId) (job : Job),
    w.JobsKnown → StartsMatch i 0 w (w.bodyFrom nesting j job) := by
  -- the actions of a body run other bodies one level deeper only
  induction nesting with
  | zero => exact fun j job hw => (StartsMatch.refl hw).conclude j _
  | succ n ih =>
    intro w j job hw
    have hround := round_startsMatch (fun hw he => invoke_startsMatch_of_bodyFrom ih hw he)
      (job.script.round job.starts) hw
    exact hround.conclude j _

/-- **A body starts whenever the task of its entry is run**, and nothing else starts one. -/
theorem invoke_startsMatch (nesting : Nat) {j : EntryId} {e : Entry} (hw : w.JobsKnown)
    (he : w.entries[j]? = some e) :
    StartsMatch i (if j = i then 1 else 0) w (invoke nesting j w).2 :=
  invoke_startsMatch_of_bodyFrom (fun j job hw => bodyFrom_startsMatch nesting j job hw) hw he

/-- An execution tells of its own run as it ends, which makes up for the start. -/
theorem execute_startsMatch (hw : w.JobsKnown) (j : EntryId) :
    StartsMatch i 0 w (w.execute j).2 := by
  cases he : w.entries[j]? with
  | none =>
    have hsame : (w.execute j).2 = w := by
      unfold execute invoke
      simp only [complete, he]
    rw [hsame]
    exact .refl hw
  | some e =>
    have hrun : StartsMatch i _ w _ := invoke_startsMatch w.nesting hw he
    -- the entry is still there when its execution ends
    have hthere : j < (invoke w.nesting j w).2.entries.size := by
      obtain ⟨e', he', -⟩ := posts_eq_some.1 (hrun.posts (posts_eq_some.2 ⟨e, he, rfl⟩))
      exact (Array.getElem?_eq_some_iff.1 he').1
    exact hrun.tell (.complete fun hji => hji ▸ hthere)
      (Nat.le_of_eq (congrArg Array.size (complete_aside _ j).jobs.symm))

theorem complete_grows (w : World) (i : EntryId) : w.journal <:+ (w.complete i).journal := by
  unfold complete
  split
  · exact List.suffix_rfl
  · simp only
    split
    · exact (List.suffix_cons _ _).trans (List.suffix_cons _ _)
    · exact List.suffix_cons _ _

/-- In an execution the start of the body is the first thing that is told. -/
theorem execute_starts (hw : w.JobsKnown) {e : Entry} {job : JobId}
    (he : w.entries[i]? = some e) (htask : e.task = .body job) :
    ∃ label, .started i job label w.clockUs :: w.journal <:+ (w.execute i).2.journal := by
  have hknown := hw (posts_eq_some.2 ⟨e, he, rfl⟩)
  rw [Entry.post, htask] at hknown
  have hjob : w.jobs[job]? = some w.jobs[job] := Array.getElem?_eq_getElem hknown
  have hbegin := startsMatch_beginBody hw i i job w.jobs[job].label
  have hbody : StartsMatch i 0 _ _ :=
    bodyFrom_startsMatch w.nesting i w.jobs[job] hbegin.known
  rw [← invoke_eq_bodyFrom he htask hjob] at hbody
  exact ⟨w.jobs[job].label, hbody.grows.trans (complete_grows _ i)⟩

/-! ## Ticks -/

/-- The wheels deal with an entry that was launched. -/
theorem StartsMatch.puttingBack (h : StartsMatch i n w w') (nowMs : Nat) (j : EntryId)
    (last : Bool) : StartsMatch i n w (w'.puttingBack nowMs j last) :=
  h.trans ((KeepsPosts.puttingBack w' nowMs j last).startsMatch h.known
    (Nat.le_of_eq (congrArg Array.size (puttingBack_aside w' nowMs j last).jobs.symm)))

/-- A launch starts nothing by itself: the body starts as its execution begins, or is held back. -/
theorem startsMatch_launching (hw : w.JobsKnown) (i : EntryId) {j : EntryId} {e e' : Entry}
    {last : Bool} (s : Sweep) (he : w.entries[j]? = some e)
    (hruns : e.evaluate s.nowMs = (.run last, e')) :
    StartsMatch i 0 w (w.launching s j last e') := by
  have hpost : e'.post = e.post := by
    have hlook := e.post_evaluate s.nowMs
    rwa [hruns] at hlook
  refine (KeepsPosts.launching s he hpost last).startsMatch hw ?_
  unfold launching
  simp only
  split <;> exact Nat.le_refl _

/-- Starts match what is told as a tick deals with an entry, whatever the verdict is. -/
theorem dispatch_startsMatch (hw : w.JobsKnown) (level tick nowMs : Nat) (j : EntryId) :
    StartsMatch i 0 w (w.dispatch level tick nowMs j) := by
  cases he : w.entries[j]? with
  | none =>
    have hsame : w.dispatch level tick nowMs j = w := by simp only [dispatch, he]
    rw [hsame]
    exact .refl hw
  | some e =>
    by_cases hruns : ∃ last e', e.evaluate nowMs = (.run last, e')
    · obtain ⟨last, e', hlast⟩ := hruns
      let s : Sweep := { level, tick, nowMs, waiting := [] }
      have hlaunch := startsMatch_launching hw i s he hlast
      rw [dispatch_of_run s he hlast]
      split
      · exact hlaunch.puttingBack nowMs j last
      · exact (hlaunch.trans (execute_startsMatch hlaunch.known j)).puttingBack nowMs j last
    · have rests : ∀ last, (e.evaluate nowMs).1 ≠ .run last := fun last hlast =>
        hruns ⟨last, (e.evaluate nowMs).2, Prod.ext hlast rfl⟩
      exact (KeepsPosts.dispatch he rests level tick).startsMatch hw
        (Nat.le_of_eq (congrArg Array.size (dispatch_aside he rests level tick).jobs.symm))

/-- **A verdict to run is followed by the start of the body.** The start is the next thing that is
told, at the same reading of the clock, unless executions are held back: then this one is the last
of those that are held. -/
theorem dispatch_starts (hw : w.JobsKnown) {e e' : Entry} {job : JobId} {last : Bool}
    (he : w.entries[i]? = some e) (htask : e.task = .body job) {nowMs : Nat}
    (hruns : e.evaluate nowMs = (.run last, e')) (level tick : Nat) :
    (w.holding = true → (w.dispatch level tick nowMs i).held = w.held ++ [i])
    ∧ (w.holding = false → ∃ label, .started i job label w.clockUs
        :: .evaluated i level tick nowMs (.run last) :: w.journal
          <:+ (w.dispatch level tick nowMs i).journal) := by
  let s : Sweep := { level, tick, nowMs, waiting := [] }
  have hlaunch := startsMatch_launching hw i s he hruns
  constructor
  · intro hholding
    rw [dispatch_of_run s he hruns, if_pos hholding, (puttingBack_aside _ nowMs i last).held]
    unfold launching
    rw [if_pos hholding]
    rfl
  · intro hholding
    have hsame : w.launching s i last e'
        = (w.modifyEntry i fun _ => e').tell (.evaluated i level tick nowMs (.run last)) := by
      unfold launching
      rw [hholding]
      rfl
    have he₁ : (w.launching s i last e').entries[i]? = some e' := by
      rw [hsame]
      exact (Array.getElem?_modify.trans (if_pos rfl)).trans (congrArg (Option.map fun _ => e') he)
    have htask₁ : e'.task = .body job := by
      have hlook := e.task_evaluate nowMs
      rw [hruns] at hlook
      exact hlook.trans htask
    obtain ⟨label, hstart⟩ := execute_starts hlaunch.known he₁ htask₁
    refine ⟨label, ?_⟩
    rw [dispatch_of_run s he hruns, if_neg (by simp [hholding])]
    have hback := (KeepsPosts.puttingBack (i := i)
      ((w.launching s i last e').execute i).2 nowMs i last).grows
    rw [hsame] at hstart hback ⊢
    exact hstart.trans hback

/-- While time passes every run of a task that is told started the body once. -/
theorem kept_startsMatch (w₀ : World) : Kept (StartsMatch i 0 w₀) where
  dispatch level tick nowMs j h := h.trans (dispatch_startsMatch h.known level tick nowMs j)
  drained {w} level wheel h := by
    obtain ⟨journal, hquiet, heq⟩ := w.drained_eq level wheel
    rw [heq]
    exact h.trans ((KeepsPosts.of_quiet hquiet w.clockUs _ w.timers).startsMatch h.known
      (Nat.le_refl _))
  serve {w} level h := by
    have hserve : StartsMatch i 0 w (w.serve level) := by
      rw [w.serve_eq]
      exact h.known.of_same rfl rfl (Nat.le_refl _)
    exact h.trans hserve
  clock {w} us h := by
    have hclock : StartsMatch i 0 w { w with clockUs := us } :=
      h.known.of_same rfl rfl (Nat.le_refl _)
    exact h.trans hclock

/-! ## Commands -/

theorem startsMatch_startTimer (hw : w.JobsKnown) (c : TimerConfig) :
    StartsMatch i 0 w (w.startTimer c) := by
  obtain ⟨journal, hquiet, heq⟩ := w.startTimer_eq c
  rw [heq]
  exact (KeepsPosts.of_quiet hquiet w.clockUs _ _).startsMatch hw (Nat.le_refl _)

/-- A command has started a body whenever it had the task of its entry run. -/
theorem step_startsMatch (hw : w.JobsKnown) (c : Command) : StartsMatch i 0 w (w.step c).2 := by
  have hsame : StartsMatch i 0 w w := .refl hw
  cases c with
  | act a => exact perform_startsMatch (fun hw he => invoke_startsMatch w.nesting hw he) hw a
  | create config =>
    simp only [step, create]
    split
    · exact hsame
    · exact startsMatch_startTimer hw config
  | dropTimer =>
    obtain ⟨journal, hquiet, heq⟩ := w.dropTimer_eq
    simp only [step]
    rw [heq]
    exact (KeepsPosts.of_quiet hquiet w.clockUs none w.timers).startsMatch hw (Nat.le_refl _)
  | dumpTimer =>
    simp only [step]
    split <;> exact hsame
  | timerStats =>
    simp only [step]
    split <;> exact hsame
  | touch => exact hsame
  | advance us => exact (kept_startsMatch w).advance hsame us
  | finish n =>
    simp only [step, finish]
    split
    · exact hsame
    · next j hj =>
      have htake : StartsMatch i 0 w { w with held := w.held.eraseIdx n } :=
        hw.of_same rfl rfl (Nat.le_refl _)
      exact htake.trans (execute_startsMatch htake.known j)
  | unsupported => exact hsame

theorem wake_startsMatch (hw : w.JobsKnown) (s : Startup) : StartsMatch i 0 w (w.wake s) := by
  have hwarn (lines : List LogLine) : ∀ {w : World}, w.JobsKnown →
      StartsMatch i 0 w (lines.foldl log w) := by
    induction lines with
    | nil => exact fun hw => .refl hw
    | cons line rest ih =>
      intro w hw
      have hfirst : StartsMatch i 0 w (w.log line) :=
        ((KeepsPosts.refl w).log line).startsMatch hw (Nat.le_refl _)
      exact hfirst.trans (ih hfirst.known)
  have hlines := hwarn s.warnings hw
  exact hlines.trans (startsMatch_startTimer hlines.known s.config)

theorem stepShared_startsMatch (hw : w.JobsKnown) (s : Startup) (c : Command) :
    StartsMatch i 0 w (w.stepShared s c).2 := by
  have hrest : StartsMatch i 0 w
      (if c.needsTimer && w.timer.isNone then (w.wake s).step c else w.step c).2 := by
    split
    · have hwake : StartsMatch i 0 w _ := wake_startsMatch hw s
      exact hwake.trans (step_startsMatch hwake.known c)
    · exact step_startsMatch hw c
  cases c with
  | create config => exact .refl hw
  | dropTimer => exact .refl hw
  | _ => exact hrest

/-- **In a course of commands a body starts whenever the task of its entry is run.** -/
theorem Course.startsMatch {p : World → Prop} (h : w.Course p w') (hw : w.JobsKnown) :
    StartsMatch i 0 w w' := by
  induction h with
  | start => exact .refl hw
  | step c _ _ _ ih => exact ih.trans (step_startsMatch ih.known c)
  | stepShared loaded c _ _ _ ih => exact ih.trans (stepShared_startsMatch ih.known _ c)

/-- Where nothing was told of an entry before, its launches and the runs of its body by hand have
started the body, but for the executions that are held back. -/
theorem StartsMatch.launches_started (h : StartsMatch i 0 w w') (hnone : w.history i = [])
    (harises : Moment.Arises ⟨w', none, none⟩) {e : Entry} {job : JobId}
    (he : w'.entries[i]? = some e) (htask : e.task = .body job) :
    launchCount (w'.history i) + handRunCount (w'.history i)
      = startCount (w'.history i) + w'.held.count i := by
  have hcount := h.count (not_isRegistrar_of_body he htask)
  have hbalance : launchCount (w'.history i)
      = completionCount (w'.history i) + Moment.unfinished ⟨w', none, none⟩ i :=
    (harises.exclusive i).1
  -- nothing is in progress between commands
  have hheld : Moment.unfinished ⟨w', none, none⟩ i = w'.held.count i := by
    simp [Moment.unfinished]
  rw [hnone, taskRuns_eq_add (w'.history i)] at hcount
  have hstart : startCount [] = 0 := rfl
  have hruns : taskRuns [] = 0 := rfl
  omega

/-- **The launches of a scheduled job start its body**, in whatever course of commands follows: each
launch, and each run by hand, has started it once, but for the executions that are held back. -/
theorem Course.launches_started {p : World → Prop} (harises : Moment.Arises ⟨w, none, none⟩)
    (hthere : w.timer.isSome = true) (handle : String) (r : Registration) (script : Script)
    (h : (w.schedule handle r none script).Course p w')
    (harises' : Moment.Arises ⟨w', none, none⟩) :
    launchCount (w'.history w.entries.size) + handRunCount (w'.history w.entries.size)
      = startCount (w'.history w.entries.size) + w'.held.count w.entries.size := by
  obtain ⟨t, ht⟩ := Option.isSome_iff_exists.1 hthere
  have hschedule : StartsMatch w.entries.size 0 w (w.schedule handle r none script) :=
    (Performed.schedule handle r none script.outcomes script.rounds).startsMatch harises.jobsKnown
  have hrest : StartsMatch w.entries.size 0 _ w' := h.startsMatch hschedule.known
  have hposts : (w.schedule handle r none script).posts
      = w.posts.push (.body w.jobs.size, t.id) :=
    posts_register (w := w.withJob handle script) ht r (.body w.jobs.size)
  have hsize : w.posts.size = w.entries.size := Array.size_map
  have hpost : (w.schedule handle r none script).posts[w.entries.size]?
      = some (.body w.jobs.size, t.id) := by
    rw [hposts, ← hsize]
    exact Array.getElem?_push_size
  obtain ⟨e, he, hsame⟩ := posts_eq_some.1 (hrest.posts hpost)
  exact (hschedule.trans hrest).launches_started harises.blank.history harises' he
    (congrArg (·.1) hsame)

/-- **Every launch starts its execution.** In whatever world commands lead to, the launches of an
entry and the runs of its body by hand have started the body once each, but for the executions that
are held back. -/
theorem Reachable.launches_started (h : w.Reachable) {e : Entry} {job : JobId}
    (he : w.entries[i]? = some e) (htask : e.task = .body job) :
    launchCount (w.history i) + handRunCount (w.history i)
      = startCount (w.history i) + w.held.count i := by
  have hmatch : ∃ nesting, StartsMatch i 0 { nesting } w := by
    clear he
    induction h with
    | fresh nesting => exact ⟨nesting, .refl fun j post hj => by simp [posts] at hj⟩
    | step c _ ih =>
      obtain ⟨nesting, hbefore⟩ := ih
      exact ⟨nesting, hbefore.trans (step_startsMatch hbefore.known c)⟩
    | stepShared loaded c _ ih =>
      obtain ⟨nesting, hbefore⟩ := ih
      exact ⟨nesting, hbefore.trans (stepShared_startsMatch hbefore.known _ c)⟩
  obtain ⟨nesting, hmatch⟩ := hmatch
  exact hmatch.launches_started rfl h.arises he htask

end

end World

end TimingWheel
