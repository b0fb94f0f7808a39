import TimingWheel.Proofs.Posts
import TimingWheel.Proofs.Settling

/-!
# Jobs that entries schedule

A job that is scheduled with a delay gets an entry whose task is to schedule it, and an entry with
its body only when that task is run. Nothing else schedules the job, so what the history of the one
entry tells accounts for the entries with the body of the job.

* **`World.Registrar`** — an entry whose task schedules a job, and the only one of this kind.
* **`World.Enrols`** — between two worlds as many entries got the body of the job as runs of the
  registrar's task are told, but for a number that were added ahead of what is told.
* **`World.invoke_enrols`** — so it is for every task that is run, by induction on the nesting of
  bodies, and for an execution (`World.execute_enrols`).
* **`World.kept_enrols`**, **`World.step_enrols`** — and for ticks and commands.
* **`World.schedule_registrar`** — a delay makes a registrar of the entry that is added.
-/

namespace TimingWheel

namespace World

/-- The number of the timer that is there. -/
def timerId (w : World) : Option TimerId := w.timer.map (·.id)

theorem Still.timerId {w w' : World} (h : w.Still w') : w'.timerId = w.timerId :=
  h.read fun hworks _ => congrArg (·.1) hworks

theorem hasTimer_of_timerId {w : World} {id : TimerId} (h : w.timerId = some id) :
    w.hasTimer id = true := by
  obtain ⟨t, ht, rfl⟩ := Option.map_eq_some_iff.1 h
  simp [hasTimer, ht]

/-- How often the body of a job was started. -/
def startsOf (w : World) (job : JobId) : Option Nat := w.jobs[job]?.map (·.starts)

/-- An entry of a timer is the one whose task is to schedule a job. -/
structure Registrar (w : World) (id : TimerId) (i : EntryId) (r : Registration) (job : JobId) :
    Prop where
  there : w.timerId = some id
  own : w.posts[i]? = some (.register r job, id)
  sole : ∀ {j : EntryId} {r' : Registration} {owner : TimerId},
    w.posts[j]? = some (.register r' job, owner) → j = i
  known : job < w.jobs.size

/-- Every run of the registrar's task that is told added one entry with the body of the job, and a
number of entries were added ahead of what is told. As long as there is none, the body was not
started. -/
structure Enrols (id : TimerId) (i : EntryId) (r : Registration) (job : JobId) (ahead : Nat)
    (w w' : World) : Prop where
  registrar : w'.Registrar id i r job
  count : (w'.bearers job).length + taskRuns (w.history i)
    = (w.bearers job).length + ahead + taskRuns (w'.history i)
  idle : w'.bearers job = [] → w.bearers job = [] ∧ w'.startsOf job = w.startsOf job

section

variable {id : TimerId} {i : EntryId} {r : Registration} {job : JobId} {n n' : Nat}
  {w w' w'' : World}

theorem Registrar.lt_size (h : w.Registrar id i r job) : i < w.entries.size := by
  obtain ⟨e, he, -⟩ := posts_eq_some.1 h.own
  exact (Array.getElem?_eq_some_iff.1 he).1

/-- An entry stays the registrar where posts and the timer stay and no job goes away. -/
theorem Registrar.keeps (h : w.Registrar id i r job) (hposts : w'.posts = w.posts)
    (hthere : w'.timerId = w.timerId) (hjobs : w.jobs.size ≤ w'.jobs.size) :
    w'.Registrar id i r job where
  there := hthere.trans h.there
  own := by
    rw [hposts]
    exact h.own
  sole hj := by
    rw [hposts] at hj
    exact h.sole hj
  known := Nat.lt_of_lt_of_le h.known hjobs

theorem Enrols.refl (h : w.Registrar id i r job) : Enrols id i r job 0 w w :=
  ⟨h, rfl, fun hnone => ⟨hnone, rfl⟩⟩

/-- What is added ahead on two stretches of time adds up. -/
theorem Enrols.trans (h : Enrols id i r job n w w') (h' : Enrols id i r job n' w' w'') :
    Enrols id i r job (n + n') w w'' := by
  have hcount := h.count
  have hcount' := h'.count
  refine ⟨h'.registrar, by omega, fun hnone => ?_⟩
  obtain ⟨hbefore, hstarts⟩ := h'.idle hnone
  obtain ⟨hstart, hsame⟩ := h.idle hbefore
  exact ⟨hstart, hstarts.trans hsame⟩

/-- Nothing that is done has to do with posts and jobs. -/
theorem Registrar.enrols (h : w.Registrar id i r job) (hkeeps : KeepsPosts i 0 w w')
    (hthere : w'.timerId = w.timerId) (hjobs : w'.jobs = w.jobs) : Enrols id i r job 0 w w' := by
  refine ⟨h.keeps hkeeps.posts hthere (Nat.le_of_eq (by rw [hjobs])), ?_, fun hnone => ?_⟩
  · rw [bearers_of_posts hkeeps.posts, hkeeps.told]
    rfl
  · rw [bearers_of_posts hkeeps.posts] at hnone
    exact ⟨hnone, by rw [startsOf, hjobs, startsOf]⟩

/-- The clockwork of the timer goes on. -/
theorem Registrar.of_clockwork (h : w.Registrar id i r job) {journal : List Event}
    (hquiet : w.Quiet journal) (f : Timer → Timer) (hf : ∀ t, (f t).id = t.id) :
    Enrols id i r job 0 w { w with timer := w.timer.map f, journal } := by
  refine h.enrols (.of_quiet hquiet w.clockUs (w.timer.map f) w.timers) ?_ rfl
  unfold timerId
  cases w.timer with
  | none => rfl
  | some t => exact congrArg some (hf t)

/-- What was added ahead is told. -/
theorem Enrols.tell (h : Enrols id i r job n w w') (hkeeps : KeepsPosts i n w' w'')
    (haside : w'.Aside w'') : Enrols id i r job 0 w w'' := by
  have hcount := h.count
  have htold := hkeeps.told
  refine ⟨h.registrar.keeps hkeeps.posts haside.timerId (Nat.le_of_eq (by rw [haside.jobs])), ?_,
    fun hnone => ?_⟩
  · rw [bearers_of_posts hkeeps.posts]
    omega
  · rw [bearers_of_posts hkeeps.posts] at hnone
    obtain ⟨hstart, hsame⟩ := h.idle hnone
    exact ⟨hstart, by rw [startsOf, haside.jobs]; exact hsame⟩

/-- What was told is added. -/
theorem Enrols.told (h : KeepsPosts i n w w') (haside : w.Aside w')
    (henrols : Enrols id i r job n w' w'') : Enrols id i r job 0 w w'' := by
  have hcount := henrols.count
  have htold := h.told
  rw [bearers_of_posts h.posts] at hcount
  refine ⟨henrols.registrar, by omega, fun hnone => ?_⟩
  obtain ⟨hbefore, hsame⟩ := henrols.idle hnone
  rw [bearers_of_posts h.posts] at hbefore
  exact ⟨hbefore, hsame.trans (by rw [startsOf, haside.jobs, startsOf])⟩

/-- A new entry that is no registrar of the job. -/
theorem Registrar.register (h : w.Registrar id i r job) (r' : Registration) (task : Task)
    (htask : ∀ r'', task ≠ .register r'' job) :
    Enrols id i r job (if task = .body job then 1 else 0) w (w.register r' task) := by
  obtain ⟨t, ht, hid⟩ := Option.map_eq_some_iff.1 h.there
  have haside := register_aside w r' task
  have hposts := posts_register ht r' task
  have hspares := register_spares w (Nat.ne_of_gt h.lt_size) r' task
  have hsize : w.posts.size = w.entries.size := Array.size_map
  have hbearers := bearers_push hposts job
  refine ⟨⟨haside.timerId.trans h.there, ?_, fun {j r'' owner} hj => ?_, ?_⟩, ?_, fun hnone => ?_⟩
  · rw [hposts, Array.getElem?_push, if_neg (by rw [hsize]; exact Nat.ne_of_lt h.lt_size)]
    exact h.own
  · rw [hposts, Array.getElem?_push] at hj
    split at hj
    · have hnew := congrArg (·.1) (Option.some.inj hj)
      exact absurd hnew (htask r'')
    · exact h.sole hj
  · rw [haside.jobs]
    exact h.known
  · rw [hbearers, hspares.history, List.length_append]
    split <;> rfl
  · rw [hbearers] at hnone
    refine ⟨(List.append_eq_nil_iff.1 hnone).1, ?_⟩
    rw [startsOf, haside.jobs, startsOf]

end

/-! ## Every run of the task adds one entry -/

section

variable {id : TimerId} {i : EntryId} {r : Registration} {job : JobId} {w : World}

/-- An action that runs no body adds no entry with the body of the job: a job that it schedules is
another one. -/
theorem Performed.enrols {w' : World} {a : Action} (h : Performed w a w')
    (hw : w.Registrar id i r job) : Enrols id i r job 0 w w' := by
  cases h with
  | nothing => exact .refl hw
  | control handle j e c runTask known plain =>
    have haside := control_aside plain runTask w j e
    exact hw.enrols (.control plain runTask w j e) haside.timerId haside.jobs
  | handles => exact hw.enrols (.of_same rfl rfl) rfl rfl
  | schedule handle r' delayMs outcomes rounds =>
    obtain ⟨r'', task, handles, htask, heq⟩ := w.schedule_eq_job handle r' delayMs
      { outcomes, rounds }
    -- the job that is scheduled is a new one, so its number is not the one that is counted
    have hne : task.job ≠ job := by
      rw [htask]
      exact Nat.ne_of_gt hw.known
    have hjob : (w.withJob handle { outcomes, rounds }).Registrar id i r job :=
      hw.keeps rfl rfl (by
        show w.jobs.size ≤ (w.jobs.push _).size
        rw [Array.size_push]
        exact Nat.le_succ _)
    have hregister := hjob.register r'' task fun r₀ htask' => hne (by rw [htask']; rfl)
    rw [if_neg (fun htask' => hne (by rw [htask']; rfl))] at hregister
    rw [heq]
    refine ⟨⟨hregister.registrar.there, hregister.registrar.own, hregister.registrar.sole,
      hregister.registrar.known⟩, hregister.count, fun hnone => ?_⟩
    obtain ⟨hbefore, hstarts⟩ := hregister.idle hnone
    refine ⟨hbefore, hstarts.trans ?_⟩
    show (w.jobs.push _)[job]?.map _ = _
    rw [Array.getElem?_push, if_neg (Nat.ne_of_lt hw.known), startsOf]
  | timer t c there =>
    obtain ⟨status, journal, hquiet, heq⟩ := controlTimer_eq w there c
    rw [heq]
    refine hw.enrols (.of_quiet hquiet w.clockUs _ w.timers) ?_ rfl
    simp only [timerId, there, Option.map_some]
  | jump us => exact hw.enrols (.of_same rfl rfl) rfl rfl
  | hold on => exact hw.enrols (.of_same rfl rfl) rfl rfl
  | coarseFirst on => exact hw.enrols (.of_same rfl rfl) rfl rfl

section

variable {runTask : EntryId → World → Outcome × World}

/-- An action adds what its run by hand adds, and that run is told of. -/
theorem perform_enrols
    (hrun : ∀ j {w : World}, w.Registrar id i r job →
      Enrols id i r job (if j = i then 1 else 0) w (runTask j w).2)
    (hw : w.Registrar id i r job) (a : Action) :
    Enrols id i r job 0 w (w.perform runTask a).2 := by
  by_cases plain : ∀ handle, a ≠ .control handle .run
  · exact (performed_perform plain runTask w).enrols hw
  · obtain ⟨handle, hhandle⟩ := Classical.not_forall.1 plain
    rw [Classical.not_not.1 hhandle]
    simp only [perform, withEntry]
    cases w.lookup handle with
    | none => exact .refl hw
    | some j =>
      cases he : w.entries[j]? with
      | none => simp only [he]; exact .refl hw
      | some e =>
        simp only [he]
        -- a run by hand is told of before the task is run
        have htell : KeepsPosts i (0 + if j = i then 1 else 0) w (w.tell (.controlled j .run)) :=
          (KeepsPosts.refl w).tell_run rfl rfl
        rw [Nat.zero_add] at htell
        have haside := w.tell_aside (.controlled j .run)
        exact .told htell haside (hrun j (hw.keeps htell.posts haside.timerId (Nat.le_refl _)))

/-- The actions of a round, one after the other. Induction on the round. -/
theorem round_enrols
    (hrun : ∀ j {w : World}, w.Registrar id i r job →
      Enrols id i r job (if j = i then 1 else 0) w (runTask j w).2) (round : List Action) :
    ∀ {w : World}, w.Registrar id i r job →
      Enrols id i r job 0 w (round.foldl (fun w a => (w.perform runTask a).2) w) := by
  induction round with
  | nil => exact fun hw => .refl hw
  | cons a rest ih =>
    intro w hw
    have hfirst := perform_enrols hrun hw a
    exact hfirst.trans (ih hfirst.registrar)

end

/-- The body of another job starts, or that of this one, which has an entry then. -/
theorem Registrar.beginBody (hw : w.Registrar id i r job) {j : EntryId} {e : Entry} {job' : JobId}
    (he : w.entries[j]? = some e) (htask : e.task = .body job') (label : String) :
    Enrols id i r job 0 w (w.beginBody j job' label) := by
  have hposts : (w.beginBody j job' label).posts = w.posts := rfl
  refine ⟨hw.keeps hposts rfl (Nat.le_of_eq Array.size_modify.symm), ?_, fun hnone => ?_⟩
  · rw [bearers_of_posts hposts, w.taskRuns_beginBody]
    rfl
  · rw [bearers_of_posts hposts] at hnone
    refine ⟨hnone, ?_⟩
    have hne : job' ≠ job := by
      rintro rfl
      have hj : j ∈ w.bearers job' := mem_bearers.2 ⟨e, he, htask⟩
      rw [hnone] at hj
      simp at hj
    have hsame : (w.beginBody j job' label).jobs[job]? = w.jobs[job]? :=
      Array.getElem?_modify.trans (if_neg hne)
    rw [startsOf, hsame, startsOf]

/-- The end of a body changes nothing about posts. -/
theorem Enrols.conclude {n : Nat} {w' : World} (h : Enrols id i r job n w w') (j : EntryId)
    (outcome : Outcome) : Enrols id i r job n w (w'.conclude j outcome) := by
  have haside := conclude_aside w' j outcome
  exact h.trans (h.registrar.enrols (.conclude w' j outcome) haside.timerId haside.jobs)

/-- The task of one entry, if the rounds of its body do as they should: that of the registrar adds
one entry with the body of the job, and any other adds none. -/
theorem invoke_enrols_of_round {nesting : Nat}
    (hround : ∀ (round : List Action) {w : World}, w.Registrar id i r job →
      Enrols id i r job 0 w
        (match nesting with
          | 0 => w
          | n + 1 => round.foldl (fun w a => (w.perform (invoke n) a).2) w))
    (j : EntryId) (hw : w.Registrar id i r job) :
    Enrols id i r job (if j = i then 1 else 0) w (invoke nesting j w).2 := by
  obtain ⟨own, hown, hpost⟩ := posts_eq_some.1 hw.own
  unfold invoke
  by_cases hji : j = i
  · -- the task of the registrar schedules the job
    subst hji
    have htask : own.task = .register r job := congrArg (·.1) hpost
    have howner : own.owner = id := congrArg (·.2) hpost
    rw [hown]
    simp only [htask, howner, hasTimer_of_timerId hw.there]
    have hregister := hw.register r (.body job) fun _ => by simp
    rw [if_pos rfl] at hregister
    exact hregister
  · rw [if_neg hji]
    cases he : w.entries[j]? with
    | none => exact .refl hw
    | some e =>
      cases htask : e.task with
      | register r' job' =>
        simp only [htask]
        -- only the registrar schedules the job, so another registrar schedules another one
        have hne : job' ≠ job := by
          rintro rfl
          exact hji (hw.sole (posts_eq_some.2 ⟨e, he, Prod.ext htask rfl⟩))
        split
        · have hregister := hw.register r' (.body job') fun _ => by simp
          rw [if_neg (fun hsame => hne (Task.body.inj hsame))] at hregister
          exact hregister
        · exact .refl hw
      | body job' =>
        simp only [htask]
        cases hjob : w.jobs[job']? with
        | none => exact .refl hw
        | some found =>
          have hbegin := hw.beginBody he htask found.label
          have hacts := hround (found.script.round found.starts) hbegin.registrar
          exact (hbegin.trans hacts).conclude j _

/-- **Every run of the registrar's task adds one entry with the body of the job**, and no other task
adds one. -/
theorem invoke_enrols (nesting : Nat) : ∀ (j : EntryId) {w : World}, w.Registrar id i r job →
    Enrols id i r job (if j = i then 1 else 0) w (invoke nesting j w).2 := by
  -- the innermost bodies perform no actions
  induction nesting with
  | zero =>
    intro j w hw
    exact @invoke_enrols_of_round id i r job w 0 (fun round w hw => .refl hw) j hw
  | succ n ih =>
    intro j w hw
    exact @invoke_enrols_of_round id i r job w (n + 1) (fun round w hw => round_enrols ih round hw)
      j hw

/-- An execution tells of the run that it was, so in the end nothing is ahead. -/
theorem execute_enrols (hw : w.Registrar id i r job) (j : EntryId) :
    Enrols id i r job 0 w (w.execute j).2 := by
  have hinvoke := invoke_enrols w.nesting j hw
  exact hinvoke.tell (.complete fun _ => hinvoke.registrar.lt_size) (complete_aside _ j)

/-! ## Ticks and commands -/

/-- What a tick does with one entry. Launches tell of the run before it is made, and what comes
after the body has nothing to do with posts. -/
theorem dispatch_enrols (hw : w.Registrar id i r job) (level tick nowMs : Nat) (j : EntryId) :
    Enrols id i r job 0 w (w.dispatch level tick nowMs j) := by
  cases he : w.entries[j]? with
  | none =>
    have hsame : w.dispatch level tick nowMs j = w := by simp only [dispatch, he]
    rw [hsame]
    exact .refl hw
  | some e =>
    -- a launch may run the registrar itself; any other verdict runs nothing
    by_cases hruns : ∃ last e', e.evaluate nowMs = (.run last, e')
    · obtain ⟨last, e', hlast⟩ := hruns
      let s : Sweep := { level, tick, nowMs, waiting := [] }
      have hpost : e'.post = e.post := by
        have hlook := e.post_evaluate nowMs
        rwa [hlast] at hlook
      have hlaunch : Enrols id i r job 0 w (w.launching s j last e') := by
        refine hw.enrols (.launching s he hpost last) ?_ ?_ <;>
          · unfold launching
            simp only
            split <;> rfl
      have hback {w' : World} (h : Enrols id i r job 0 w w') :
          Enrols id i r job 0 w (w'.puttingBack nowMs j last) := by
        have haside := puttingBack_aside w' nowMs j last
        exact h.trans
          (h.registrar.enrols (.puttingBack w' nowMs j last) haside.timerId haside.jobs)
      rw [dispatch_of_run s he hlast]
      split
      · exact hback hlaunch
      · exact hback (hlaunch.trans (execute_enrols hlaunch.registrar j))
    · have rests : ∀ last, (e.evaluate nowMs).1 ≠ .run last := fun last hlast =>
        hruns ⟨last, (e.evaluate nowMs).2, Prod.ext hlast rfl⟩
      have haside := dispatch_aside he rests level tick
      exact hw.enrols (.dispatch he rests level tick) haside.timerId haside.jobs

/-- **While time passes every run of the registrar's task adds one entry**, and nothing else adds
one. -/
theorem kept_enrols (w₀ : World) : Kept (Enrols id i r job 0 w₀) where
  dispatch level tick nowMs j h := h.trans (dispatch_enrols h.registrar level tick nowMs j)
  drained {w} level wheel h := by
    obtain ⟨journal, hquiet, heq⟩ := w.drained_eq level wheel
    rw [heq]
    exact h.trans (h.registrar.of_clockwork hquiet (·.modifyWheel level Wheel.comeRound)
      fun _ => rfl)
  serve {w} level h := by
    rw [w.serve_eq]
    exact h.trans (h.registrar.of_clockwork w.quiet_refl
      (·.modifyWheel level fun wheel => { wheel with served := wheel.served + 1 }) fun _ => rfl)
  clock {w} us h := by
    have hclock : Enrols id i r job 0 w { w with clockUs := us } :=
      h.registrar.enrols (.of_same rfl rfl) rfl rfl
    exact h.trans hclock

theorem settle_enrols (hw : w.Registrar id i r job) : Enrols id i r job 0 w w.settle :=
  (kept_enrols w).settleWithin _ (.refl hw)

/-- A command that leaves the timer alone. -/
theorem step_enrols (hw : w.Registrar id i r job) {c : Command} (hc : c.Steady) :
    -- a steady command neither makes a timer nor drops it, so what is left are actions and time
    Enrols id i r job 0 w (w.step c).2 := by
  have hsame : Enrols id i r job 0 w w := .refl hw
  cases c with
  | act a => exact perform_enrols (fun j _ hw => invoke_enrols w.nesting j hw) hw a
  | create config =>
    simp only [step, create]
    split
    · exact hsame
    · next hvalid => exact absurd hvalid hc
  | dropTimer => exact hc.elim
  | dumpTimer =>
    simp only [step]
    split <;> exact hsame
  | timerStats =>
    simp only [step]
    split <;> exact hsame
  | touch => exact hsame
  | advance us => exact (kept_enrols w).advance hsame us
  | finish n =>
    simp only [step, finish]
    split
    · exact hsame
    · next j hj =>
      have htake : Enrols id i r job 0 w { w with held := w.held.eraseIdx n } :=
        hw.enrols (.of_same rfl rfl) rfl rfl
      exact htake.trans (execute_enrols htake.registrar j)
  | unsupported => exact hsame

end

/-! ## A delay -/

/-- **A delay makes a registrar of the entry that is added.** Nothing has come of it yet. -/
theorem schedule_registrar {id : TimerId} {w : World} (harises : Moment.Arises ⟨w, none, none⟩)
    (hthere : w.timerId = some id) (handle : String) (r : Registration) (delayMs : Nat)
    (script : Script) :
    (w.schedule handle r (some delayMs) script).Registrar id w.entries.size r w.jobs.size
      ∧ (w.schedule handle r (some delayMs) script).bearers w.jobs.size = []
      ∧ (w.schedule handle r (some delayMs) script).startsOf w.jobs.size = some 0
      ∧ taskRuns ((w.schedule handle r (some delayMs) script).history w.entries.size) = 0 := by
  obtain ⟨t, ht, rfl⟩ := Option.map_eq_some_iff.1 hthere
  have haside := register_aside (w.withJob handle script) (.once delayMs) (.register r w.jobs.size)
  have hjobs : (w.schedule handle r (some delayMs) script).jobs
      = w.jobs.push { label := handle, script } := haside.jobs
  have hposts : (w.schedule handle r (some delayMs) script).posts
      = w.posts.push (.register r w.jobs.size, t.id) :=
    posts_register (w := w.withJob handle script) ht (.once delayMs) (.register r w.jobs.size)
  have hsize : w.posts.size = w.entries.size := Array.size_map
  -- the job is new, so no older entry has to do with it
  have hold {j : EntryId} {post : Task × TimerId} (hj : w.posts[j]? = some post) :
      post.1.job ≠ w.jobs.size := Nat.ne_of_lt (harises.jobsKnown hj)
  refine ⟨⟨?_, ?_, fun {j r' owner} hj => ?_, ?_⟩, ?_, ?_, ?_⟩
  · exact haside.timerId.trans hthere
  · rw [hposts, ← hsize]
    exact Array.getElem?_push_size
  · rw [hposts, Array.getElem?_push] at hj
    split at hj
    · next hlast => exact hlast.trans hsize
    · exact absurd rfl (hold hj)
  · rw [hjobs, Array.size_push]
    exact Nat.lt_succ_self _
  · rw [bearers_push hposts, if_neg nofun, List.append_nil, List.eq_nil_iff_forall_not_mem]
    intro j hj
    obtain ⟨e, he, htask⟩ := mem_bearers.1 hj
    refine hold (posts_eq_some.2 ⟨e, he, rfl⟩) ?_
    rw [Entry.post, htask]
    rfl
  · rw [startsOf, hjobs, Array.getElem?_push_size]
    rfl
  · have hpage := @World.page_register (w.withJob handle script) t ht harises.blank.history
      (.once delayMs) (.register r w.jobs.size)
    exact congrArg taskRuns (page_eq_some.1 hpage).2.1.symm

end World

end TimingWheel
