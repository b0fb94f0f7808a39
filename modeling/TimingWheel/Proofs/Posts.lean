import TimingWheel.Proofs.Record
import TimingWheel.Proofs.Tally

/-!
# What entries are there for

An entry has one task and one timer for good. So the entries with the body of a job are told by the
posts that were filled, and there are two ways to fill one: somebody schedules a job, or the task of
an entry schedules one.

* **`World.posts`**, **`World.bearers`** — what the entries are there for, and the entries with the
  body of a job.
* **`World.KeepsPosts`** — operations that fill no post and start no body. There is one lemma for
  each of them, which also says how often it tells that the task of an entry was run.
* **`Move.postsStep`** — what a move does to the posts.
* **`Moves.enrolled`** — how an entry came into being that has the body of an older job.
-/

namespace TimingWheel

/-! ## What is told of a task -/

/-- Whether an event tells that the task of an entry was run: an execution of it has ended, or
somebody runs it by hand. -/
def Event.runsTask : Event → Bool
  | .completed _ => true
  | .controlled _ .run => true
  | _ => false

/-- How often the task of an entry was run, as its history tells. -/
def taskRuns (history : List Event) : Nat := history.countP Event.runsTask

/-- Whether an event tells that a body starts. -/
def Event.isStart : Event → Bool
  | .started .. => true
  | _ => false

/-- How often the body of an entry started, as its history tells. -/
def startCount (history : List Event) : Nat := history.countP Event.isStart

theorem startCount_cons_of_false {ev : Event} (h : ev.isStart = false) (history : List Event) :
    startCount (ev :: history) = startCount history := by
  rw [startCount, List.countP_cons_of_neg (by simp [h]), startCount]

/-- What tells that a task was run tells of its end, or of whoever runs it. -/
theorem Event.not_start_of_runsTask {ev : Event} (h : ev.runsTask = true) :
    ev.isStart = false := by
  cases ev with
  | started i job label clockUs => simp [runsTask] at h
  | _ => rfl

theorem taskRuns_cons_of_false {ev : Event} (h : ev.runsTask = false) (history : List Event) :
    taskRuns (ev :: history) = taskRuns history := by
  rw [taskRuns, List.countP_cons_of_neg (by simp [h]), taskRuns]

theorem taskRuns_cons_of_true {ev : Event} (h : ev.runsTask = true) (history : List Event) :
    taskRuns (ev :: history) = taskRuns history + 1 := by
  rw [taskRuns, List.countP_cons_of_pos h, taskRuns]

/-- Where nobody ran the task by hand, it was run in the executions that have ended. -/
theorem taskRuns_eq_completionCount {history : List Event}
    (h : ∀ ev ∈ history, ∀ i, ev ≠ .controlled i .run) :
    taskRuns history = completionCount history := by
  refine List.countP_congr fun ev hev => ?_
  cases ev with
  | controlled i c =>
    cases c with
    | run => exact absurd rfl (h _ hev i)
    | _ => exact Iff.rfl
  | _ => exact Iff.rfl

/-! ## Posts -/

/-- What an entry is there for, and the timer that it was scheduled on. -/
def Entry.post (e : Entry) : Task × TimerId := (e.task, e.owner)

/-- The job that a task is about. -/
def Task.job : Task → JobId
  | .body job => job
  | .register _ job => job

namespace Entry

@[simp] theorem post_evaluate (e : Entry) (nowMs : Nat) : (e.evaluate nowMs).2.post = e.post :=
  Prod.ext (e.task_evaluate nowMs) (owner_of_seat (e.seat_evaluate nowMs))

@[simp] theorem post_complete (e : Entry) : e.complete.post = e.post :=
  Prod.ext e.task_complete (owner_of_seat e.seat_complete)

@[simp] theorem post_stop (e : Entry) : e.stop.post = e.post := by
  unfold stop
  split <;> rfl

@[simp] theorem post_start (e : Entry) : e.start.post = e.post := by
  unfold start
  split <;> rfl

/-- What becomes of an entry leaves its task and its timer. -/
theorem Becomes.post {i : EntryId} {e e' : Entry} {ev : Event} (h : e.Becomes i ev e') :
    e'.post = e.post := by
  cases h with
  | controlled c =>
    cases c with
    | stop => exact e.post_stop
    | start => exact e.post_start
    | _ => rfl
  | exited => rfl
  | completed flying => exact e.post_complete
  | looked level tick nowMs => exact e.post_evaluate nowMs

end Entry

/-- Whatever happens to an entry, it keeps its post. -/
theorem Page.Undergoes.post {i : EntryId} {p p' : Page} (h : p.Undergoes i p') :
    p'.entry.post = p.entry.post := by
  have hterms {e e' : Entry} (hsame : e'.terms = e.terms) : e'.post = e.post := by
    have hposts := congrArg Entry.post hsame
    exact hposts
  cases h with
  | calm same told => exact hterms same
  | event ev e becomes same told => exact (hterms same).trans becomes.post

namespace World

/-- What the entries are there for. -/
def posts (w : World) : Array (Task × TimerId) := w.entries.map Entry.post

/-- The entries with the body of a job. -/
def bearers (w : World) (job : JobId) : List EntryId :=
  (List.range w.posts.size).filter fun j => w.posts[j]?.any (·.1 = .body job)

/-- A post is that of an entry. -/
theorem posts_eq_some {w : World} {j : EntryId} {post : Task × TimerId} :
    w.posts[j]? = some post ↔ ∃ e, w.entries[j]? = some e ∧ e.post = post := by
  rw [posts, Array.getElem?_map, Option.map_eq_some_iff]

/-- Those with the body of a job are the entries whose task it is. -/
theorem mem_bearers {w : World} {job : JobId} {j : EntryId} :
    j ∈ w.bearers job ↔ ∃ e, w.entries[j]? = some e ∧ e.task = .body job := by
  unfold bearers
  rw [List.mem_filter, List.mem_range, posts, Array.getElem?_map, Array.size_map]
  constructor
  · rintro ⟨-, hbody⟩
    obtain ⟨post, hpost, htask⟩ := (Option.any_eq_true _ _).1 hbody
    obtain ⟨e, he, rfl⟩ := Option.map_eq_some_iff.1 hpost
    exact ⟨e, he, of_decide_eq_true htask⟩
  · rintro ⟨e, he, htask⟩
    refine ⟨(Array.getElem?_eq_some_iff.1 he).1, ?_⟩
    rw [he]
    exact decide_eq_true htask

/-- The posts decide who has the body of a job. -/
theorem bearers_of_posts {w w' : World} (h : w'.posts = w.posts) (job : JobId) :
    w'.bearers job = w.bearers job := by
  rw [bearers, bearers, h]

/-- A new entry bears the job if it has the job's body. -/
theorem bearers_push {w w' : World} {post : Task × TimerId} (h : w'.posts = w.posts.push post)
    (job : JobId) : w'.bearers job
      = w.bearers job ++ if post.1 = .body job then [w.posts.size] else [] := by
  have hold : (List.range w.posts.size).filter (fun j => w'.posts[j]?.any (·.1 = .body job))
      = w.bearers job := by
    refine List.filter_congr fun j hj => ?_
    rw [h, Array.getElem?_push, if_neg (Nat.ne_of_lt (List.mem_range.1 hj))]
  have hnew : w'.posts[w.posts.size]? = some post := by
    rw [h]
    exact Array.getElem?_push_size
  rw [bearers, h, Array.size_push, List.range_succ, List.filter_append, ← h, hold,
    List.filter_singleton, hnew]
  simp

/-- A change of an entry that leaves its post leaves all posts. -/
theorem posts_modify (w : World) (i : EntryId) {f : Entry → Entry}
    (hf : ∀ e, w.entries[i]? = some e → (f e).post = e.post) :
    (w.entries.modify i f).map Entry.post = w.posts := by
  apply Array.ext_getElem?
  intro j
  rw [posts, Array.getElem?_map, Array.getElem?_map]
  exact map_getElem?_modify hf j

/-! ## Operations that leave the posts alone -/

/-- Every entry keeps its post. What is told goes on, with a number of runs of the task of one
entry and with no start of its body. -/
structure KeepsPosts (i : EntryId) (n : Nat) (w w' : World) : Prop where
  posts : w'.posts = w.posts
  grows : w.journal <:+ w'.journal
  told : taskRuns (w'.history i) = taskRuns (w.history i) + n
  startless : startCount (w'.history i) = startCount (w.history i)

namespace KeepsPosts

variable {i : EntryId} {n n' : Nat} {w w' w'' : World}

theorem refl (w : World) : KeepsPosts i 0 w w := ⟨rfl, List.suffix_rfl, rfl, rfl⟩

/-- Neither the entries nor the journal change. -/
theorem of_same (hentries : w'.entries = w.entries) (hjournal : w'.journal = w.journal) :
    KeepsPosts i 0 w w' := by
  have hhistory : w'.history i = w.history i := congrArg (·.filter (·.about == some i)) hjournal
  exact ⟨congrArg (·.map Entry.post) hentries, ⟨[], hjournal.symm⟩, congrArg taskRuns hhistory,
    congrArg startCount hhistory⟩

/-- What is told besides runs and starts. -/
theorem tell (h : KeepsPosts i n w w') {ev : Event} (hev : ev.runsTask = false)
    (hstart : ev.isStart = false) : KeepsPosts i n w (w'.tell ev) := by
  refine ⟨h.posts, h.grows.trans (List.suffix_cons ev _), ?_, ?_⟩
  · rw [history_tell]
    split
    · rw [taskRuns_cons_of_false hev]
      exact h.told
    · exact h.told
  · rw [history_tell]
    split
    · rw [startCount_cons_of_false hstart]
      exact h.startless
    · exact h.startless

/-- It is told of a run, of this entry or of another one. -/
theorem tell_run (h : KeepsPosts i n w w') {ev : Event} (hev : ev.runsTask = true) {j : EntryId}
    (habout : ev.about = some j) :
    KeepsPosts i (n + if j = i then 1 else 0) w (w'.tell ev) := by
  refine ⟨h.posts, h.grows.trans (List.suffix_cons ev _), ?_, ?_⟩
  · rw [history_tell, habout]
    by_cases hij : j = i
    · rw [if_pos (by simp [hij]), if_pos hij, taskRuns_cons_of_true hev, h.told, Nat.add_assoc]
    · rw [if_neg (by simp [hij]), if_neg hij, h.told, Nat.add_zero]
  · rw [history_tell]
    split
    · rw [startCount_cons_of_false (Event.not_start_of_runsTask hev)]
      exact h.startless
    · exact h.startless

theorem log (h : KeepsPosts i n w w') (line : LogLine) : KeepsPosts i n w (w'.log line) :=
  h.tell rfl rfl

theorem modifyEntry (h : KeepsPosts i n w w') (j : EntryId) {f : Entry → Entry}
    (hf : ∀ e, w'.entries[j]? = some e → (f e).post = e.post) :
    KeepsPosts i n w (w'.modifyEntry j f) :=
  ⟨(w'.posts_modify j hf).trans h.posts, h.grows, h.told, h.startless⟩

theorem place (h : KeepsPosts i n w w') (j : EntryId) : KeepsPosts i n w (w'.place j) := by
  unfold World.place
  split
  · exact ⟨(w'.posts_modify j fun _ _ => by rfl).trans h.posts, h.grows, h.told, h.startless⟩
  · exact h

theorem reinstall (h : KeepsPosts i n w w') (j : EntryId) : KeepsPosts i n w (w'.reinstall j) := by
  unfold World.reinstall
  split
  · exact h
  · split
    · exact ((h.modifyEntry j fun _ _ => by rfl).log _).place j
    · exact h

theorem release (h : KeepsPosts i n w w') (j : EntryId) : KeepsPosts i n w (w'.release j) := by
  have hgive := h.modifyEntry j (f := (·.release)) fun _ _ => by rfl
  unfold World.release
  simp only
  split
  · exact hgive
  · split
    · exact hgive.reinstall j
    · exact hgive

/-- Controls of an entry other than `run` fill no post and run no task. -/
theorem control {c : Control} (hc : c ≠ .run) (runTask : EntryId → World → Outcome × World)
    (w : World) (j : EntryId) (e : Entry) : KeepsPosts i 0 w (w.control runTask j e c).2 := by
  have hidle : (Event.controlled j c).runsTask = false := by
    cases c with
    | run => exact absurd rfl hc
    | _ => rfl
  have htell : KeepsPosts i 0 w (w.tell (.controlled j c)) := (refl w).tell hidle rfl
  cases c with
  | stop =>
    simp only [World.control, stopEntry]
    split
    · exact htell
    · exact (htell.modifyEntry j fun e _ => e.post_stop).log _
  | start =>
    simp only [World.control, startEntry]
    split
    · exact ((htell.modifyEntry j fun e _ => e.post_start).log _).reinstall j
    · exact htell
  | reset => exact ((htell.modifyEntry j fun _ _ => by rfl).log _).reinstall j
  | close =>
    simp only [World.control, closeEntry]
    split
    · exact htell
    · exact (htell.modifyEntry j fun _ _ => by rfl).log _
  | run => exact absurd rfl hc
  | setRuns runs => exact htell.modifyEntry j fun _ _ => by rfl
  | setSingleton on => exact htell.modifyEntry j fun _ _ => by rfl

theorem conclude (w : World) (j : EntryId) (outcome : Outcome) :
    KeepsPosts i 0 w (w.conclude j outcome) := by
  cases outcome with
  | exit => exact ((refl w).modifyEntry j fun _ _ => by rfl).log _
  | failed reason => exact (refl w).log _
  | done => exact refl w
  | crashed => exact refl w

theorem complete {j : EntryId} (hi : j = i → i < w.entries.size) :
    KeepsPosts i (if j = i then 1 else 0) w (w.complete j) := by
  have hend : KeepsPosts i (0 + if j = i then 1 else 0) w
      ((w.modifyEntry j (·.complete)).tell (.completed j)) :=
    ((refl w).modifyEntry j fun e _ => e.post_complete).tell_run rfl rfl
  have hnone : w.entries[j]? = none → (if j = i then 1 else 0) = 0 := by
    intro hnone
    refine if_neg fun hji => absurd (hi hji) (Nat.not_lt.2 ?_)
    rw [← hji]
    exact Array.getElem?_eq_none_iff.1 hnone
  rw [Nat.zero_add] at hend
  generalize (if j = i then 1 else 0) = n at hend hnone ⊢
  unfold World.complete
  split
  · next hunknown =>
    rw [hnone hunknown]
    exact refl w
  · simp only
    split
    · exact hend.log _
    · exact hend

/-- What a tick does with an entry after its launch fills no post. -/
theorem puttingBack (w : World) (nowMs : Nat) (j : EntryId) (last : Bool) :
    KeepsPosts i 0 w (w.puttingBack nowMs j last) := by
  unfold World.puttingBack
  split
  · exact (refl w).release j
  · exact ((refl w).modifyEntry j fun _ _ => by rfl).place j

/-- A launch fills no post, and the run is told only when it has ended. -/
theorem launching (s : Sweep) {j : EntryId} {e e' : Entry} (he : w.entries[j]? = some e)
    (hpost : e'.post = e.post) (last : Bool) : KeepsPosts i 0 w (w.launching s j last e') := by
  have hlook : KeepsPosts i 0 w
      ((w.modifyEntry j fun _ => e').tell (.evaluated j s.level s.tick s.nowMs (.run last))) := by
    refine ((refl w).modifyEntry j fun e₀ he₀ => ?_).tell rfl rfl
    rw [Option.some.inj (he₀.symm.trans he)]
    exact hpost
  unfold World.launching
  simp only
  split
  · exact ⟨hlook.posts, hlook.grows, hlook.told, hlook.startless⟩
  · exact hlook

/-- What a tick does with an entry that is not to run fills no post. -/
theorem dispatch {j : EntryId} {e : Entry} {nowMs : Nat} (he : w.entries[j]? = some e)
    (rests : ∀ last, (e.evaluate nowMs).1 ≠ .run last) (level tick : Nat) :
    KeepsPosts i 0 w (w.dispatch level tick nowMs j) := by
  have hlook (verdict : Verdict) : KeepsPosts i 0 w
      ((w.modifyEntry j fun _ => (e.evaluate nowMs).2).tell
        (.evaluated j level tick nowMs verdict)) := by
    refine ((refl w).modifyEntry j fun e₀ he₀ => ?_).tell rfl rfl
    rw [Option.some.inj (he₀.symm.trans he)]
    exact e.post_evaluate nowMs
  unfold World.dispatch
  rw [he]
  simp only
  cases hv : (e.evaluate nowMs).1 with
  | drop => exact (hlook _).release j
  | wait => exact (hlook _).place j
  | skip => exact ((hlook _).modifyEntry j fun _ _ => by rfl).place j
  | run last => exact absurd hv (rests last)

/-- What is told of no entry leaves the posts, the timer and the clock aside. -/
theorem of_quiet {journal : List Event} (h : w.Quiet journal) (clockUs : Nat)
    (timer : Option Timer) (timers : Nat) :
    KeepsPosts i 0 w { w with clockUs, timer, timers, journal } := by
  have hsame := (h.spares (i := i) clockUs timer timers).history
  obtain ⟨events, -, rfl⟩ := h
  exact ⟨rfl, ⟨events, rfl⟩, congrArg taskRuns hsame, congrArg startCount hsame⟩

end KeepsPosts

/-- The start of a body is told, and it is no run of a task yet. -/
theorem history_beginBody (w : World) (i j : EntryId) (job : JobId) (label : String) :
    (w.beginBody j job label).history i
      = if j = i then .started j job label w.clockUs :: w.history i else w.history i := by
  show (w.tell (.started j job label w.clockUs)).history i = _
  rw [history_tell]
  by_cases hij : j = i
  · rw [if_pos (by simp [Event.about, hij]), if_pos hij]
  · rw [if_neg (by simp [Event.about, hij]), if_neg hij]

/-- A body that starts tells of no run: it is its end that does. -/
theorem taskRuns_beginBody (w : World) (i j : EntryId) (job : JobId) (label : String) :
    taskRuns ((w.beginBody j job label).history i) = taskRuns (w.history i) := by
  rw [history_beginBody]
  split
  · exact taskRuns_cons_of_false rfl _
  · rfl

/-! ## New posts -/

/-- An entry is added, and nothing is told of it but a line of the log. -/
theorem keepsPosts_register {w : World} {t : Timer} (ht : w.timer = some t) (r : Registration)
    (task : Task) : ∃ e : Entry, e.post = (task, t.id)
      ∧ ∀ i, KeepsPosts i 0 { w with entries := w.entries.push e } (w.register r task) := by
  unfold register
  split
  · next hnone => exact absurd (ht.symm.trans hnone) nofun
  · next t' ht' =>
    obtain rfl : t = t' := Option.some.inj (ht.symm.trans ht')
    simp only
    split
    · exact ⟨_, rfl, fun i => (KeepsPosts.refl _).log _⟩
    · exact ⟨_, rfl, fun i => ((KeepsPosts.refl _).place _).log _⟩

/-- An entry that is added fills one post, for the timer that is there. -/
theorem posts_register {w : World} {t : Timer} (ht : w.timer = some t) (r : Registration)
    (task : Task) : (w.register r task).posts = w.posts.push (task, t.id) := by
  obtain ⟨e, hpost, hkeeps⟩ := keepsPosts_register ht r task
  rw [(hkeeps 0).posts, posts, Array.map_push, hpost, posts]

/-- What is scheduled is a new job, or an entry that schedules it. -/
theorem schedule_eq_job (w : World) (handle : String) (r : Registration) (delayMs : Option Nat)
    (script : Script) : ∃ (r' : Registration) (task : Task) (handles : List (String × EntryId)),
      task.job = w.jobs.size ∧ w.schedule handle r delayMs script
        = { (w.withJob handle script).register r' task with handles := handles } := by
  unfold schedule
  cases delayMs with
  | none => exact ⟨r, .body w.jobs.size, _, rfl, rfl⟩
  | some delay => exact ⟨.once delay, .register r w.jobs.size, _, rfl, rfl⟩

end World

/-! ## The moment at which an entry comes into being -/

/-- What happens to the posts from one moment to the next. -/
inductive Moment.PostsStep (m m' : Moment) : Prop where
  | keeps (posts : m'.world.posts = m.world.posts) (jobs : m.world.jobs.size ≤ m'.world.jobs.size)
  /-- A new job is scheduled. -/
  | schedules (task : Task) (owner : TimerId)
      (posts : m'.world.posts = m.world.posts.push (task, owner))
      (fresh : task.job = m.world.jobs.size) (jobs : m.world.jobs.size < m'.world.jobs.size)
  /-- The task of an entry schedules a job. -/
  | enrolls (i : EntryId) (e : Entry) (r : Registration) (job : JobId)
      (known : m.world.entries[i]? = some e) (task : e.task = .register r job)
      (there : m.world.hasTimer e.owner = true)
      (next : m' = { m with world := m.world.register r (.body job) })

section

variable {law : Law} {m m' : Moment}

/-- An operation that leaves the posts and the jobs alone. -/
theorem Moment.PostsStep.of_keeps {i : EntryId} (h : World.KeepsPosts i 0 m.world m'.world)
    (haside : m.world.Aside m'.world) : m.PostsStep m' :=
  .keeps h.posts (Nat.le_of_eq (by rw [haside.jobs]))

/-- An action fills a post only if it schedules a job. -/
theorem World.Performed.postsStep {w w' : World} {a : Action} (h : Performed w a w')
    (sweep : Option Sweep) (executing : Option EntryId) :
    Moment.PostsStep ⟨w, sweep, executing⟩ ⟨w', sweep, executing⟩ := by
  have hsame : w.jobs.size ≤ w.jobs.size := Nat.le_refl _
  cases h with
  | control handle j e c runTask known plain =>
    exact .of_keeps (i := 0) (.control plain runTask w j e) (control_aside plain runTask w j e)
  | schedule handle r delayMs outcomes rounds =>
    obtain ⟨r', task, handles, hjob, heq⟩ := w.schedule_eq_job handle r delayMs { outcomes, rounds }
    have haside := register_aside (w.withJob handle { outcomes, rounds }) r' task
    have hjobs : w.jobs.size
        < ((w.withJob handle { outcomes, rounds }).register r' task).jobs.size := by
      rw [haside.jobs]
      show _ < (w.jobs.push _).size
      rw [Array.size_push]
      exact Nat.lt_succ_self _
    rw [heq]
    -- without a timer the job is kept, and no entry is added for it
    cases ht : w.timer with
    | none =>
      have hnone : (w.withJob handle { outcomes, rounds }).register r' task
          = w.withJob handle { outcomes, rounds } := by
        simp only [register, withJob, ht]
      rw [hnone] at hjobs ⊢
      exact .keeps rfl (Nat.le_of_lt hjobs)
    | some t =>
      exact .schedules task t.id
        (posts_register (w := w.withJob handle { outcomes, rounds }) ht r' task) hjob hjobs
  | timer t c there =>
    obtain ⟨status, journal, -, heq⟩ := controlTimer_eq w there c
    rw [heq]
    exact .keeps rfl hsame
  | _ => exact .keeps rfl hsame

/-- **What a move does to the posts**: nothing, or an action schedules a new job, or the task of
an entry schedules the job that it was given. -/
theorem Move.postsStep (h : Move law m m') : m.PostsStep m' := by
  have hsame {w : World} : w.jobs.size ≤ w.jobs.size := Nat.le_refl _
  cases h with
  -- an action may schedule a job, an execution may enroll one; nothing else touches the posts
  | act m a runTask allowed plain =>
    exact (World.performed_perform plain runTask m.world).postsStep m.sweep m.executing
  | begin m i job label known => exact .keeps rfl (Nat.le_of_eq Array.size_modify.symm)
  | conclude m i outcome known =>
    exact .of_keeps (i := 0) (.conclude m.world i outcome) (World.conclude_aside m.world i outcome)
  | enroll m i e r job known task there =>
    exact .enrolls i e r job known task there rfl
  | complete m i inProgress =>
    have haside := m.world.complete_aside i
    refine .keeps ?_ (Nat.le_of_eq (congrArg Array.size haside.jobs.symm))
    by_cases hi : i < m.world.entries.size
    · exact (World.KeepsPosts.complete (i := i) fun _ => hi).posts
    · have hnone := Array.getElem?_eq_none (Nat.le_of_not_lt hi)
      simp only [World.complete, hnone]
  | lose w level t wheel allowed there stopped known due =>
    rw [World.serve_eq]
    exact .keeps rfl hsame
  | drain w level t wheel allowed there running known due =>
    obtain ⟨journal, -, heq⟩ := w.drained_eq level wheel
    rw [heq]
    exact .keeps rfl hsame
  | look w s i rest e next free known rests =>
    exact .of_keeps (i := 0) (.dispatch known rests s.level s.tick)
      (World.dispatch_aside known rests s.level s.tick)
  | launch w s i rest e e' last next free known runs =>
    have hpost : e'.post = e.post := by
      have hlook := e.post_evaluate s.nowMs
      rwa [runs] at hlook
    refine .keeps (World.KeepsPosts.launching (i := 0) s known hpost last).posts ?_
    unfold World.launching
    simp only
    split <;> exact hsame
  | putBack w s i last current =>
    exact .of_keeps (i := 0) (.puttingBack w s.nowMs i last)
      (World.puttingBack_aside w s.nowMs i last)
  | create w c allowed valid =>
    obtain ⟨journal, -, heq⟩ := w.startTimer_eq c
    rw [heq]
    exact .keeps rfl hsame
  | drop w allowed =>
    obtain ⟨journal, -, heq⟩ := w.dropTimer_eq
    rw [heq]
    exact .keeps rfl hsame
  | _ => exact .keeps rfl hsame

/-- An entry that is there keeps its post. -/
theorem Moves.post (h : Moves .free m m') (hm : m.Arises) {i : EntryId} {e : Entry}
    (he : m.world.entries[i]? = some e) :
    ∃ e', m'.world.entries[i]? = some e' ∧ e'.post = e.post := by
  induction h with
  | refl => exact ⟨e, he, rfl⟩
  | tail hmoves hmove ih =>
    obtain ⟨e', he', hpost⟩ := ih
    obtain ⟨p, p', rfl, -, hp', -, hundergoes⟩ := hmove.undergoes (hm.trans hmoves) he'
    exact ⟨p'.entry, hp', hundergoes.post.trans hpost⟩

theorem Moves.jobs_le (h : Moves law m m') : m.world.jobs.size ≤ m'.world.jobs.size := by
  induction h with
  | refl => exact Nat.le_refl _
  | tail hmoves hmove ih =>
    refine Nat.le_trans ih ?_
    cases hmove.postsStep with
    | keeps posts jobs => exact jobs
    | schedules task owner posts fresh jobs => exact Nat.le_of_lt jobs
    | enrolls i e r job known task there next =>
      rw [next]
      exact Nat.le_of_eq (congrArg Array.size (World.register_aside _ r _).jobs.symm)

/-- Every task is about a job that is there. -/
def World.JobsKnown (w : World) : Prop :=
  ∀ ⦃j : EntryId⦄ ⦃post : Task × TimerId⦄, w.posts[j]? = some post → post.1.job < w.jobs.size

/-- A move keeps every task about a job that is there. The task of a new entry is about the new
job, or about that of the entry which schedules it. -/
theorem Move.jobsKnown (h : Move law m m') (hm : m.world.JobsKnown) : m'.world.JobsKnown := by
  intro j post hj
  cases h.postsStep with
  | keeps posts jobs =>
    rw [posts] at hj
    exact Nat.lt_of_lt_of_le (hm hj) jobs
  | schedules task owner posts fresh jobs =>
    rw [posts, Array.getElem?_push] at hj
    split at hj
    · obtain rfl := Option.some.inj hj
      exact Nat.lt_of_le_of_lt (Nat.le_of_eq fresh) jobs
    · exact Nat.lt_trans (hm hj) jobs
  | enrolls i e r job known task there next =>
    subst next
    obtain ⟨t, ht⟩ := Option.isSome_iff_exists.1 (World.isSome_of_hasTimer there)
    have hjobs := (World.register_aside m.world r (.body job)).jobs
    simp only at hj ⊢
    rw [World.posts_register ht r (.body job), Array.getElem?_push] at hj
    rw [hjobs]
    split at hj
    · obtain rfl := Option.some.inj hj
      have hjob := hm (World.posts_eq_some.2 ⟨e, known, rfl⟩)
      rwa [Entry.post, task] at hjob
    · exact hm hj

/-- In everything that arises tasks are about jobs that are there. Induction on the moves. -/
theorem Moment.Arises.jobsKnown (h : m.Arises) : m.world.JobsKnown := by
  induction h using Moment.Arises.induction with
  | start nesting =>
    intro j post hj
    simp [World.posts] at hj
  | move _ hmove ih => exact hmove.jobsKnown ih

/-- **An entry with the body of a job that was there already came into being when the task of
another entry was run.** -/
theorem Moves.enrolled (h : Moves law m m') {j : EntryId} {job : JobId}
    (hknown : job < m.world.jobs.size) (hnew : j ∉ m.world.bearers job)
    (hj : j ∈ m'.world.bearers job) :
    ∃ (m₁ : Moment) (i : EntryId) (e : Entry) (r : Registration), Moves law m m₁
      ∧ m₁.world.entries[i]? = some e ∧ e.task = .register r job
      ∧ m₁.world.hasTimer e.owner = true ∧ j = m₁.world.entries.size
      ∧ Moves law { m₁ with world := m₁.world.register r (.body job) } m' := by
  induction h with
  | refl => exact absurd hj hnew
  | @tail m₁ m₂ hmoves hmove ih =>
    by_cases hbefore : j ∈ m₁.world.bearers job
    · obtain ⟨m₀, i, e, r, hfirst, hi, htask, there, hat, hrest⟩ := ih hbefore
      exact ⟨m₀, i, e, r, hfirst, hi, htask, there, hat, hrest.tail hmove⟩
    · have hsize : m₁.world.posts.size = m₁.world.entries.size := Array.size_map
      cases hmove.postsStep with
      | keeps posts jobs =>
        rw [World.bearers_of_posts posts] at hj
        exact absurd hj hbefore
      | schedules task owner posts fresh jobs =>
        rw [World.bearers_push posts, List.mem_append] at hj
        have hin := hj.resolve_left hbefore
        split at hin
        · next hbody =>
          -- the job of the new entry is a new one
          have hjob : job = m₁.world.jobs.size := (congrArg Task.job hbody).symm.trans fresh
          exact absurd (Moves.jobs_le hmoves) (Nat.not_le.2 (hjob ▸ hknown))
        · simp at hin
      | enrolls i e r job' known task there next =>
        subst next
        obtain ⟨t, ht⟩ := Option.isSome_iff_exists.1 (World.isSome_of_hasTimer there)
        have hposts := World.posts_register ht r (.body job')
        rw [World.bearers_push hposts, List.mem_append] at hj
        have hin := hj.resolve_left hbefore
        split at hin
        · next hbody =>
          obtain rfl : job' = job := Task.body.inj hbody
          rw [List.mem_singleton, hsize] at hin
          exact ⟨m₁, i, e, r, hmoves, known, task, there, hin, .refl⟩
        · simp at hin

end

end TimingWheel
