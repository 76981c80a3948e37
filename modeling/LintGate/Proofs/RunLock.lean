import LintGate.Proofs.Crew
import LintGate.Proofs.EngineRuns

/-! # The run lock of Pylint

A session of Pylint looks at its configuration first. Only if it accepts that, it takes the run
lock, is opened, does its runs, clears the cache and gives the lock back, however its runs go. A
crew of workers whose sessions are all of this kind keeps the discipline of the lock in every order
of turns.
-/

namespace LintGate

open Gate Session

namespace Pylint

def act (config : Path) (files : List Path) (r : PylintRun) : Gate Emission := do
  Gate.record (.processed engineName config files)
  run config files r

structure Job where
  config : Path
  runs : List (List Path × PylintRun)

namespace Job

def acts (config : Path) (runs : List (List Path × PylintRun)) : List (Gate Emission) :=
  runs.map fun entry => act config entry.1 entry.2

def session (job : Job) : Session where
  engine := engineName
  config := job.config
  opening := opening job.config
  closing := closing job.config
  runs := acts job.config job.runs

end Job

def sessions {ι : Type} (jobs : ι → List Job) (i : ι) : List Session := (jobs i).map Job.session

theorem engine_session (runOf : Path → List Path → PylintRun) (config : Path)
    (batches : List (List Path)) :
    (engine runOf).session config batches =
      Job.session ⟨config, batches.map fun files => (files, runOf config files)⟩ := by
  simp only [Engine.session, Job.session, Job.acts, List.map_map]
  rfl

/-- The configuration is there, and it is a document if it is in TOML. -/
structure Accepts (t : FileTree) (config : Path) : Prop where
  file : (t.requireFile config (.configurationNotFound engineName config)).isOk = true
  toml : config.suffix = ".toml" → SessionStep.checkToml engineName config t = none

def checks (config : Path) : List SessionStep :=
  [.requireFile engineName config] ++
    (if config.suffix = ".toml" then [.requireToml engineName config] else [])

/-- What is left of an opening when the configuration was accepted. -/
def taking (config : Path) : List SessionStep :=
  [.lock, .announce s!"Pylint session opened with {config}"]

theorem accepts_iff {t : FileTree} {config : Path} :
    Accepts t config ↔ (checks config).findSome? (SessionStep.refusal? t) = none := by
  have hfile : SessionStep.refusal? t (.requireFile engineName config) = none ↔
      (t.requireFile config (.configurationNotFound engineName config)).isOk = true := by
    rw [SessionStep.refusal?]
    cases t.requireFile config (.configurationNotFound engineName config) <;>
      simp [Except.isOk, Except.toBool]
  have htoml : SessionStep.refusal? t (.requireToml engineName config) =
      SessionStep.checkToml engineName config t := rfl
  rw [checks, List.findSome?_append, Option.or_eq_none_iff, List.findSome?_singleton, hfile]
  constructor
  · rintro ⟨hok, hnone⟩
    refine ⟨hok, ?_⟩
    split_ifs with hsuffix
    · rw [List.findSome?_singleton, htoml, hnone hsuffix]
    · rfl
  · rintro ⟨hok, hnone⟩
    refine ⟨hok, fun hsuffix => ?_⟩
    rwa [if_pos hsuffix, List.findSome?_singleton, htoml] at hnone

theorem written_of_mem_checks {config : Path} {step : SessionStep} (h : step ∈ checks config) :
    step.written = [] := by
  rw [checks] at h
  split_ifs at h <;> simp at h
  · rcases h with rfl | rfl <;> rfl
  · rw [h]
    rfl

end Pylint

/-- A step that does with the run lock and the cache what may come next. -/
structure Session.Orderly (s : Session) (t : FileTree) (p q : Phase) (l es : List Event) :
    Prop where
  moves : s.Moves t p q es
  follow : Event.FollowAll l es
  lock : .locked ∈ es → es = [.locked] ∧ p.wantsLock = true

namespace Pylint.Job

variable {job : Job} {t : FileTree} {p q : Phase} {l es : List Event}

/-- What a session that is opened does with the run lock and the cache. -/
def course (config : Path) : List Event :=
  [.locked, .opened engineName config, .cacheCleared, .unlocked]

/-- Where a session can be, and what it has done so far with the run lock and the cache. -/
inductive Stands (job : Job) (t : FileTree) : Phase → List Event → Prop
  | requested : Stands job t .requested []
  | checking {left : List SessionStep} (silent : ∀ step ∈ left, step.written = [])
      (accepts : Accepts t job.config ↔ left.findSome? (SessionStep.refusal? t) = none) :
      Stands job t (.opening (left ++ taking job.config)) []
  | refused {fault : Fault} (refusal : ¬ Accepts t job.config) :
      Stands job t (.ended (.refused fault)) []
  | taken {message : String} (accepts : Accepts t job.config) :
      Stands job t (.opening [.announce message]) [.locked]
  | announced (accepts : Accepts t job.config) : Stands job t (.opening []) [.locked]
  | running {c : Collector} (runs : List (List Path × PylintRun))
      (accepts : Accepts t job.config) :
      Stands job t (.running c (acts job.config runs)) [.locked, .opened engineName job.config]
  | hearing {c : Collector} {e : Emission} (runs : List (List Path × PylintRun))
      (accepts : Accepts t job.config) :
      Stands job t (.hearing c e (acts job.config runs)) [.locked, .opened engineName job.config]
  | closing {capture : Capture} (accepts : Accepts t job.config) :
      Stands job t (.closing capture (Pylint.closing job.config))
        [.locked, .opened engineName job.config]
  | cleared {capture : Capture} {message : String} (accepts : Accepts t job.config) :
      Stands job t (.closing capture [.announce message, .unlock])
        [.locked, .opened engineName job.config, .cacheCleared]
  | parting {capture : Capture} (accepts : Accepts t job.config) :
      Stands job t (.closing capture [.unlock])
        [.locked, .opened engineName job.config, .cacheCleared]
  | released {capture : Capture} (accepts : Accepts t job.config) :
      Stands job t (.closing capture []) (course job.config)
  | ended {capture : Capture} (accepts : Accepts t job.config) :
      Stands job t (.ended capture) (course job.config)

theorem act_run (config : Path) (files : List Path) (r : PylintRun) {g : GateState}
    (hg : g.files = t) :
    (act config files r).run g = (emission config r, ⟨t, g.locked,
      g.journal ++ [.processed engineName config files, .analyzed (arguments config files)]⟩) := by
  subst hg
  have hjournal : g.journal ++ [.processed engineName config files,
      .analyzed (arguments config files)] =
      g.journal ++ [.processed engineName config files] ++
        [.analyzed (arguments config files)] := by simp
  rw [hjournal]
  rfl

theorem moves_act {c : Collector} (entry : List Path × PylintRun)
    (runs : List (List Path × PylintRun)) :
    job.session.Moves t (.running c (acts job.config (entry :: runs)))
      (.hearing c (emission job.config entry.2) (acts job.config runs))
      [.processed engineName job.config entry.1, .analyzed (arguments job.config entry.1)] :=
  .ran (fun _ hg => act_run job.config entry.1 entry.2 hg) fun _ => rfl

theorem acts_oblivious {config : Path} {runs : List (List Path × PylintRun)} :
    ∀ run ∈ acts config runs, run.Oblivious := by
  intro run hrun
  obtain ⟨⟨files, r⟩, -, rfl⟩ := List.mem_map.mp hrun
  refine (Oblivious.record _).bind fun _ => ?_
  exact (Oblivious.record _).bind fun _ => .pure _

namespace Stands

theorem oblivious (h : job.Stands t p l) : ∀ run ∈ p.runs job.session, run.Oblivious := by
  cases h with
  | requested | checking | taken | announced | running | hearing => exact acts_oblivious
  | _ => simp [Phase.runs]

theorem check {step : SessionStep} {left : List SessionStep}
    (silent : ∀ s ∈ step :: left, s.written = [])
    (accepts : Accepts t job.config ↔
      (step :: left).findSome? (SessionStep.refusal? t) = none) :
    ∃ q es, job.session.Orderly t (.opening (step :: left ++ taking job.config)) q [] es ∧
      job.Stands t q (es.filter Event.isMark) := by
  have hwritten : step.written = [] := silent step (by simp)
  have hfollow : Event.FollowAll [] step.written := by
    rw [hwritten]
    trivial
  have hlock : .locked ∉ step.written := by simp [hwritten]
  rw [List.findSome?_cons] at accepts
  cases hrefusal : step.refusal? t with
  | some fault =>
    refine ⟨_, _, ⟨.refused hrefusal, hfollow, fun h => absurd h hlock⟩, ?_⟩
    rw [hwritten]
    refine .refused ?_
    simp [accepts, hrefusal]
  | none =>
    rw [hrefusal] at accepts
    refine ⟨_, _, ⟨.passed hrefusal, hfollow, fun h => absurd h hlock⟩, ?_⟩
    rw [hwritten]
    exact .checking (fun s hs => silent s (by simp [hs])) accepts

/-- The listener hears the next finding, or the end of the run. -/
theorem hear {c : Collector} {e : Emission} (runs : List (List Path × PylintRun))
    (accepts : Accepts t job.config) :
    ∃ q es, job.session.Orderly t (.hearing c e (acts job.config runs)) q
        [.locked, .opened engineName job.config] es ∧
      job.Stands t q ([.locked, .opened engineName job.config] ++ es.filter Event.isMark) := by
  rcases e with ⟨_ | ⟨f, findings⟩, failure⟩
  · cases failure with
    | none => exact ⟨_, _, ⟨.returned, trivial, by simp⟩, .running runs accepts⟩
    | some fault => exact ⟨_, _, ⟨.failed, trivial, by simp⟩, .closing accepts⟩
  · have hfollow : Event.FollowAll [.locked, .opened engineName job.config] [.heard f] :=
      ⟨.processing rfl, trivial⟩
    rcases hrecord : c.record f with ⟨c', _ | fault⟩
    · exact ⟨_, _, ⟨.heard hrecord, hfollow, by simp⟩, .hearing runs accepts⟩
    · exact ⟨_, _, ⟨.unheard hrecord, hfollow, by simp⟩, .closing accepts⟩

/-- Wherever a session stands, its next step is in order. -/
theorem step (h : job.Stands t p l) (hp : ∀ capture, p ≠ .ended capture) :
    ∃ q es, job.session.Orderly t p q l es ∧ job.Stands t q (l ++ es.filter Event.isMark) := by
  cases h with
  | requested =>
    refine ⟨_, _, ⟨.requested, ⟨.other rfl rfl, trivial⟩, by simp⟩, ?_⟩
    exact .checking (fun step hstep => written_of_mem_checks hstep) accepts_iff
  | @checking left silent accepts =>
    cases left with
    -- The last check is passed: this step takes the lock, so that it has to be free.
    | nil =>
      exact ⟨_, _, ⟨.passed rfl, ⟨.locked, trivial⟩, fun _ => ⟨rfl, rfl⟩⟩,
        .taken (accepts.mpr rfl)⟩
    | cons step left => exact check silent accepts
  | refused => exact absurd rfl (hp _)
  | taken accepts =>
    exact ⟨_, _, ⟨.passed rfl, ⟨.other rfl rfl, trivial⟩, by simp [SessionStep.written]⟩,
      .announced accepts⟩
  | announced accepts =>
    exact ⟨_, _, ⟨.opened, ⟨.opened, trivial⟩, by simp⟩, .running job.runs accepts⟩
  | running runs accepts =>
    cases runs with
    | nil => exact ⟨_, _, ⟨.heard_all, trivial, by simp⟩, .closing accepts⟩
    | cons entry runs =>
      exact ⟨_, _, ⟨moves_act entry runs, ⟨.processing rfl, .processing rfl, trivial⟩, by simp⟩,
        .hearing runs accepts⟩
  | hearing runs accepts => exact hear runs accepts
  | closing accepts =>
    exact ⟨_, _, ⟨.closing rfl, ⟨.cleared, trivial⟩, by simp [SessionStep.written]⟩,
      .cleared accepts⟩
  | cleared accepts =>
    exact ⟨_, _, ⟨.closing rfl, ⟨.other rfl rfl, trivial⟩, by simp [SessionStep.written]⟩,
      .parting accepts⟩
  | parting accepts =>
    exact ⟨_, _, ⟨.closing rfl, ⟨.unlocked, trivial⟩, by simp [SessionStep.written]⟩,
      .released accepts⟩
  | released accepts =>
    exact ⟨_, _, ⟨.closed, ⟨.other rfl rfl, trivial⟩, by simp⟩, .ended accepts⟩
  | ended => exact absurd rfl (hp _)

theorem isPrefix (h : job.Stands t p l) : l <+: course job.config := by
  cases h with
  | requested | checking | refused => exact List.nil_prefix
  | taken | announced => exact ⟨_, rfl⟩
  | running | hearing | closing => exact ⟨[.cacheCleared, .unlocked], rfl⟩
  | cleared | parting => exact ⟨[.unlocked], rfl⟩
  | released | ended => exact List.prefix_rfl

/-- A session does nothing with the lock or the cache unless it accepts its configuration. -/
theorem eq_nil_of_not_accepts (h : job.Stands t p l) (hrefused : ¬ Accepts t job.config) :
    l = [] := by
  cases h with
  | requested | checking | refused => rfl
  | taken accepts | announced accepts | running _ accepts | hearing _ accepts | closing accepts
  | cleared accepts | parting accepts | released accepts | ended accepts =>
    exact absurd accepts hrefused

theorem eq_course_of_ended {capture : Capture} (h : job.Stands t (.ended capture) l)
    (haccepts : Accepts t job.config) : l = course job.config := by
  cases h with
  | refused hrefused => exact absurd haccepts hrefused
  | ended => rfl

/-- Once it has the lock, a session never waits. -/
theorem not_wantsLock (h : job.Stands t p l) (hl : l ≠ []) : p.wantsLock = false := by
  cases h with
  | requested | checking | refused => exact absurd rfl hl
  | _ => rfl

end Stands

end Pylint.Job

namespace Worker

open Pylint

/-- A worker that has held the first of its sessions as each is held alone, and has reached a place
in the next where that comes to the same; with what each session has done with the run lock and the
cache. -/
structure Sound (jobs : List Job) (t : FileTree) (w : Worker) (marks : Nat → List Event) :
    Prop where
  captures : w.captures = (jobs.take w.captures.length).map fun job => job.session.hold.value t
  past : ∀ k job, k < w.captures.length → jobs[k]? = some job →
    ∃ capture, job.Stands t (.ended capture) (marks k)
  now : ∀ job, jobs[w.captures.length]? = some job →
    (∀ capture, w.phase ≠ .ended capture) ∧ job.Stands t w.phase (marks w.captures.length) ∧
      (job.session.finish w.phase).value t = job.session.hold.value t
  later : ∀ k, w.captures.length < k → marks k = []

theorem sound_start (jobs : List Job) (t : FileTree) :
    Sound jobs t ⟨[], .requested⟩ fun _ => [] := by
  refine ⟨rfl, fun k job hk => absurd hk (Nat.not_lt_zero k), ?_, fun _ _ => rfl⟩
  intro job _
  exact ⟨nofun, .requested, rfl⟩

variable {jobs : List Job} {t : FileTree} {w : Worker} {marks : Nat → List Event} {job : Job}
  {q : Phase} {l es : List Event}

theorem Sound.enter_ended {capture : Capture} (h : Sound jobs t w marks)
    (hjob : jobs[w.captures.length]? = some job)
    (hcapture : capture = job.session.hold.value t)
    (hstands : job.Stands t (.ended capture) l) :
    Sound jobs t (w.enter (.ended capture)) (Function.update marks w.captures.length l) := by
  have hlength : w.captures.length < jobs.length := (List.getElem?_eq_some_iff.mp hjob).1
  have hcount : (w.enter (.ended capture)).captures.length = w.captures.length + 1 := by
    simp [enter]
  refine ⟨?_, ?_, ?_, ?_⟩
  · rw [hcount, List.take_add_one, hjob, List.map_append, ← h.captures, hcapture]
    rfl
  · intro k job' hk hjob'
    rw [hcount, Nat.lt_succ_iff_lt_or_eq] at hk
    rcases hk with hk | rfl
    · rw [Function.update_of_ne (Nat.ne_of_lt hk)]
      exact h.past k job' hk hjob'
    · rw [hjob] at hjob'
      cases hjob'
      rw [Function.update_self]
      exact ⟨capture, hstands⟩
  · intro job' _
    rw [hcount, Function.update_of_ne (Nat.succ_ne_self _), h.later _ (Nat.lt_succ_self _)]
    exact ⟨nofun, .requested, rfl⟩
  · intro k hk
    rw [hcount] at hk
    rw [Function.update_of_ne (by omega)]
    exact h.later k (by omega)

theorem Sound.enter_next (h : Sound jobs t w marks)
    (hjob : jobs[w.captures.length]? = some job) (hq : ∀ capture, q ≠ .ended capture)
    (hvalue : (job.session.finish q).value t = job.session.hold.value t)
    (hstands : job.Stands t q l) :
    Sound jobs t (w.enter q) (Function.update marks w.captures.length l) := by
  rw [w.enter_of_ne_ended hq]
  refine ⟨h.captures, ?_, ?_, ?_⟩
  · intro k job' hk hjob'
    rw [Function.update_of_ne (Nat.ne_of_lt hk)]
    exact h.past k job' hk hjob'
  · intro job' hjob'
    rw [hjob] at hjob'
    cases hjob'
    rw [Function.update_self]
    exact ⟨hq, hstands, hvalue⟩
  · intro k hk
    rw [Function.update_of_ne (Nat.ne_of_gt hk)]
    exact h.later k hk

theorem Sound.enter (h : Sound jobs t w marks) (hjob : jobs[w.captures.length]? = some job)
    (hmoves : job.session.Moves t w.phase q es) (hstands : job.Stands t q l) :
    Sound jobs t (w.enter q) (Function.update marks w.captures.length l) := by
  obtain ⟨-, -, hvalue⟩ := h.now job hjob
  have hfinish := (hmoves.finish_value hstands.oblivious).trans hvalue
  rcases q.ended_or with ⟨capture, rfl⟩ | hq
  · exact h.enter_ended hjob hfinish hstands
  · exact h.enter_next hjob hq hfinish hstands

theorem Sound.marks_of (h : Sound jobs t w marks) {k : Nat} (hjob : jobs[k]? = some job) :
    marks k <+: Job.course job.config ∧ (¬ Accepts t job.config → marks k = []) := by
  rcases Nat.lt_trichotomy k w.captures.length with hk | rfl | hk
  · obtain ⟨capture, hstands⟩ := h.past k job hk hjob
    exact ⟨hstands.isPrefix, hstands.eq_nil_of_not_accepts⟩
  · obtain ⟨-, hstands, -⟩ := h.now job hjob
    exact ⟨hstands.isPrefix, hstands.eq_nil_of_not_accepts⟩
  · rw [h.later k hk]
    exact ⟨List.nil_prefix, fun _ => rfl⟩

end Worker

namespace Crew

open Pylint

variable {ι : Type} [DecidableEq ι] {jobs : ι → List Job} {t : FileTree} {c : Crew ι} {i : ι}
  {job : Job}

/-- The crew keeps the discipline of the lock, and all of its workers are sound. -/
structure Sound (jobs : ι → List Job) (t : FileTree) (c : Crew ι) : Prop where
  files : c.gate.files = t
  disciplined : c.trace.Disciplined c.gate.locked
  workers : ∀ i, (c.worker i).Sound (jobs i) t fun k => c.trace.marks (i, k)

theorem sound_start (jobs : ι → List Job) (t : FileTree) : Sound jobs t (start t) :=
  ⟨rfl, Trace.disciplined_nil, fun i => Worker.sound_start (jobs i) t⟩

theorem Sound.turn_free (h : Sound jobs t c)
    (hjob : (jobs i)[(c.worker i).captures.length]? = some job)
    (hfree : ((c.worker i).phase.wantsLock && c.gate.locked) = false) :
    ∃ q es, job.session.Moves t (c.worker i).phase q es ∧
      Sound jobs t (c.turn (sessions jobs) i) ∧
      (c.turn (sessions jobs) i).worker i = (c.worker i).enter q ∧
      (c.turn (sessions jobs) i).trace = c.trace ++ es.map (c.slot i, ·) := by
  obtain ⟨hended, hstands, -⟩ := (h.workers i).now job hjob
  obtain ⟨q, es, ⟨hmoves, hfollow, hlock⟩, hnext⟩ := hstands.step hended
  have hsession : (sessions jobs i)[(c.slot i).2]? = some job.session := by
    rw [sessions, List.getElem?_map, slot, hjob]
    rfl
  have hturn := turn_eq hsession hfree (h.files.symm ▸ hmoves)
  refine ⟨q, es, hmoves, ?_, ?_, by rw [hturn]⟩
  · rw [hturn]
    refine ⟨h.files, h.disciplined.append hfollow fun hlocked => ?_, fun j => ?_⟩
    · obtain ⟨hes, hwants⟩ := hlock hlocked
      rw [hwants, Bool.true_and] at hfree
      exact ⟨hes, hfree⟩
    · by_cases hj : j = i
      · subst hj
        simp only [slot, Function.update_self, Trace.marks_append_own]
        exact (h.workers j).enter hjob hmoves hnext
      · simp only [slot, Function.update_of_ne hj, Trace.marks_append_other hj]
        exact h.workers j
  · simp only [hturn, Function.update_self]

theorem Sound.turn (h : Sound jobs t c) (i : ι) : Sound jobs t (c.turn (sessions jobs) i) := by
  cases hheld : (c.worker i).phase.wantsLock && c.gate.locked with
  | true => rwa [turn_of_held hheld]
  | false =>
    cases hjob : (jobs i)[(c.worker i).captures.length]? with
    | none =>
      rw [turn_of_none (by rw [sessions, List.getElem?_map, slot, hjob]; rfl)]
      exact h
    | some job =>
      obtain ⟨q, es, -, hsound, -⟩ := h.turn_free hjob hheld
      exact hsound

theorem Sound.play (h : Sound jobs t c) (turns : List ι) :
    Sound jobs t (c.play (sessions jobs) turns) := by
  induction turns generalizing c with
  | nil => exact h
  | cons i rest ih => exact ih (h.turn i)

/-- A worker that is not held up any more gets through its session by turns of its own. -/
theorem Sound.finishes (h : Sound jobs t c)
    (hjob : (jobs i)[(c.worker i).captures.length]? = some job)
    (hmarks : c.trace.marks (c.slot i) ≠ []) :
    ∃ n, ((c.play (sessions jobs) (List.replicate n i)).worker i).captures.length =
      (c.worker i).captures.length + 1 := by
  induction hload : job.session.load t (c.worker i).phase using Nat.strong_induction_on
    generalizing c with
  | h load ih =>
    obtain ⟨hended, hstands, -⟩ := (h.workers i).now job hjob
    have hwants : (c.worker i).phase.wantsLock = false := hstands.not_wantsLock hmarks
    obtain ⟨q, es, hmoves, hsound, hworker, htrace⟩ := h.turn_free hjob (by rw [hwants]; rfl)
    rcases q.ended_or with ⟨capture, rfl⟩ | hq
    · refine ⟨1, ?_⟩
      change ((c.turn (sessions jobs) i).worker i).captures.length = _
      simp [hworker, Worker.enter]
    · rw [Worker.enter_of_ne_ended _ hq] at hworker
      have hmarks' : (c.turn (sessions jobs) i).trace.marks ((c.turn (sessions jobs) i).slot i) ≠
          [] := by
        rw [slot, hworker, htrace, Trace.marks_append]
        exact List.append_ne_nil_of_left_ne_nil hmarks _
      have hlt := hmoves.load_lt hended
      rw [hload] at hlt
      obtain ⟨n, hn⟩ := ih _ hlt hsound (by rwa [hworker]) hmarks' (by rw [hworker])
      rw [hworker] at hn
      exact ⟨n + 1, hn⟩

theorem Sound.marks_eq_course (h : Sound jobs t c) {k : Nat}
    (hk : k < (c.worker i).captures.length) (hjob : (jobs i)[k]? = some job)
    (haccepts : Accepts t job.config) : c.trace.marks (i, k) = Job.course job.config := by
  obtain ⟨capture, hstands⟩ := (h.workers i).past k job hk hjob
  exact hstands.eq_course_of_ended haccepts

/-- A session that has the lock clears the cache and gives the lock back by turns of its own
worker. -/
theorem Sound.gives_back (h : Sound jobs t c) {k : Nat} (hjob : (jobs i)[k]? = some job)
    (hinside : c.trace.Inside (i, k)) :
    ∃ n, (c.play (sessions jobs) (List.replicate n i)).trace.marks (i, k) =
      Job.course job.config := by
  obtain ⟨hlocked, hunlocked⟩ := Trace.inside_iff.mp hinside
  have hmarks : c.trace.marks (i, k) ≠ [] := List.ne_nil_of_mem hlocked
  have haccepts : Accepts t job.config := by
    by_contra hrefused
    exact hmarks (((h.workers i).marks_of hjob).2 hrefused)
  have hk : k = (c.worker i).captures.length := by
    rcases Nat.lt_trichotomy k (c.worker i).captures.length with hlt | heq | hgt
    · rw [h.marks_eq_course hlt hjob haccepts] at hunlocked
      exact absurd (by simp [Job.course]) hunlocked
    · exact heq
    · exact absurd ((h.workers i).later k hgt) hmarks
  subst hk
  obtain ⟨n, hn⟩ := h.finishes hjob hmarks
  refine ⟨n, (h.play (List.replicate n i)).marks_eq_course ?_ hjob haccepts⟩
  rw [hn]
  exact Nat.lt_succ_self _

end Crew

namespace Pylint

/-- Workers that share a gate hold sessions of Pylint, in whatever order they get their turns. The
run lock is held just in case a session is inside, and only one is. Between the processing of two
sessions the cache is cleared. Each session is taken to what it comes to alone. It takes the lock,
is opened, clears the cache and gives the lock back, once each and in this order: all of it when it
is over, and however far it has come it gets there by turns of its own worker. A session whose
configuration is not accepted does nothing of this. -/
theorem sessions_serialised {ι : Type} [DecidableEq ι] (jobs : ι → List Job) (t : FileTree)
    (turns : List ι) :
    let crew := (Crew.start t).play (sessions jobs) turns
    (crew.gate.locked = true ↔ ∃ σ, crew.trace.Inside σ) ∧
      (∀ σ τ, crew.trace.Inside σ → crew.trace.Inside τ → σ = τ) ∧
      crew.trace.Apart ∧
      (∀ i, (crew.worker i).captures = ((jobs i).take (crew.worker i).captures.length).map
        fun job => job.session.hold.value t) ∧
      ∀ i k job, (jobs i)[k]? = some job →
        crew.trace.marks (i, k) <+: Job.course job.config ∧
          (k < (crew.worker i).captures.length → Accepts t job.config →
            crew.trace.marks (i, k) = Job.course job.config) ∧
          (crew.trace.Inside (i, k) →
            ∃ n, (crew.play (sessions jobs) (List.replicate n i)).trace.marks (i, k) =
              Job.course job.config) ∧
          (¬ Accepts t job.config → crew.trace.marks (i, k) = []) := by
  intro crew
  have hsound : Crew.Sound jobs t crew := (Crew.sound_start jobs t).play turns
  refine ⟨hsound.disciplined.locked_iff, hsound.disciplined.unique, hsound.disciplined.apart,
    fun i => (hsound.workers i).captures, fun i k job hjob => ?_⟩
  obtain ⟨hpart, hrefused⟩ := (hsound.workers i).marks_of hjob
  exact ⟨hpart, fun hk => hsound.marks_eq_course hk hjob, hsound.gives_back hjob, hrefused⟩

/-- While one of two sessions is open, the other one waits for the lock. It gets it when the first
one, which Pylint leaves with a status, has cleared the cache. -/
theorem sessions_serialised_waiting :
    let config : Path := ⟨0, ["pylintrc"]⟩
    let session := (engine fun _ _ => ⟨[], .exited (.int 32)⟩).session config [[]]
    let crew (turns : List Bool) :=
      (Crew.start ⟨[(["pylintrc"], .file [])], []⟩).play (fun _ => [session]) turns
    let early := List.replicate 5 false ++ List.replicate 3 true
    let later := List.replicate 6 false ++ [true]
    ((crew early).trace.Inside (false, 0) ∧ ((crew early).worker true).phase.wantsLock = true ∧
        ¬ (crew early).trace.Inside (true, 0)) ∧
      ((crew (early ++ later)).worker false).captures.map (·.fault) =
        [some (.exited engineName "32" config)] ∧
      (crew (early ++ later)).trace.marks (false, 0) = Job.course config ∧
      (crew (early ++ later)).trace.Inside (true, 0) := by
  intro config session crew early later
  let tree : FileTree := ⟨[(["pylintrc"], .file [])], []⟩
  let job : Job := ⟨config, [[]].map fun files => (files, ⟨[], .exited (.int 32)⟩)⟩
  have hcrew (turns : List Bool) :
      (Crew.start tree).play (sessions fun _ : Bool => [job]) turns = crew turns := by
    have hsession := engine_session (fun _ _ => ⟨[], .exited (.int 32)⟩) config [[]]
    exact congrArg (fun s => (Crew.start tree).play (fun _ => [s]) turns) hsession.symm
  obtain ⟨-, hunique, -⟩ := sessions_serialised (fun _ : Bool => [job]) tree early
  obtain ⟨-, -, -, -, hcourse⟩ := sessions_serialised (fun _ : Bool => [job]) tree (early ++ later)
  obtain ⟨-, hmarks, -⟩ := hcourse false 0 job rfl
  rw [hcrew] at hunique hmarks
  have hinside : (crew early).trace.Inside (false, 0) := by
    rw [Trace.inside_iff]
    decide +kernel
  have hfaults : ((crew (early ++ later)).worker false).captures.map (·.fault) =
      [some (.exited engineName "32" config)] := by decide +kernel
  have hover : 0 < ((crew (early ++ later)).worker false).captures.length := by
    rw [← List.length_map (fun c : Capture => c.fault), hfaults]
    decide
  refine ⟨⟨hinside, by decide +kernel, fun hboth => ?_⟩, hfaults, ?_, ?_⟩
  · cases hunique _ _ hinside hboth
  · have haccepts : Accepts tree job.config := accepts_iff.mpr (by decide +kernel)
    exact hmarks hover haccepts
  · rw [Trace.inside_iff]
    decide +kernel

end Pylint

end LintGate
