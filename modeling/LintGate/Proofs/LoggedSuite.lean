import LintGate.Assembly
import LintGate.Proofs.Composition
import LintGate.Proofs.Isolation
import LintGate.Proofs.LogEntries

/-! # The log of a suite

What a process comes to and what time it is may depend on all that has happened before. In any such
surroundings a suite in sequence adds one entry to the log for each process of Ruff that returns, in
the order in which they are run, whatever becomes of the checks, and it changes nothing else in the
file tree.
-/

namespace LintGate

open Gate

/-- What goes on around a gate, by all that has happened before: the time, how a run of an engine
goes, and what the run does to the file tree on its own. -/
structure Surroundings where
  host : List Event → Host
  touched : List Event → FileTree → FileTree

namespace Surroundings

/-- Processes and runs of Pylint leave the file tree alone. -/
def LeaveFiles (around : Surroundings) : Prop := ∀ past t, around.touched past t = t

def meet (around : Surroundings) : Gate Host := do
  let s ← get
  modify fun s => { s with files := around.touched s.journal s.files }
  return around.host s.journal

theorem LeaveFiles.meet_run {around : Surroundings} (h : around.LeaveFiles) (s : GateState) :
    around.meet.run s = (around.host s.journal, s) := by
  change (_, { s with files := around.touched s.journal s.files }) = _
  rw [h]

end Surroundings

def Ruff.engineOn (r : Ruff) (around : Surroundings) : Engine where
  name := engineName
  opening := opening
  closing := closing
  run := fun config files => do
    let current ← around.meet
    { r with now := current.now }.run config files (current.ruffRun config files)

def Pylint.engineOn (around : Surroundings) : Engine where
  name := engineName
  opening := opening
  closing := closing
  run := fun config files => do
    let current ← around.meet
    run config files (current.pylintRun config files)

def Runner.onHost (ruff : Ruff) (around : Surroundings) (fixtures : Fixtures) : Runner where
  engines :=
    [(Ruff.engineName, ruff.engineOn around), (Pylint.engineName, Pylint.engineOn around)]
  fixtures := fixtures

/-- A gate that is put together for one host is a gate in surroundings that never change. -/
theorem Assembly.runner_ofValues (host : Host) (settings : Settings) (verbose : Bool)
    (logDirectory : Path) (timeout : Int) (fixtures : Path) :
    let assembly := ofValues host settings verbose logDirectory timeout fixtures
    assembly.runner = .onHost assembly.ruff ⟨fun _ => host, fun _ t => t⟩ ⟨fixtures⟩ := rfl

theorem Gate.run_of_bind {α β : Type} {g : Gate α} {f : α → Gate β} {s u : GateState} {a : α}
    (h : g.run s = (a, u)) : (g >>= f).run s = (f a).run u := by
  change (f (g.run s).1).run (g.run s).2 = _
  rw [h]

def Event.spawns : Event → Bool
  | .spawned .. => true
  | _ => false

namespace Ruff

/-- A process that returned: when, for which configuration, and what it left behind. -/
structure Return where
  now : Instant
  config : Path
  result : ProcessResult

def Return.entry (x : Return) : String :=
  RawLog.entry x.now engineName x.result.stdout x.result.stderr x.config.toString

/-- The process that an event behind others has started, if it returns. What it is run over is said
by the event before. -/
def return? (host : List Event → Host) (past : List Event) (e : Event) : Option Return :=
  match past.getLast?, e with
  | some (.processed _ config files), .spawned _ _ =>
    match (host past).ruffRun config files with
    | .returned result => some ⟨(host past).now, config, result⟩
    | _ => none
  | _, _ => none

/-- The processes that return among events behind others, in order. -/
def returns (host : List Event → Host) (past : List Event) : List Event → List Return
  | [] => []
  | e :: rest => (return? host past e).toList ++ returns host (past ++ [e]) rest

/-- Each process that is started is one of Ruff, and the event before says what it is run over. -/
def Announced (past : List Event) : List Event → Prop
  | [] => True
  | e :: rest =>
    (e.spawns = true → ∃ config files, past.getLast? = some (.processed engineName config files)) ∧
      Announced (past ++ [e]) rest

variable {host : List Event → Host} {past : List Event}

theorem Announced.append {new more : List Event} (h : Announced past new)
    (hmore : Announced (past ++ new) more) : Announced past (new ++ more) := by
  induction new generalizing past with
  | nil => rwa [List.append_nil] at hmore
  | cons e rest ih =>
    refine ⟨h.1, ih h.2 ?_⟩
    rwa [List.append_assoc]

theorem returns_append (new more : List Event) :
    returns host past (new ++ more) =
      returns host past new ++ returns host (past ++ new) more := by
  induction new generalizing past with
  | nil => rw [List.append_nil]; rfl
  | cons e rest ih =>
    rw [List.cons_append, returns, returns, ih, List.append_assoc, List.append_assoc]
    rfl

theorem returns_singleton (e : Event) : returns host past [e] = (return? host past e).toList := by
  rw [returns, returns, List.append_nil]

theorem return?_of_not_spawns {e : Event} (h : e.spawns = false) : return? host past e = none := by
  unfold return?
  split
  · cases h
  · rfl

theorem return?_spawned (config : Path) (files : List Path) (engine : String)
    (command : List String) (timeout : Int) :
    return? host (past ++ [.processed engine config files]) (.spawned command timeout) =
      match (host (past ++ [.processed engine config files])).ruffRun config files with
      | .returned result =>
        some ⟨(host (past ++ [.processed engine config files])).now, config, result⟩
      | _ => none := by
  simp only [return?, List.getLast?_concat]

/-- What is made of a process that returned is made of it once its raw output is kept. -/
theorem run_returned_run {r : Ruff} {config : Path} {files : List Path} {result : ProcessResult}
    {s u : GateState} (h : (r.keep config result).run { s with
      journal := s.journal ++ [.spawned (r.command config files) r.timeout] } = (none, u)) :
    (r.run config files (.returned result)).run s =
      (conclude config (Path.listing files) result).run u := by
  rw [run]
  exact (run_of_bind rfl).trans (run_of_bind h)

end Ruff

/-- A log with the tree that it is opened in and the surroundings that its entries come from. -/
structure Logbook where
  log : RawLog
  around : Surroundings
  tree : FileTree
  place : Place

namespace Logbook

def files (b : Logbook) (returned : List Ruff.Return) : FileTree :=
  b.log.grown b.tree b.place (returned.map Ruff.Return.entry)

/-- From a state with the processes entered that have returned so far, the second state is reached
by entering those that returned on the way, and by nothing else that changes the file tree. -/
def Leads (b : Logbook) (returned : List Ruff.Return) (s u : GateState) : Prop :=
  ∃ new, u.journal = s.journal ++ new ∧ Ruff.Announced s.journal new ∧
    u.files = b.files (returned ++ Ruff.returns b.around.host s.journal new)

def Keeps {α : Type} (b : Logbook) (g : Gate α) : Prop :=
  ∀ s returned, s.files = b.files returned → b.Leads returned s (g.run s).2

variable {α β : Type} {b : Logbook} {s u v : GateState} {returned : List Ruff.Return}

namespace Leads

theorem of_same (hs : s.files = b.files returned) (hfiles : u.files = s.files)
    (hjournal : u.journal = s.journal) : b.Leads returned s u := by
  refine ⟨[], by rw [hjournal, List.append_nil], trivial, ?_⟩
  rw [Ruff.returns, List.append_nil, hfiles, hs]

theorem trans (h : b.Leads returned s u)
    (h' : ∀ returned, u.files = b.files returned → b.Leads returned u v) :
    b.Leads returned s v := by
  obtain ⟨new, hjournal, hnew, hfiles⟩ := h
  obtain ⟨more, hlater, hmore, hlast⟩ := h' _ hfiles
  rw [hjournal] at hmore
  refine ⟨new ++ more, by rw [hlater, hjournal, List.append_assoc], hnew.append hmore, ?_⟩
  rw [hlast, hjournal, Ruff.returns_append, List.append_assoc]

end Leads

namespace Keeps

protected theorem pure (a : α) : b.Keeps (pure a) := fun _ _ hs => .of_same hs rfl rfl

protected theorem files : b.Keeps Gate.files := fun _ _ hs => .of_same hs rfl rfl

theorem setLocked (locked : Bool) : b.Keeps (modify fun s => { s with locked }) :=
  fun _ _ hs => .of_same hs rfl rfl

/-- Unless it starts a process, an event adds nothing to the log. -/
theorem record {e : Event} (he : e.spawns = false) : b.Keeps (Gate.record e) := by
  intro s returned hs
  refine ⟨[e], rfl, ⟨by simp [he], trivial⟩, ?_⟩
  rw [Ruff.returns_singleton, Ruff.return?_of_not_spawns he, Option.toList_none, List.append_nil]
  exact hs

theorem tell (level : Level) (message : String) : b.Keeps (Gate.tell level message) := record rfl

protected theorem bind {g : Gate α} {f : α → Gate β} (hg : b.Keeps g) (hf : ∀ a, b.Keeps (f a)) :
    b.Keeps (g >>= f) := fun s returned hs => (hg s returned hs).trans (hf _ _)

theorem composes (b : Logbook) : Gate.Composes b.Keeps := ⟨.pure, .bind, .files, tell⟩

end Keeps

theorem step_keeps (step : SessionStep) : b.Keeps step.run := by
  cases step with
  | requireFile engine path =>
    refine Keeps.files.bind fun t => ?_
    cases t.requireFile path (.configurationNotFound engine path) <;> exact .pure _
  | requireToml engine path => exact Keeps.files.bind fun t => .pure _
  | refuse fault => exact .pure _
  | announce message => exact (Keeps.tell _ _).bind fun _ => .pure _
  | lock => exact (Keeps.setLocked _).bind fun _ => (Keeps.record rfl).bind fun _ => .pure _
  | clearCache => exact (Keeps.record rfl).bind fun _ => .pure _
  | unlock => exact (Keeps.setLocked _).bind fun _ => (Keeps.record rfl).bind fun _ => .pure _

theorem runAll_keeps (steps : List SessionStep) : b.Keeps (SessionStep.runAll steps) := by
  induction steps with
  | nil => exact .pure _
  | cons step rest ih =>
    refine (step_keeps step).bind fun refusal => ?_
    cases refusal with
    | some fault => exact .pure _
    | none => exact ih

theorem hear_keeps (c : Collector) (fs : List Finding) : b.Keeps (c.hear fs) := by
  induction fs generalizing c with
  | nil => exact .pure _
  | cons f rest ih =>
    refine (Keeps.record rfl).bind fun _ => ?_
    rcases c.record f with ⟨c', _ | fault⟩
    · exact ih c'
    · exact .pure _

theorem receive_keeps (c : Collector) (e : Emission) : b.Keeps (c.receive e) := by
  refine (hear_keeps c e.findings).bind fun heard => ?_
  cases heard.fault <;> exact .pure _

theorem follow_keeps (c : Collector) {runs : List (Gate Emission)}
    (h : ∀ run ∈ runs, b.Keeps run) : b.Keeps (c.follow runs) := by
  induction runs generalizing c with
  | nil => exact .pure _
  | cons run rest ih =>
    rw [List.forall_mem_cons] at h
    refine h.1.bind fun e => (receive_keeps c e).bind fun heard => ?_
    cases heard.fault with
    | some fault => exact .pure _
    | none => exact ih _ h.2

theorem hold_keeps {s : Session} (h : ∀ run ∈ s.runs, b.Keeps run) : b.Keeps s.hold := by
  refine (Keeps.record rfl).bind fun _ => (runAll_keeps s.opening).bind fun refusal => ?_
  cases refusal with
  | some fault => exact .pure _
  | none =>
    refine (Keeps.record rfl).bind fun _ => (follow_keeps _ h).bind fun capture => ?_
    refine ((runAll_keeps s.closing).bind fun _ => .pure ()).bind fun _ => ?_
    exact (Keeps.record rfl).bind fun _ => .pure _

/-- A run of the engine keeps the log, from the event that says what it processes. -/
def KeepsRuns (b : Logbook) (e : Engine) : Prop :=
  ∀ config files, b.Keeps do
    Gate.record (.processed e.name config files)
    e.run config files

theorem capture_keeps {r : Runner} (h : ∀ entry ∈ r.engines, b.KeepsRuns entry.2) (check : Check)
    (sample : String) : b.Keeps (r.capture check sample) := by
  refine Keeps.files.bind fun t => ?_
  cases htarget : r.target t check sample with
  | error fault => exact .pure _
  | ok target =>
    refine (Keeps.tell _ _).bind fun _ => hold_keeps ?_
    intro run hrun
    obtain ⟨files, -, rfl⟩ := List.mem_map.mp hrun
    exact h _ (Runner.mem_of_engineFor (Runner.engineFor_of_target htarget)) _ _

theorem meet_keeps (h : b.around.LeaveFiles) : b.Keeps b.around.meet := fun _ _ hs =>
  .of_same hs (by rw [h.meet_run]) (by rw [h.meet_run])

theorem pylint_keepsRuns (h : b.around.LeaveFiles) : b.KeepsRuns (Pylint.engineOn b.around) :=
  fun _ _ => (Keeps.record rfl).bind fun _ => (meet_keeps h).bind fun _ =>
    (Keeps.record rfl).bind fun _ => .pure _

theorem conclude_keeps (config : Path) (subject : String) (result : ProcessResult) :
    b.Keeps (Ruff.conclude config subject result) := by
  rw [Ruff.conclude]
  by_cases hstatus : Ruff.abnormalStatus ≤ result.status
  · rw [if_pos hstatus]
    exact .pure _
  · rw [if_neg hstatus]
    cases RuffOutput.read subject result.stdout with
    | ok findings | error fault =>
      change b.Keeps (if result.stderr.stripped ≠ "" then _ else _)
      split_ifs
      · exact (Keeps.tell _ _).bind fun _ => .pure _
      · exact .pure _

section Ruff

variable {config : Path} {files : List Path} {command : List String} {timeout : Int}
  {result : ProcessResult}

def started (s : GateState) (config : Path) (files : List Path) : List Event :=
  s.journal ++ [.processed Ruff.engineName config files]

theorem returns_started (s : GateState) (config : Path) (files : List Path)
    (command : List String) (timeout : Int) :
    Ruff.returns b.around.host s.journal
        [.processed Ruff.engineName config files, .spawned command timeout] =
      match (b.around.host (started s config files)).ruffRun config files with
      | .returned result => [⟨(b.around.host (started s config files)).now, config, result⟩]
      | _ => [] := by
  rw [Ruff.returns, Ruff.return?_of_not_spawns rfl, Ruff.returns_singleton, Ruff.return?_spawned,
    started]
  cases (b.around.host
    (s.journal ++ [.processed Ruff.engineName config files])).ruffRun config files <;> rfl

theorem announced_started (s : GateState) (config : Path) (files : List Path)
    (command : List String) (timeout : Int) :
    Ruff.Announced s.journal
      [.processed Ruff.engineName config files, .spawned command timeout] :=
  ⟨nofun, fun _ => ⟨config, files, List.getLast?_concat⟩, trivial⟩

theorem leads_unreturned (hs : s.files = b.files returned)
    (h : ∀ result,
      (b.around.host (started s config files)).ruffRun config files ≠ .returned result) :
    b.Leads returned s
      { s with journal := started s config files ++ [.spawned command timeout] } := by
  refine ⟨_, List.append_assoc _ _ _, announced_started s config files command timeout, ?_⟩
  rw [List.singleton_append, returns_started]
  cases hcompletion : (b.around.host (started s config files)).ruffRun config files with
  | returned result => exact absurd hcompletion (h result)
  | _ => rw [List.append_nil]; exact hs

/-- A process that returned is entered, whatever it left behind. -/
theorem leads_returned (locked : Bool)
    (h : (b.around.host (started s config files)).ruffRun config files = .returned result) :
    b.Leads returned s ⟨b.files (returned ++ [⟨(b.around.host (started s config files)).now, config,
      result⟩]), locked, started s config files ++ [.spawned command timeout]⟩ := by
  refine ⟨_, List.append_assoc _ _ _, announced_started s config files command timeout, ?_⟩
  rw [List.singleton_append, returns_started, h]

theorem keep_run {r : Ruff} (hlog : r.log = some b.log)
    (hopens : b.log.OpensAt Ruff.engineName b.tree b.place) (config : Path)
    (result : ProcessResult) (hs : s.files = b.files returned) :
    (r.keep config result).run s =
      (none, { s with files := b.files (returned ++ [⟨r.now, config, result⟩]) }) := by
  have happend := hopens.append (returned.map Ruff.Return.entry) r.now result.stdout result.stderr
    config.toString
  rw [Ruff.keep, hlog]
  change (Option.map Fault.file (b.log.append s.files _ _ _ _ _).2,
    { s with files := (b.log.append s.files _ _ _ _ _).1 }) = _
  rw [hs, files, happend, files, List.map_append]
  rfl

theorem ruff_keepsRuns {r : Ruff} (hlog : r.log = some b.log) (hleave : b.around.LeaveFiles)
    (hopens : b.log.OpensAt Ruff.engineName b.tree b.place) :
    b.KeepsRuns (r.engineOn b.around) := by
  intro config files s returned hs
  let current : Ruff := { r with now := (b.around.host (started s config files)).now }
  change b.Leads returned s (((r.engineOn b.around).run config files).run
    { s with journal := started s config files }).2
  have hrun : ((r.engineOn b.around).run config files).run
      { s with journal := started s config files } = (current.run config files
        ((b.around.host (started s config files)).ruffRun config files)).run
          { s with journal := started s config files } :=
    run_of_bind (hleave.meet_run { s with journal := started s config files })
  rw [hrun]
  cases hcompletion : (b.around.host (started s config files)).ruffRun config files with
  | returned result =>
    let spawned : GateState := ⟨s.files, s.locked,
      started s config files ++ [.spawned (current.command config files) current.timeout]⟩
    have hkeep := keep_run (b := b) (r := current) (s := spawned) hlog hopens config result hs
    rw [Ruff.run_returned_run hkeep]
    exact (leads_returned s.locked hcompletion).trans (conclude_keeps _ _ _ _)
  | notFound => exact leads_unreturned hs (by simp [hcompletion])
  | denied => exact leads_unreturned hs (by simp [hcompletion])
  | failed fault => exact leads_unreturned hs (by simp [hcompletion])
  | timedOut =>
    rw [Ruff.run]
    cases Text.Numeral.write? current.timeout with
    | none => exact leads_unreturned hs (by simp [hcompletion])
    | some seconds => exact leads_unreturned hs (by simp [hcompletion])

end Ruff

end Logbook

namespace Runner

/-- A suite keeps the log. -/
theorem onHost_keeps {b : Logbook} {ruff : Ruff} (hlog : ruff.log = some b.log)
    (hleave : b.around.LeaveFiles) (hopens : b.log.OpensAt Ruff.engineName b.tree b.place)
    (fixtures : Fixtures) (registry : Registry) {workers : Int} (hworkers : workers ≤ 1) :
    b.Keeps ((onHost ruff b.around fixtures).verifySuite registry workers) := by
  refine (Logbook.Keeps.composes b).verifySuite registry hworkers fun check _ =>
    Logbook.capture_keeps ?_ check
  simp [onHost, Logbook.ruff_keepsRuns hlog hleave hopens, Logbook.pylint_keepsRuns hleave]

/-- In a suite in sequence whose log can be written, nothing changes in the file tree but that the
log gains entries and that directories may be made on the way of its own, provided that the runs of
the engines leave the tree alone. There is one entry for each process of Ruff that returned, in the
order in which they were started: the header in its frame and behind it each stream that is not
empty. With each entry the log ends in a newline, behind which the frame of the next one begins. -/
theorem verifySuite_keeps_log {ruff : Ruff} {log : RawLog} (hlog : ruff.log = some log)
    {around : Surroundings} (hleave : around.LeaveFiles) (fixtures : Fixtures)
    (registry : Registry) {workers : Int} (hworkers : workers ≤ 1) {s : GateState}
    (hwritable : log.Writable Ruff.engineName s.files) :
    let after := (((onHost ruff around fixtures).verifySuite registry workers).run s).2
    ∃ place new, after.journal = s.journal ++ new ∧ Ruff.Announced s.journal new ∧
      let returned := Ruff.returns around.host s.journal new
      log.Gained Ruff.engineName s.files place (returned.map Ruff.Return.entry) after.files ∧
      (∀ x ∈ returned, ∃ out err, RawLog.Written "stdout" x.result.stdout out ∧
        RawLog.Written "stderr" x.result.stderr err ∧
        x.entry = "\n============================================================\n" ++
          "[" ++ x.now.stamp ++ "] RUFF raw output" ++
          (if x.config.toString = "" then "" else " (config: " ++ x.config.toString ++ ")") ++
          "\n============================================================\n" ++ out ++ err) ∧
      ∀ entered, entered <+: returned → entered ≠ [] →
        (s.files.contentAt place ++
          RawLog.bytes (entered.map Ruff.Return.entry)).getLast? = some 10 := by
  intro after
  obtain ⟨place, hopens⟩ := hwritable.opensAt (by decide)
  -- The log is opened once, at the start; the suite then keeps this one log.
  let b : Logbook := ⟨log, around, s.files, place⟩
  obtain ⟨new, hjournal, hannounced, hfiles⟩ :=
    onHost_keeps (b := b) hlog hleave hopens fixtures registry hworkers s [] rfl
  refine ⟨place, new, hjournal, hannounced, ?_, fun x _ => ?_, fun entered _ hentered => ?_⟩
  · have hgained := hopens.gained (by decide)
      ((Ruff.returns around.host s.journal new).map Ruff.Return.entry)
    have hafter : after.files = _ := hfiles
    rw [hafter]
    exact hgained
  · refine ⟨_, _, RawLog.stream_written _ _, RawLog.stream_written _ _, ?_⟩
    rw [Ruff.Return.entry, RawLog.entry_eq, RawLog.frame_ruff]
  · obtain ⟨before, x, rfl⟩ := (List.eq_nil_or_concat' entered).resolve_left hentered
    rw [List.map_append]
    exact RawLog.getLast?_bytes_concat _ _ _ _ _ _ _

def failingHost : Host where
  now := 0
  ruffRun := fun _ _ => .returned (.mk 2 "" "no end of line")
  pylintRun := fun _ _ => ⟨[], .returned⟩

/-- The directory of the log is made for the first of two processes. -/
theorem verifySuite_keeps_log_made :
    let t := fixtureTree [(lambdaCheck, [])]
    let assembly := Assembly.ofValues failingHost ⟨.table [], ⟨0, []⟩⟩ false ⟨0, ["logs"]⟩ 300
      ⟨0, ["checks"]⟩
    let after := ((assembly.runner.verifySuite ⟨[lambdaCheck]⟩ 1).run (.start t)).2
    let returned := Ruff.returns (fun _ => failingHost) [] after.journal
    t.isDirectory "logs" = false ∧ after.files.isDirectory "logs" = true ∧ returned.length = 2 ∧
      ∃ place, after.files.resolve "logs/raw_ruff.log" = .ok place ∧
        after.files.find? place =
          some (.file (t.contentAt place ++ RawLog.bytes (returned.map Ruff.Return.entry))) := by
  intro t assembly after returned
  have hwritable : assembly.rawLog.Writable Ruff.engineName t := by
    refine ⟨0, "", "", "", ?_⟩
    rw [RawLog.append, FileTree.makeDirectories, dif_neg (by decide +kernel)]
    decide +kernel
  have hafter : after.files.isDirectory "logs" = true ∧ returned.length = 2 := by decide +kernel
  have hworkers : (1 : Int) ≤ 1 := Int.le_refl 1
  have hleave : Surroundings.LeaveFiles ⟨fun _ => failingHost, fun _ t => t⟩ := fun _ _ => rfl
  have hlog : assembly.ruff.log = some assembly.rawLog := rfl
  obtain ⟨place, new, hjournal, -, hgained, -⟩ := verifySuite_keeps_log hlog hleave
    ⟨⟨0, ["checks"]⟩⟩ ⟨[lambdaCheck]⟩ hworkers (s := .start t) hwritable
  rw [← Assembly.runner_ofValues] at hjournal hgained
  obtain rfl : after.journal = new := by
    rw [GateState.start, List.nil_append] at hjournal
    exact hjournal
  have hne : returned.map Ruff.Return.entry ≠ [] := by
    intro hnil
    rw [List.map_eq_nil_iff.mp hnil] at hafter
    cases hafter.2
  have hpath : assembly.rawLog.pathFor Ruff.engineName = "logs/raw_ruff.log" := by decide +kernel
  have hcontent := hgained.content hne
  rw [hpath] at hcontent
  exact ⟨by decide +kernel, hafter.1, hafter.2, place, hcontent⟩

end Runner

end LintGate
