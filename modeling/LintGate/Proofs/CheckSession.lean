import LintGate.Proofs.Episodes
import LintGate.Proofs.Lookup
import LintGate.Proofs.Protocol
import LintGate.Proofs.Spoiling

/-! # The session of a check

A check asks for a session just in case its fixture, the configuration, the sample and its engine
are there; otherwise the first of them that is lacking is its fault, and nothing else happens. A
session that is granted processes the one sample and is closed whatever its run comes to. Its
history is therefore a single episode at most, and that of a suite, done in sequence, a row of them.
As file trees have no permissions, nothing but its length keeps a path from being asked for.
-/

namespace LintGate

open Gate

/-- Something that has to stand at a path, and the fault that says that it does not. -/
structure Need where
  path : Path
  suits : FileEntry → Bool
  absent : Fault

namespace Need

def Met (n : Need) (t : FileTree) : Prop :=
  ∃ entry, t.look n.path.toString = .ok (some entry) ∧ n.suits entry = true

/-- Nothing suitable stands at the path, which can be asked for. -/
def Unmet (n : Need) (t : FileTree) : Prop :=
  ∃ found, t.look n.path.toString = .ok found ∧ ∀ entry, found = some entry → n.suits entry = false

def demand (t : FileTree) (n : Need) : Except Fault Unit := t.require n.path n.suits n.absent

theorem demand_eq_ok_iff {n : Need} {t : FileTree} : (∃ a, n.demand t = .ok a) ↔ n.Met t := by
  rw [Met, ← FileTree.require_eq_ok_iff]
  constructor
  · rintro ⟨⟨⟩, h⟩
    exact h
  · exact fun h => ⟨(), h⟩

theorem demand_eq_error {n : Need} {t : FileTree} {fault : Fault}
    (h : n.demand t = .error fault) :
    (n.Unmet t ∧ fault = n.absent) ∨
      t.look n.path.toString = .error ⟨.nameTooLong, n.path.toString⟩ ∧
        fault = .file ⟨.nameTooLong, n.path.toString⟩ := by
  rw [demand, FileTree.require] at h
  cases hlook : t.look n.path.toString with
  | error cause =>
    have hcause := FileTree.look_eq_error hlook
    rw [hlook] at h
    cases h
    rw [hcause]
    exact .inr ⟨rfl, rfl⟩
  | ok found =>
    rw [hlook] at h
    cases found with
    | none =>
      cases h
      exact .inl ⟨⟨none, hlook, by simp⟩, rfl⟩
    | some entry =>
      dsimp only at h
      split_ifs at h with hsuits
      cases h
      refine .inl ⟨⟨some entry, hlook, ?_⟩, rfl⟩
      rintro _ ⟨⟩
      simpa using hsuits

end Need

namespace Runner

/-- The fixture of a check, whether it is there or not. -/
def fixture (r : Runner) (check : Check) : Fixture :=
  ⟨check.name, r.fixtures.directory check,
    r.fixtures.directory check / Path.ofString Fixture.configName⟩

/-- What a check on a sample needs of the tree, in the order in which it asks: the directory of its
fixture, the configuration there, and the sample. -/
def needs (r : Runner) (check : Check) (sample : String) : List Need :=
  let fixture := r.fixture check
  [⟨fixture.directory, (· == .directory), .noFixture check fixture.directory⟩,
    ⟨fixture.config, (· != .directory), .noConfiguration check fixture.config⟩,
    ⟨fixture.sample sample, (· != .directory), .noSample check.name (fixture.sample sample)⟩]

structure Ready (r : Runner) (t : FileTree) (check : Check) (sample : String) (engine : Engine) :
    Prop where
  needs : ∀ n ∈ r.needs check sample, n.Met t
  engine : r.engines.lookup check.engine = some engine

/-- What a check on a sample lacks first, by the fault that says so. -/
inductive Lacks (r : Runner) (t : FileTree) (check : Check) (sample : String) : Fault → Prop
  | absent {before behind : List Need} {need : Need}
      (order : r.needs check sample = before ++ need :: behind)
      (earlier : ∀ n ∈ before, n.Met t) (unmet : need.Unmet t) :
    r.Lacks t check sample need.absent
  /-- A path is too long to be asked for, so that it cannot be told whether anything is there. -/
  | unasked {before behind : List Need} {need : Need}
      (order : r.needs check sample = before ++ need :: behind)
      (earlier : ∀ n ∈ before, n.Met t)
      (long : t.look need.path.toString = .error ⟨.nameTooLong, need.path.toString⟩) :
    r.Lacks t check sample (.file ⟨.nameTooLong, need.path.toString⟩)
  | engine (needs : ∀ n ∈ r.needs check sample, n.Met t)
      (unknown : r.engines.lookup check.engine = none) :
    r.Lacks t check sample (.unknownEngine check)

variable {r : Runner} {t u : FileTree} {check : Check} {sample : String} {engine : Engine}

/-- The parts of a run are looked for one after the other. -/
theorem target_eq (r : Runner) (t : FileTree) (check : Check) (sample : String) :
    r.target t check sample = do
      let _ ← (r.needs check sample).mapM (Need.demand t)
      let engine ← r.engineFor check
      return ⟨engine, (r.fixture check).config, (r.fixture check).sample sample⟩ := by
  have hmap : ∀ (x : Except Fault Unit) (path : Path) (f : Path → Except Fault Target),
      x.map (fun _ => path) >>= f = x >>= fun _ => f path := by
    intro x path f
    cases x <;> rfl
  simp only [target, Fixtures.load, Fixture.samplePath, FileTree.requireDirectory,
    FileTree.requireFile, needs, fixture, Need.demand, List.mapM_cons, List.mapM_nil, bind_assoc,
    pure_bind, hmap]

theorem Ready.target (h : r.Ready t check sample engine) :
    r.target t check sample =
      .ok ⟨engine, (r.fixture check).config, (r.fixture check).sample sample⟩ := by
  have hmet : ∀ n ∈ r.needs check sample, ∃ a, n.demand t = .ok a :=
    fun n hn => Need.demand_eq_ok_iff.mpr (h.needs n hn)
  obtain ⟨_, hdemands⟩ := exists_mapM_eq_ok_iff.mpr hmet
  rw [target_eq, hdemands, engineFor, h.engine]
  rfl

theorem ready_of_target {target : Target} (h : r.target t check sample = .ok target) :
    r.Ready t check sample target.engine := by
  rw [target_eq, bind_eq_ok_iff] at h
  obtain ⟨_, hdemands, h⟩ := h
  rw [bind_eq_ok_iff] at h
  obtain ⟨engine, hengine, h⟩ := h
  cases h
  have hmet := exists_mapM_eq_ok_iff.mp ⟨_, hdemands⟩
  refine ⟨fun n hn => Need.demand_eq_ok_iff.mp (hmet n hn), ?_⟩
  rw [engineFor] at hengine
  cases hlookup : r.engines.lookup check.engine with
  | none => rw [hlookup] at hengine; cases hengine
  | some registered => rw [hlookup] at hengine; cases hengine; rfl

theorem lacks_of_target {fault : Fault} (h : r.target t check sample = .error fault) :
    r.Lacks t check sample fault := by
  rw [target_eq, bind_eq_error_iff] at h
  rcases h with hdemands | ⟨_, hdemands, h⟩
  · obtain ⟨before, need, behind, horder, hbefore, hneed⟩ :=
      exists_first_of_mapM_eq_error hdemands
    have hearlier : ∀ n ∈ before, n.Met t :=
      fun n hn => Need.demand_eq_ok_iff.mp (hbefore n hn)
    rcases Need.demand_eq_error hneed with ⟨hunmet, rfl⟩ | ⟨hlong, rfl⟩
    · exact .absent horder hearlier hunmet
    · exact .unasked horder hearlier hlong
  · have hmet := exists_mapM_eq_ok_iff.mp ⟨_, hdemands⟩
    rw [bind_eq_error_iff] at h
    rcases h with hengine | ⟨engine, -, h⟩
    · rw [engineFor] at hengine
      cases hlookup : r.engines.lookup check.engine with
      | some engine => rw [hlookup] at hengine; cases hengine
      | none =>
        rw [hlookup] at hengine
        cases hengine
        exact .engine (fun n hn => Need.demand_eq_ok_iff.mp (hmet n hn)) hlookup
    · cases h

/-- A check that lacks something asks for no session, and nothing is told or changed. -/
theorem capture_lacking {fault : Fault} (h : r.target t check sample = .error fault) :
    (r.capture check sample).Yields t (.refused fault) t [] := by
  refine (Yields.files t).bind ?_
  rw [h]
  exact .pure _ t

theorem capture_ready (h : r.Ready t check sample engine) {capture : Capture} {hs : List Event}
    (hhold : (engine.session (r.fixture check).config
      [[(r.fixture check).sample sample]]).hold.Recounts t capture u hs) :
    (r.capture check sample).Recounts t capture u hs := by
  refine (Recounts.files t).bind ?_
  rw [h.target]
  exact (Recounts.tell _ _ t).bind hhold

theorem Ready.capture_refused (h : r.Ready t check sample engine) {fault : Fault}
    (hrefusal : engine.refusal? (r.fixture check).config t = some fault) :
    (r.capture check sample).Recounts t (.refused fault) t
      (Episode.events ⟨engine.name, (r.fixture check).config, none⟩) :=
  capture_ready h ((engine.session _ _).hold_recounts_request hrefusal)

/-- A session that is granted has one run, over the sample, and what its collector takes is what the
run emits. -/
theorem Ready.capture_held (h : r.Ready t check sample engine)
    (hgranted : engine.refusal? (r.fixture check).config t = none) {e : Emission}
    (hrun : (engine.run (r.fixture check).config [(r.fixture check).sample sample]).Recounts
      t e u []) :
    ∃ capture, (r.capture check sample).Recounts t capture u (Episode.events ⟨engine.name,
        (r.fixture check).config,
        some [([(r.fixture check).sample sample], Finding.delivered e.findings)]⟩) ∧
      Collector.empty.Takes e.violations capture := by
  obtain ⟨capture, hfollow, htakes⟩ :=
    Collector.empty.follow_one_recounts (hrun.after_record (e := .processed _ _ _) rfl)
  refine ⟨capture, capture_ready h ?_, htakes⟩
  let session := engine.session (r.fixture check).config [[(r.fixture check).sample sample]]
  simp only [Episode.events, Episode.course, List.flatMap_singleton]
  exact session.hold_recounts hgranted hfollow

def Discreet (r : Runner) : Prop := ∀ entry ∈ r.engines, entry.2.Discreet

/-- The gate that is put together has discreet engines. -/
theorem HasEngines.discreet {ruff : Ruff} {completion : Path → List Path → Completion}
    {runOf : Path → List Path → PylintRun} (h : r.HasEngines ruff completion runOf) :
    r.Discreet := by
  rw [HasEngines] at h
  rw [Discreet, h]
  simp [Ruff.engine_discreet, Pylint.engine_discreet]

theorem Discreet.of_ready (hr : r.Discreet) (h : r.Ready t check sample engine) :
    engine.Discreet := by
  obtain ⟨before, behind, hentries, -⟩ := List.lookup_eq_some_iff.mp h.engine
  exact hr (check.engine, engine) (by simp [hentries])

/-- A check that is ready asks for a session, whether the engine grants it or not. -/
theorem Discreet.requested (hr : r.Discreet) (h : r.Ready t check sample engine) :
    .requested engine.name (r.fixture check).config ∈ (r.capture check sample).events t := by
  cases hrefusal : engine.refusal? (r.fixture check).config t with
  | some fault => exact (h.capture_refused hrefusal).mem_events (by simp [Episode.events])
  | none =>
    obtain ⟨e, u, hrun⟩ := hr.of_ready h (r.fixture check).config
      [(r.fixture check).sample sample] t
    obtain ⟨capture, hheld, -⟩ := h.capture_held hrefusal hrun
    exact hheld.mem_events (by simp [Episode.events])

theorem Discreet.capture_episodic (hr : r.Discreet) (check : Check) (sample : String) :
    (r.capture check sample).Episodic := by
  intro t
  cases htarget : r.target t check sample with
  | error fault => exact ⟨_, _, [], _, capture_lacking htarget, rfl⟩
  | ok target =>
    have hready := ready_of_target htarget
    cases hrefusal : target.engine.refusal? (r.fixture check).config t with
    | some fault =>
      have hrefused := hready.capture_refused hrefusal
      exact ⟨_, _, [_], by simpa using hrefused⟩
    | none =>
      obtain ⟨e, u, hrun⟩ := hr.of_ready hready (r.fixture check).config
        [(r.fixture check).sample sample] t
      obtain ⟨capture, hheld, -⟩ := hready.capture_held hrefusal hrun
      exact ⟨_, _, [_], by simpa using hheld⟩

/-- A suite that carries out its checks in sequence holds one session after the other. -/
theorem Discreet.verifySuite_episodic (hr : r.Discreet) (registry : Registry) {workers : Int}
    (hworkers : workers ≤ 1) : (r.verifySuite registry workers).Episodic :=
  Episodic.composes.verifySuite registry hworkers fun check _ => hr.capture_episodic check

/-- A check asks for a session just in case all that it needs is there; otherwise nothing happens
but that it is refused, for what it lacks first. The session that is asked for has the configuration
of the fixture. If the engine grants it, it processes the sample alone, the listener hears what the
run emits, and then the session is closed; a fault that ends the run is that of the capture. In a
suite that is carried out in sequence, no two sessions overlap and every one is closed. -/
theorem sessions_bracketed (hr : r.Discreet) :
    (∀ t check sample,
      ((∃ name config, .requested name config ∈ (r.capture check sample).events t) ↔
        ∃ engine, r.Ready t check sample engine) ∧
      ((¬∃ engine, r.Ready t check sample engine) → ∃ fault, r.Lacks t check sample fault ∧
        (r.capture check sample).Yields t (.refused fault) t []) ∧
      ∀ engine, r.Ready t check sample engine →
        (∀ fault, engine.refusal? (r.fixture check).config t = some fault →
          (r.capture check sample).Recounts t (.refused fault) t
            (Episode.events ⟨engine.name, (r.fixture check).config, none⟩)) ∧
        (engine.refusal? (r.fixture check).config t = none → ∃ e u capture,
          (engine.run (r.fixture check).config [(r.fixture check).sample sample]).Recounts
            t e u [] ∧
          (r.capture check sample).Recounts t capture u (Episode.events ⟨engine.name,
            (r.fixture check).config,
            some [([(r.fixture check).sample sample], Finding.delivered e.findings)]⟩) ∧
          Collector.empty.Takes e.violations capture ∧
          ((∀ f ∈ e.findings, ∃ v, f.toViolation = .ok v) →
            Finding.delivered e.findings = e.findings ∧ capture.fault = e.failure))) ∧
    ∀ registry workers t, workers ≤ 1 →
      (∃ episodes : List Episode,
        history ((r.verifySuite registry workers).events t) = episodes.flatMap Episode.events) ∧
      ∀ p, Bracketed p ((r.verifySuite registry workers).events t) := by
  constructor
  · intro t check sample
    refine ⟨⟨?_, ?_⟩, ?_, fun engine hready => ⟨fun fault => hready.capture_refused, ?_⟩⟩
    · rintro ⟨name, config, hrequested⟩
      cases htarget : r.target t check sample with
      | ok target => exact ⟨_, ready_of_target htarget⟩
      | error fault =>
        rw [(capture_lacking htarget).events_eq] at hrequested
        cases hrequested
    · rintro ⟨engine, hready⟩
      exact ⟨_, _, hr.requested hready⟩
    · intro hunready
      cases htarget : r.target t check sample with
      | ok target => exact absurd ⟨_, ready_of_target htarget⟩ hunready
      | error fault => exact ⟨fault, lacks_of_target htarget, capture_lacking htarget⟩
    · intro hgranted
      obtain ⟨e, u, hrun⟩ := hr.of_ready hready (r.fixture check).config
        [(r.fixture check).sample sample] t
      obtain ⟨capture, hheld, htakes⟩ := hready.capture_held hgranted hrun
      refine ⟨e, u, capture, hrun, hheld, htakes, fun hall => ?_⟩
      exact ⟨Finding.delivered_eq_self hall, htakes.fault_eq hall⟩
  · intro registry workers t hworkers
    obtain ⟨a, u, episodes, hsuite⟩ := hr.verifySuite_episodic registry hworkers t
    have hhistory := hsuite.history_eq
    refine ⟨⟨episodes, hhistory⟩, fun p => .of_history ?_⟩
    rw [hhistory]
    exact Episode.bracketed_flatMap p episodes

def interruptedRunner : Runner where
  engines := [("pylint", .scripted "pylint" none fun _ =>
    ⟨[.config ⟨"half-way"⟩], some (.raised .runtime "interrupted")⟩)]
  fixtures := ⟨⟨0, ["checks"]⟩⟩

/-- What was found before the interruption is heard, and the session is closed. -/
theorem sessions_bracketed_interrupted :
    let t := fixtureTree [(importCheck, [])]
    let config : Path := ⟨0, ["checks", "pylint", "UnusedImportRule", "config.toml"]⟩
    let sample : Path := ⟨0, ["checks", "pylint", "UnusedImportRule", "Invalid.py"]⟩
    ((interruptedRunner.capture importCheck Sample.invalid).value t).fault =
      some (.raised .runtime "interrupted") ∧
    history ((interruptedRunner.capture importCheck Sample.invalid).events t) =
      [.requested "pylint" config, .opened "pylint" config, .processed "pylint" config [sample],
        .heard (.config ⟨"half-way"⟩), .closed "pylint" config] ∧
    ∀ p, Bracketed p
      ((interruptedRunner.verifySuite ⟨[importCheck, importCheck]⟩ 1).events t) := by
  intro t config sample
  have hdiscreet : interruptedRunner.Discreet := by
    simp [interruptedRunner, Discreet, Engine.scripted_discreet]
  have hready : interruptedRunner.Ready t importCheck Sample.invalid (.scripted "pylint" none
      fun _ => ⟨[.config ⟨"half-way"⟩], some (.raised .runtime "interrupted")⟩) := by
    refine ⟨?_, rfl⟩
    simp only [needs, List.forall_mem_cons]
    exact ⟨⟨.directory, by decide +kernel, rfl⟩, ⟨.file [], by decide +kernel, rfl⟩,
      ⟨.file [], by decide +kernel, rfl⟩, by simp⟩
  obtain ⟨hchecks, hsuites⟩ := sessions_bracketed hdiscreet
  obtain ⟨e, u, capture, hrun, hheld, -, hfault⟩ :=
    ((hchecks t importCheck Sample.invalid).2.2 _ hready).2 rfl
  have he := hrun.value_eq
  subst he
  have hall : ∀ f ∈ [Finding.config ⟨"half-way"⟩], ∃ v, f.toViolation = .ok v := by
    simp [Finding.toViolation]
  obtain ⟨hdelivered, hfault⟩ := hfault hall
  refine ⟨?_, ?_, (hsuites _ _ t (by decide)).2⟩
  · rw [hheld.value_eq, hfault]
    rfl
  · rw [hheld.history_eq, hdelivered]
    decide +kernel

end Runner

end LintGate
