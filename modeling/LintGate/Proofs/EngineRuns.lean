import LintGate.Engine.Pylint
import LintGate.Engine.Ruff
import LintGate.Proofs.Lookup
import LintGate.Proofs.SessionRun

/-! # Runs of the engines

The engines that the gate knows are opened for a configuration that is a file; Pylint asks for more
of one in TOML. All of them are lawful. A run of Pylint writes its arguments down and emits what
it came to. A run of Ruff that returned first keeps its raw output; if that succeeds, its status
and its output alone say what it emits, and the tree is the one with the raw output.
-/

namespace LintGate

open Gate

namespace SessionStep

theorem refusal?_requireFile_congr {t u : FileTree} {path : Path}
    (h : u.look path.toString = t.look path.toString) (engine : String) :
    refusal? u (.requireFile engine path) = refusal? t (.requireFile engine path) := by
  rw [refusal?, refusal?, FileTree.requireFile, FileTree.requireFile, FileTree.require_congr h]

theorem read_of_refusal? {t : FileTree} {engine : String} {path : Path}
    (h : refusal? t (.requireFile engine path) = none) :
    ∃ content, t.read path.toString = .ok content := by
  rw [refusal?] at h
  cases hfile : t.requireFile path (.configurationNotFound engine path) with
  | error fault => simp [hfile] at h
  | ok u =>
    obtain ⟨entry, hlook, hentry⟩ := FileTree.require_eq_ok_iff.mp hfile
    cases entry with
    | directory => cases hentry
    | file content => exact ⟨content, FileTree.read_eq_ok_iff.mpr hlook⟩

end SessionStep

/-- A run has its parts only where the configuration is a file. -/
theorem Runner.refusal?_of_target {r : Runner} {t : FileTree} {check : Check} {sample : String}
    {target : Target} (h : r.target t check sample = .ok target) (engine : String) :
    SessionStep.refusal? t (.requireFile engine target.config) = none := by
  simp only [Runner.target, Fixtures.load, bind_eq_ok_iff] at h
  obtain ⟨fixture, ⟨_, -, _, hconfig, hfixture⟩, path, -, found, -, htarget⟩ := h
  cases hfixture
  cases htarget
  rw [SessionStep.refusal?, FileTree.requireFile,
    FileTree.require_eq_ok_iff.mpr (FileTree.require_eq_ok_iff.mp hconfig)]

namespace Pylint

theorem findSome?_opening (t : FileTree) (config : Path) :
    (opening config).findSome? (SessionStep.refusal? t) =
      (SessionStep.refusal? t (.requireFile engineName config)).or
        (if config.suffix = ".toml" then SessionStep.checkToml engineName config t else none) := by
  have hlast : ∀ message, [SessionStep.lock, .announce message].findSome?
      (SessionStep.refusal? t) = none := fun _ => rfl
  have htoml : [SessionStep.requireToml engineName config].findSome? (SessionStep.refusal? t) =
      SessionStep.checkToml engineName config t := by
    rw [List.findSome?_singleton]
    rfl
  rw [opening, List.findSome?_append, List.findSome?_append, hlast, Option.or_none,
    List.findSome?_singleton]
  split_ifs
  · rw [htoml]
  · rfl

/-- A configuration that is the same file is refused alike. -/
theorem opening_congr {t u : FileTree} {config : Path}
    (h : u.look config.toString = t.look config.toString) :
    (opening config).findSome? (SessionStep.refusal? u) =
      (opening config).findSome? (SessionStep.refusal? t) := by
  rw [findSome?_opening, findSome?_opening, SessionStep.refusal?_requireFile_congr h]
  cases hfile : SessionStep.refusal? t (.requireFile engineName config) with
  | some fault => rfl
  | none =>
    obtain ⟨content, hcontent⟩ := SessionStep.read_of_refusal? hfile
    have hread : u.read config.toString = .ok content := by
      rw [FileTree.read_eq_ok_iff, h, ← FileTree.read_eq_ok_iff, hcontent]
    rw [SessionStep.checkToml, SessionStep.checkToml, hread, hcontent]

theorem run_emits (config : Path) (files : List Path) (r : PylintRun) (t : FileTree) :
    (run config files r).Emits t (emission config r) t :=
  ⟨_, (Yields.record _ t).bind (.pure _ t), rfl⟩

theorem engine_lawful (runOf : Path → List Path → PylintRun) : (engine runOf).Lawful :=
  fun config files t => ⟨_, _, run_emits config files (runOf config files) t⟩

end Pylint

namespace Ruff

/-- The tree in which the raw output of a run is kept, and the fault if it cannot be. -/
def kept (r : Ruff) (t : FileTree) (config : Path) (result : ProcessResult) :
    FileTree × Option Fault :=
  match r.log with
  | none => (t, none)
  | some log =>
    let written := log.append t r.now engineName result.stdout result.stderr config.toString
    (written.1, written.2.map .file)

/-- What the status and the output of a returned process come to. -/
def conclusion (config : Path) (subject : String) (result : ProcessResult) : Emission :=
  if abnormalStatus ≤ result.status then .one (abnormalEnd config subject result)
  else
    match RuffOutput.read subject result.stdout with
    | .ok findings => ⟨findings, none⟩
    | .error fault => .fail fault

theorem keep_yields (r : Ruff) (t : FileTree) (config : Path) (result : ProcessResult) :
    (r.keep config result).Yields t (r.kept t config result).2 (r.kept t config result).1 [] := by
  rw [keep, kept]
  cases r.log with
  | none => exact .pure _ t
  | some log => exact (Yields.files t).bind ((Yields.setFiles t _).bind (.pure _ _))

theorem conclude_emits (config : Path) (subject : String) (result : ProcessResult)
    (t : FileTree) :
    (conclude config subject result).Emits t (conclusion config subject result) t := by
  rw [conclude, conclusion]
  by_cases hstatus : abnormalStatus ≤ result.status
  · rw [if_pos hstatus, if_pos hstatus]
    exact ⟨_, .pure _ t, rfl⟩
  · rw [if_neg hstatus, if_neg hstatus]
    have hread : (match RuffOutput.read subject result.stdout with
        | .ok findings => pure ⟨findings, none⟩
        | .error fault => pure (.fail fault) : Gate Emission).Emits t
        (match RuffOutput.read subject result.stdout with
        | .ok findings => ⟨findings, none⟩
        | .error fault => .fail fault) t := by
      cases RuffOutput.read subject result.stdout <;> exact ⟨_, .pure _ t, rfl⟩
    by_cases hcomplaint : result.stderr.stripped ≠ ""
    · change Gate.Emits (if result.stderr.stripped ≠ "" then _ else _) t _ t
      rw [if_pos hcomplaint]
      exact hread.after_record (fun f h => by cases h)
    · change Gate.Emits (if result.stderr.stripped ≠ "" then _ else _) t _ t
      rw [if_neg hcomplaint]
      exact hread

section Returned

variable {r : Ruff} {t u : FileTree} {config : Path} {result : ProcessResult}

/-- A run whose raw output is kept emits what its status and its output come to. -/
theorem run_kept (files : List Path) (h : r.kept t config result = (u, none)) :
    (r.run config files (.returned result)).Emits t
      (conclusion config (Path.listing files) result) u := by
  have hkeep := r.keep_yields t config result
  rw [h] at hkeep
  obtain ⟨es, hconclude, hes⟩ := conclude_emits config (Path.listing files) result u
  exact ⟨_, (Yields.record _ t).bind (hkeep.bind hconclude), by simp [hes]⟩

theorem run_unkept (files : List Path) {fault : Fault}
    (h : r.kept t config result = (u, some fault)) :
    (r.run config files (.returned result)).Emits t (.fail fault) u := by
  have hkeep := r.keep_yields t config result
  rw [h] at hkeep
  exact ⟨_, (Yields.record _ t).bind (hkeep.bind (.pure _ u)), by simp⟩

end Returned

/-- A run that did not return emits something, or fails. It leaves the tree alone. -/
theorem run_unreturned (r : Ruff) (config : Path) (files : List Path) {completion : Completion}
    (h : ∀ result, completion ≠ .returned result) :
    ∃ e, (∀ t, (r.run config files completion).Emits t e t) ∧
      ¬ (e.findings = [] ∧ e.failure = none) := by
  have hquiet : ∀ e : Emission, ∀ t, (do
      Gate.record (.spawned (r.command config files) r.timeout)
      pure e : Gate Emission).Emits t e t :=
    fun e t => ⟨_, (Yields.record _ t).bind (.pure _ t), rfl⟩
  cases completion with
  | returned result => exact absurd rfl (h result)
  | notFound => exact ⟨_, hquiet _, by simp [Emission.one]⟩
  | denied => exact ⟨_, hquiet _, by simp [Emission.fail]⟩
  | failed fault => exact ⟨_, hquiet _, by simp [Emission.fail]⟩
  | timedOut =>
    rw [run]
    cases Text.Numeral.write? r.timeout with
    | none => exact ⟨_, hquiet _, by simp [Emission.fail]⟩
    | some seconds => exact ⟨_, hquiet _, by simp [Emission.one]⟩

theorem run_emits (r : Ruff) (config : Path) (files : List Path) (completion : Completion)
    (t : FileTree) : ∃ e u, (r.run config files completion).Emits t e u := by
  by_cases h : ∃ result, completion = .returned result
  · obtain ⟨result, rfl⟩ := h
    rcases hkept : r.kept t config result with ⟨u, _ | fault⟩
    · exact ⟨_, _, run_kept files hkept⟩
    · exact ⟨_, _, run_unkept files hkept⟩
  · obtain ⟨e, hemits, -⟩ := r.run_unreturned config files fun result hr => h ⟨result, hr⟩
    exact ⟨_, _, hemits t⟩

theorem engine_lawful (r : Ruff) (completion : Path → List Path → Completion) :
    (r.engine completion).Lawful :=
  fun config files t => r.run_emits config files (completion config files) t

end Ruff

end LintGate
