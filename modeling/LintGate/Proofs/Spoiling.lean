import LintGate.Proofs.Escape
import LintGate.Proofs.Agreement

/-! # What spoils a capture

In a gate of Ruff and Pylint, whose engines emit well-formed findings, a fault of a capture escapes
for one of three reasons: a path of the fixture cannot be asked for, Pylint is given a configuration
that is no text or has too long a numeral, or the run itself fails or reports a line that cannot be
written.
-/

namespace LintGate

open Gate

theorem suffix_config (p : Path) : (p / Path.ofString Fixture.configName).suffix = ".toml" := by
  have hjoin : p / Path.ofString Fixture.configName = ⟨p.slashes, p.names ++ ["config.toml"]⟩ := by
    have hname : Path.ofString Fixture.configName = ⟨0, ["config.toml"]⟩ := by decide
    rw [hname]
    rfl
  have hlast : (p / Path.ofString Fixture.configName).name = "config.toml" := by
    rw [hjoin, Path.name, List.getLast?_concat]
    rfl
  rw [Path.suffix, hlast]
  decide

namespace Runner

/-- What the engines of a gate emit over a tree is of one of the three shapes, with lines from zero
on and texts that are texts. -/
def EmitsWellFormed (r : Runner) (t : FileTree) : Prop :=
  ∀ entry ∈ r.engines, ∀ config files, ∀ f ∈ ((entry.2.run config files).value t).findings,
    f.IsRegular ∧ f.HasTexts

/-- What keeps a check from being captured on a sample though it is no fault of the gate. -/
inductive Spoils (r : Runner) (t : FileTree) (check : Check) (sample : String) : Prop
  /-- A path of the fixture cannot be asked for. -/
  | path {cause : FileTree.Fault} (target : r.target t check sample = .error (.file cause))
  /-- The configuration is one that Pylint's session cannot read. -/
  | config {target : Target} (found : r.target t check sample = .ok target)
      (engine : check.engine = Pylint.engineName)
      (unreadable : Pylint.Unreadable t target.config)
  | run {target : Target} (found : r.target t check sample = .ok target)
      (opened : (target.engine.opening target.config).findSome? (SessionStep.refusal? t) = none)
      (spoilt : ((target.engine.run target.config [target.sample]).value t).Spoilt)

variable {r : Runner} {t : FileTree} {check : Check} {sample : String}

def HasEngines (r : Runner) (ruff : Ruff) (completion : Path → List Path → Completion)
    (runOf : Path → List Path → PylintRun) : Prop :=
  r.engines = [(Ruff.engineName, ruff.engine completion), (Pylint.engineName, Pylint.engine runOf)]

section Engines

variable {ruff : Ruff} {completion : Path → List Path → Completion}
  {runOf : Path → List Path → PylintRun}

theorem HasEngines.lawful (h : r.HasEngines ruff completion runOf) : r.Lawful := by
  rw [HasEngines] at h
  rw [Lawful, h]
  simp [Ruff.engine_lawful, Pylint.engine_lawful]

theorem HasEngines.refusal_escapes_iff (h : r.HasEngines ruff completion runOf) {target : Target}
    (htarget : r.target t check sample = .ok target) :
    (Capture.Escapes ⟨.empty,
        (target.engine.opening target.config).findSome? (SessionStep.refusal? t)⟩) ↔
      check.engine = Pylint.engineName ∧ Pylint.Unreadable t target.config := by
  have hsuffix : target.config.suffix = ".toml" := by
    obtain ⟨f, hload, hconfig⟩ := load_of_target htarget
    rw [hconfig, Fixtures.load_eq_ok hload]
    exact suffix_config _
  have hmem := mem_of_engineFor (engineFor_of_target htarget)
  rw [HasEngines] at h
  rw [h] at hmem
  simp only [List.mem_cons, Prod.mk.injEq, List.not_mem_nil, or_false] at hmem
  rcases hmem with ⟨hname, hengine⟩ | ⟨hname, hengine⟩
  · rw [hengine, hname]
    change Capture.Escapes ⟨.empty, (Ruff.opening target.config).findSome? _⟩ ↔ _
    rw [Ruff.opening, List.findSome?_cons, refusal?_of_target htarget]
    simp [Capture.Escapes, SessionStep.refusal?, Ruff.engineName, Pylint.engineName]
  · rw [hengine, hname]
    change Capture.Escapes ⟨.empty, (Pylint.opening target.config).findSome? _⟩ ↔ _
    simpa using Pylint.refusal_escapes_iff (refusal?_of_target htarget _) hsuffix

/-- A fault of the capture escapes just in case one of the named things has spoilt it. -/
theorem HasEngines.escapes_capture_iff (h : r.HasEngines ruff completion runOf)
    (hw : r.EmitsWellFormed t) (check : Check) (sample : String) :
    ((r.capture check sample).value t).Escapes ↔ r.Spoils t check sample := by
  rw [capture_eq h.lawful check sample t]
  cases htarget : r.target t check sample with
  | error fault =>
    constructor
    · rintro ⟨_, ⟨⟩, hescapes⟩
      obtain ⟨cause, hcause⟩ := (AsksPaths.target r t check sample).escapes_iff.mp
        ⟨fault, htarget, hescapes⟩
      exact .path hcause
    · intro hspoils
      cases hspoils with
      | path hcause =>
        rw [htarget] at hcause
        cases hcause
        exact ⟨_, rfl, isGate_file _⟩
      -- Without a target neither a configuration nor a run can be what has spoilt it.
      | config hfound => rw [htarget] at hfound; cases hfound
      | run hfound => rw [htarget] at hfound; cases hfound
  | ok target =>
    have hrefusal := h.refusal_escapes_iff htarget
    cases hopening : (target.engine.opening target.config).findSome? (SessionStep.refusal? t) with
    | some fault =>
      rw [hopening] at hrefusal
      simp only [hopening, Capture.refused, hrefusal]
      constructor
      · rintro ⟨hname, hunreadable⟩
        exact .config htarget hname hunreadable
      · intro hspoils
        cases hspoils with
        | path hcause => rw [htarget] at hcause; cases hcause
        | config hfound hname hunreadable =>
          rw [htarget] at hfound
          cases hfound
          exact ⟨hname, hunreadable⟩
        | run hfound hopened =>
          rw [htarget] at hfound
          cases hfound
          rw [hopening] at hopened
          cases hopened
    | none =>
      rw [hopening] at hrefusal
      have htexts := hw _ (mem_of_engineFor (engineFor_of_target htarget)) target.config
        [target.sample]
      simp only [hopening]
      rw [Emission.escapes_capture_iff fun f hf => (htexts f hf).2]
      constructor
      · exact .run htarget hopening
      · intro hspoils
        cases hspoils with
        | path hcause => rw [htarget] at hcause; cases hcause
        | config hfound hname hunreadable =>
          rw [htarget] at hfound
          cases hfound
          obtain ⟨_, ⟨⟩, -⟩ := hrefusal.mpr ⟨hname, hunreadable⟩
        | run hfound hopened hspoilt =>
          rw [htarget] at hfound
          cases hfound
          exact hspoilt

end Engines

end Runner

end LintGate
