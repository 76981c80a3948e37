import LintGate.Proofs.Suite

/-! # Faults that escape

A fault that is not the gate's escapes from the guard of a suite. What a fixture is asked for
escapes where a path cannot be asked for, and where a file is no text or has a number with too long
a numeral. What is captured and compared escapes for no reason of its own, as long as findings are
well-formed: a line that cannot be written, or a failure of the run itself, is all that is left.
-/

namespace LintGate

def Escapes {α : Type} (x : Except Fault α) : Prop :=
  ∃ fault, x = .error fault ∧ fault.isGate = false

section Escapes

variable {α β : Type}

@[simp] theorem escapes_error (fault : Fault) :
    Escapes (.error fault : Except Fault α) ↔ fault.isGate = false := by
  simp [Escapes]

@[simp] theorem escapes_ok (a : α) : ¬ Escapes (.ok a : Except Fault α) := by
  simp [Escapes]

theorem escapes_bind_iff {x : Except Fault α} {f : α → Except Fault β} :
    Escapes (x >>= f) ↔ Escapes x ∨ ∃ a, x = .ok a ∧ Escapes (f a) := by
  cases x with
  | error fault => simp [bind, Except.bind]
  | ok a => simp [bind, Except.bind]

end Escapes

theorem isGate_file (cause : FileTree.Fault) : (Fault.file cause).isGate = false := by
  obtain ⟨cause, path⟩ := cause
  cases cause <;> rfl

/-- Fails only with a gate fault, or because a path cannot be asked for. -/
def AsksPaths {α : Type} (x : Except Fault α) : Prop :=
  ∀ fault, x = .error fault → fault.isGate = true ∨ ∃ cause, fault = .file cause

namespace AsksPaths

variable {α β : Type} {x : Except Fault α}

theorem escapes_iff (h : AsksPaths x) : Escapes x ↔ ∃ cause, x = .error (.file cause) := by
  constructor
  · rintro ⟨fault, hfault, hescapes⟩
    rcases h fault hfault with hgate | ⟨cause, rfl⟩
    · rw [hgate] at hescapes
      cases hescapes
    · exact ⟨cause, hfault⟩
  · rintro ⟨cause, hcause⟩
    exact ⟨_, hcause, isGate_file cause⟩

theorem bind (h : AsksPaths x) {f : α → Except Fault β} (hf : ∀ a, AsksPaths (f a)) :
    AsksPaths (x >>= f) := by
  cases x with
  | error fault =>
    rintro _ ⟨⟩
    exact h fault rfl
  | ok a => exact hf a

theorem map (h : AsksPaths x) (f : α → β) : AsksPaths (x.map f) := by
  cases x with
  | error fault =>
    rintro _ ⟨⟩
    exact h fault rfl
  | ok a => simp [AsksPaths, Except.map]

theorem require {absent : Fault} (habsent : absent.isGate = true) (t : FileTree) (path : Path)
    (suits : FileEntry → Bool) : AsksPaths (t.require path suits absent) := by
  intro fault hfault
  rcases FileTree.require_eq_error hfault with rfl | ⟨cause, -, rfl⟩
  · exact .inl habsent
  · exact .inr ⟨cause, rfl⟩

theorem pure (a : α) : AsksPaths (.ok a) := by
  simp [AsksPaths]

theorem load (fs : Fixtures) (t : FileTree) (check : Check) : AsksPaths (fs.load t check) := by
  rw [Fixtures.load]
  apply bind
  · exact require rfl t (fs.directory check) _
  · intro _
    apply bind
    · exact require rfl t (fs.directory check / Path.ofString Fixture.configName) _
    · intro _
      exact pure _

theorem samplePath (f : Fixture) (t : FileTree) (stem : String) :
    AsksPaths (f.samplePath t stem) := by
  rw [Fixture.samplePath]
  exact map (require rfl t (f.sample stem) _) _

theorem engineFor (r : Runner) (check : Check) : AsksPaths (r.engineFor check) := by
  rw [Runner.engineFor]
  cases r.engines.lookup check.engine with
  | none =>
    rintro _ ⟨⟩
    exact .inl rfl
  | some engine => exact pure engine

theorem target (r : Runner) (t : FileTree) (check : Check) (sample : String) :
    AsksPaths (r.target t check sample) := by
  rw [Runner.target]
  apply bind
  · exact load r.fixtures t check
  · intro f
    apply bind
    · exact samplePath f t sample
    · intro path
      apply bind
      · exact engineFor r check
      · intro engine
        exact pure _

end AsksPaths

namespace Expectation

theorem parseLine_error {line : List Char} {number : Int} {source : Option String} {fault : Fault}
    (h : parseLine line number source = .error fault) :
    fault.isGate = true ∨ ∃ numeral, fault = .numeral numeral := by
  rw [parseLine] at h
  cases hsplit : split? line with
  | none =>
    rw [hsplit] at h
    cases h
    exact .inl rfl
  | some parts =>
    obtain ⟨digits, message⟩ := parts
    simp only [hsplit] at h
    cases hread : Text.Numeral.readDigits digits with
    | ok n => simp [hread] at h
    | error numeral =>
      rw [hread] at h
      cases h
      exact .inr ⟨numeral, rfl⟩

/-- Expectations are refused with a gate fault, or for too long a numeral. -/
theorem parseLines_error {source : Option String} {lines : List (List Char)} {number : Nat}
    {fault : Fault} (h : parseLines source number lines = .error fault) :
    fault.isGate = true ∨ ∃ numeral, fault = .numeral numeral := by
  induction lines generalizing number with
  | nil => cases h
  | cons line rest ih =>
    rw [parseLines] at h
    by_cases hblank : Text.allBlank line
    · rw [if_pos hblank] at h
      exact ih h
    · rw [if_neg hblank] at h
      cases hline : parseLine line number source with
      | error cause =>
        rw [hline] at h
        cases h
        exact parseLine_error hline
      | ok e =>
        rw [hline] at h
        cases hrest : parseLines source (number + 1) rest with
        | error cause =>
          rw [hrest] at h
          cases h
          exact ih hrest
        | ok es =>
          rw [hrest] at h
          cases h

end Expectation

namespace Fixture

/-- The path of the expectations cannot be asked for, or their file is no text or has too long a
numeral. -/
def Unreadable (f : Fixture) (t : FileTree) : Prop :=
  (∃ cause, t.look f.expectationsPath.toString = .error cause) ∨
    ∃ content, t.read f.expectationsPath.toString = .ok content ∧
      ((∃ fault, f.expectationsIn content = .error (.undecodable fault)) ∨
        ∃ fault, f.expectationsIn content = .error (.numeral fault))

theorem escapes_expectationsIn_iff (f : Fixture) (content : List UInt8) :
    Escapes (f.expectationsIn content) ↔
      (∃ fault, f.expectationsIn content = .error (.undecodable fault)) ∨
        ∃ fault, f.expectationsIn content = .error (.numeral fault) := by
  constructor
  · rintro ⟨fault, hfault, hescapes⟩
    have h := hfault
    rw [expectationsIn] at h
    cases hdecode : Text.Utf8.decode content with
    | error cause =>
      rw [hdecode] at h
      cases h
      exact .inl ⟨cause, hfault⟩
    | ok text =>
      rw [hdecode] at h
      rcases Expectation.parseLines_error h with hgate | ⟨numeral, rfl⟩
      · rw [hgate] at hescapes
        cases hescapes
      · exact .inr ⟨numeral, hfault⟩
  · rintro (⟨fault, hfault⟩ | ⟨fault, hfault⟩)
    · exact ⟨_, hfault, rfl⟩
    · exact ⟨_, hfault, rfl⟩

theorem escapes_expectations_iff (f : Fixture) (t : FileTree) :
    Escapes (f.expectations t) ↔ f.Unreadable t := by
  rw [f.expectations_eq, Unreadable]
  cases hlook : t.look f.expectationsPath.toString with
  | error cause => simp [isGate_file]
  | ok entry =>
    have hread := @FileTree.read_eq_ok_iff t f.expectationsPath.toString
    rw [hlook] at hread
    cases entry with
    | none =>
      simp [hread]
      rfl
    | some entry =>
      cases entry with
      | directory => simp [hread]; rfl
      | file content => simp [hread, escapes_expectationsIn_iff]

end Fixture

def Capture.Escapes (c : Capture) : Prop := ∃ fault, c.fault = some fault ∧ fault.isGate = false

namespace Pylint

def Unreadable (t : FileTree) (config : Path) : Prop :=
  ∃ content, t.read config.toString = .ok content ∧
    ((∃ fault, Toml.load content = .error (.undecodable fault)) ∨
      ∃ fault, Toml.load content = .error (.numeral fault))

theorem refusal_escapes_iff {t : FileTree} {config : Path}
    (hfile : SessionStep.refusal? t (.requireFile engineName config) = none)
    (hsuffix : config.suffix = ".toml") :
    (Capture.Escapes ⟨.empty, (opening config).findSome? (SessionStep.refusal? t)⟩) ↔
      Unreadable t config := by
  obtain ⟨content, hcontent⟩ := SessionStep.read_of_refusal? hfile
  rw [findSome?_opening, hfile, Option.none_or, if_pos hsuffix, Capture.Escapes, Unreadable,
    SessionStep.checkToml, hcontent]
  cases hload : Toml.load content with
  | ok entries => simp [hload]
  | error refusal => cases refusal <;> simp [hload] <;> rfl

end Pylint

namespace Emission

/-- A finding stands at a line that cannot be written, or the run fails with a fault that is not the
gate's. -/
def Spoilt (e : Emission) : Prop :=
  (∃ f ∈ e.findings, f.toViolation = .error .unwritable) ∨
    ∃ fault, e.failure = some fault ∧ fault.isGate = false

end Emission

/-- A finding of one of the three shapes is refused only for a line that cannot be written. -/
theorem Finding.refused_unwritable {f : Finding} (hf : f.HasTexts) {fault : Fault}
    (h : f.toViolation = .error fault) : fault = .unwritable := by
  cases f with
  | rule f => exact (RuleFinding.toViolation_eq_error_iff.mp h).2
  | processing f =>
    obtain ⟨-, message, hmessage⟩ := hf
    simp only [toViolation, ProcessingFailure.toViolation, hmessage] at h
    cases h
  | config f => cases h
  | foreign typeName => cases hf

theorem Emission.escapes_capture_iff {e : Emission} (h : ∀ f ∈ e.findings, f.HasTexts) :
    e.capture.Escapes ↔ e.Spoilt := by
  obtain ⟨es, -, hcompletes⟩ := e.capture_spec
  have hended : ∀ fault, e.capture.fault = some fault →
      ((∀ f ∈ e.findings, ∃ v, f.toViolation = .ok v) ∧ e.failure = some fault) ∨
        ∃ f ∈ e.findings, f.toViolation = .error .unwritable ∧ fault = .unwritable := by
    intro fault hfault
    refine (hcompletes.fault fault hfault).imp id ?_
    rintro ⟨f, hf, hrefused⟩
    have hunwritable := Finding.refused_unwritable (h f hf) hrefused
    exact ⟨f, hf, hunwritable ▸ hrefused, hunwritable⟩
  constructor
  · rintro ⟨fault, hfault, hescapes⟩
    rcases hended fault hfault with ⟨-, hfailure⟩ | ⟨f, hf, hrefused, -⟩
    · exact .inr ⟨fault, hfailure, hescapes⟩
    · exact .inl ⟨f, hf, hrefused⟩
  · intro hspoilt
    cases hfault : e.capture.fault with
    | none =>
      obtain ⟨hfailure, -, hholds⟩ := hcompletes.complete hfault
      rcases hspoilt with ⟨f, hf, hrefused⟩ | ⟨fault, hfailed, -⟩
      · obtain ⟨v, hv⟩ := hholds.toViolation hf
        rw [hv] at hrefused
        cases hrefused
      · rw [hfailure] at hfailed
        cases hfailed
    | some fault =>
      refine ⟨fault, hfault, ?_⟩
      rcases hended fault hfault with ⟨hall, hfailure⟩ | ⟨f, hf, -, rfl⟩
      · rcases hspoilt with ⟨f, hf, hrefused⟩ | ⟨fault', hfailed, hescapes⟩
        · obtain ⟨v, hv⟩ := hall f hf
          rw [hv] at hrefused
          cases hrefused
        · rw [hfailure] at hfailed
          cases hfailed
          exact hescapes
      · rfl

end LintGate
