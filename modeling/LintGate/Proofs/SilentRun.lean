import LintGate.Proofs.Protocol

/-! # Silent runs of Ruff

A run of Ruff that returned calls no listener in three cases only: its raw output could not be kept,
its output could not be read, or there is nothing in its output while its status is below two. Every
status below two counts, those of killed processes included. The clean protocol of a check passes in
the last case and in no other.
-/

namespace LintGate

open Gate

/-- An output that holds no entry: nothing but blanks, or an empty list. -/
def RuffOutput.IsEmpty (stdout : String) : Prop :=
  Text.allBlank stdout.toList = true ∨ Json.read stdout.toList = .ok (.list [])

theorem RuffOutput.read_eq_nil_iff {subject stdout : String} :
    read subject stdout = .ok [] ↔ IsEmpty stdout := by
  rw [read, IsEmpty]
  by_cases hblank : Text.allBlank stdout.toList = true
  · simp [hblank]
  · rw [if_neg hblank]
    cases hjson : Json.read stdout.toList with
    | error fault => cases fault <;> simp [unusable, hblank]
    | ok d =>
      cases d with
      | list entries =>
        rw [mapM_eq_ok_iff, List.forall₂_nil_right_iff]
        simp [hblank]
      | _ => simp [unusable, hblank]

namespace Ruff

def process (r : Ruff) (config : Path) (files : List Path) (result : ProcessResult) :
    Gate Capture :=
  Collector.empty.follow (r.session config [(files, .returned result)]).runs

variable {r : Ruff} {t u : FileTree} {config : Path} {files : List Path} {result : ProcessResult}

theorem process_yields {e : Emission} (h : (r.run config files (.returned result)).Emits t e u) :
    ∃ es, (r.process config files result).Yields t e.capture u es ∧
      e.capture.Completes [] e (heard es) :=
  Collector.follow_one (h.after_record fun f h => by cases h)

theorem conclusion_silent_iff (config : Path) (subject : String) (result : ProcessResult) :
    (conclusion config subject result).findings = [] ∧
        (conclusion config subject result).failure = none ↔
      result.status < 2 ∧ RuffOutput.IsEmpty result.stdout := by
  rw [conclusion, abnormalStatus]
  by_cases hstatus : 2 ≤ result.status
  · rw [if_pos hstatus]
    simp [Emission.one, Int.not_lt.mpr hstatus]
  · rw [if_neg hstatus, ← RuffOutput.read_eq_nil_iff]
    have hlow : result.status < 2 := Int.not_le.mp hstatus
    cases hread : RuffOutput.read subject result.stdout with
    | error fault => simp [Emission.fail]
    | ok findings => simp [hlow]

theorem conclusion_of_abnormal (hstatus : 2 ≤ result.status) (config : Path) (subject : String) :
    conclusion config subject result = .one (abnormalEnd config subject result) := by
  rw [conclusion, abnormalStatus, if_pos hstatus]

theorem conclusion_failure_iff (config : Path) (subject : String) (result : ProcessResult) :
    (conclusion config subject result).findings = [] ∧
        (conclusion config subject result).failure ≠ none ↔
      result.status < 2 ∧ ∃ fault, RuffOutput.read subject result.stdout = .error fault := by
  rw [conclusion, abnormalStatus]
  by_cases hstatus : 2 ≤ result.status
  · rw [if_pos hstatus]
    simp [Emission.one, Int.not_lt.mpr hstatus]
  · rw [if_neg hstatus]
    have hlow : result.status < 2 := Int.not_le.mp hstatus
    cases hread : RuffOutput.read subject result.stdout with
    | error fault => simp [Emission.fail, hlow]
    | ok findings => simp

/-- No status of a process is too long to be written, so that its text is always there. -/
theorem write?_status (result : ProcessResult) :
    Text.Numeral.write? result.status = some (Text.Numeral.write result.status) := by
  have hbound : ProcessResult.statusBound ≤ Text.Numeral.bound :=
    Nat.le_trans (by decide : ProcessResult.statusBound ≤ Nat.pow 10 10)
      (Text.Numeral.pow_le_bound (by decide))
  exact Text.Numeral.write?_eq_some_iff.mpr ⟨Nat.lt_of_lt_of_le result.status_lt hbound, rfl⟩

theorem toViolation_abnormalEnd (config : Path) (subject : String) (result : ProcessResult) :
    ∃ v, (abnormalEnd config subject result).toViolation = .ok v := by
  rw [abnormalEnd]
  split
  · exact ⟨_, rfl⟩
  · exact ⟨_, rfl⟩

/-- A run emits nothing and succeeds just in case it returned, its raw output is kept, its status is
below two and its output is empty. -/
theorem emits_nothing_iff {completion : Completion} {e : Emission}
    (h : (r.run config files completion).Emits t e u) :
    e.findings = [] ∧ e.failure = none ↔ ∃ result, completion = .returned result ∧
      (r.kept t config result).2 = none ∧ result.status < 2 ∧
      RuffOutput.IsEmpty result.stdout := by
  by_cases hreturned : ∃ result, completion = .returned result
  · obtain ⟨result, rfl⟩ := hreturned
    rcases hkept : r.kept t config result with ⟨v, _ | fault⟩
    · rw [(h.unique (run_kept files hkept)).1, conclusion_silent_iff]
      simp [hkept]
    · rw [(h.unique (run_unkept files hkept)).1]
      simp [Emission.fail, hkept]
  · obtain ⟨e', hemits, hloud⟩ :=
      r.run_unreturned config files fun result hr => hreturned ⟨result, hr⟩
    rw [(h.unique (hemits t)).1]
    constructor
    · exact fun hsilent => absurd hsilent hloud
    · rintro ⟨result, hr, -⟩
      exact absurd ⟨result, hr⟩ hreturned

/-- A run that returned is silent just in case its raw output is kept, its status is below two and
its output is empty. -/
theorem process_silent_iff (r : Ruff) (t : FileTree) (config : Path) (files : List Path)
    (result : ProcessResult) :
    ((r.process config files result).value t).fault = none ∧
        heard ((r.process config files result).events t) = [] ↔
      (r.kept t config result).2 = none ∧ result.status < 2 ∧
        RuffOutput.IsEmpty result.stdout := by
  obtain ⟨e, u, hemits⟩ := r.run_emits config files (.returned result) t
  obtain ⟨es, hyields, hcompletes⟩ := process_yields hemits
  rw [hyields.value_eq, hyields.events_eq, hcompletes.silence_iff, emits_nothing_iff hemits]
  simp

/-- A run that returned fails without a finding just in case its raw output is not kept, or its
status is below two and its output cannot be read. -/
theorem process_mute_iff (r : Ruff) (t : FileTree) (config : Path) (files : List Path)
    (result : ProcessResult) :
    ((r.process config files result).value t).fault ≠ none ∧
        heard ((r.process config files result).events t) = [] ↔
      (r.kept t config result).2 ≠ none ∨ result.status < 2 ∧
        ∃ fault, RuffOutput.read (Path.listing files) result.stdout = .error fault := by
  rcases hkept : r.kept t config result with ⟨u, _ | fault⟩
  · obtain ⟨es, hyields, hcompletes⟩ := process_yields (run_kept files hkept)
    rw [hyields.value_eq, hyields.events_eq, hcompletes.mute_iff, conclusion_failure_iff]
    simp
  · obtain ⟨es, hyields, hcompletes⟩ := process_yields (run_unkept files hkept)
    rw [hyields.value_eq, hyields.events_eq, hcompletes.mute_iff]
    simp [Emission.fail]

theorem process_abnormal (hkept : (r.kept t config result).2 = none) (hstatus : 2 ≤ result.status)
    (files : List Path) :
    ((r.process config files result).value t).fault = none ∧
      heard ((r.process config files result).events t) =
        [abnormalEnd config (Path.listing files) result] := by
  obtain ⟨es, hyields, hcompletes⟩ :=
    process_yields (run_kept files (Prod.ext rfl hkept))
  rw [hyields.value_eq, hyields.events_eq]
  rw [conclusion_of_abnormal hstatus] at hcompletes ⊢
  obtain ⟨v, hv⟩ := toViolation_abnormalEnd config (Path.listing files) result
  have hfault : (Emission.one (abnormalEnd config (Path.listing files) result)).capture.fault =
      none := by
    rw [Option.eq_none_iff_forall_ne_some]
    intro fault hfault
    rcases hcompletes.fault fault hfault with ⟨-, hown⟩ | ⟨f, hf, hrefused⟩
    · cases hown
    · rw [List.mem_singleton.mp hf, hv] at hrefused
      cases hrefused
  exact ⟨hfault, (hcompletes.complete hfault).2.1⟩

end Ruff

namespace Runner

/-- A check of Ruff passes the clean protocol just in case its run there returned and was silent. -/
theorem verifyClean_ruff_iff {runner : Runner} {check : Check} {r : Ruff}
    {completion : Path → List Path → Completion}
    (hengine : runner.engineFor check = .ok (r.engine completion)) (t : FileTree) :
    (∃ o, (runner.verifyClean check).value t = .ok o ∧ o.passed = true) ↔
      ∃ target result, runner.target t check Sample.valid = .ok target ∧
        completion target.config [target.sample] = .returned result ∧
        (r.kept t target.config result).2 = none ∧ result.status < 2 ∧
        RuffOutput.IsEmpty result.stdout := by
  have hlawful : ∀ target, runner.target t check Sample.valid = .ok target →
      target.engine = r.engine completion := by
    intro target htarget
    rw [engineFor_of_target htarget] at hengine
    exact Except.ok.inj hengine
  obtain ⟨capture, u, es, hcapture, hcaptures⟩ := capture_yields_of_target
    fun target htarget => hlawful target htarget ▸ r.engine_lawful completion
  rw [verifyClean_passes_iff hcapture hcaptures.holds]
  generalize heard es = hs at hcaptures
  cases hcaptures with
  | missing htarget => simp [htarget, Capture.refused]
  | @refused target fault htarget hrefusal =>
    rw [hlawful target htarget] at hrefusal
    change (Ruff.opening target.config).findSome? (SessionStep.refusal? t) = some fault at hrefusal
    rw [Ruff.opening, List.findSome?_cons, refusal?_of_target htarget] at hrefusal
    cases hrefusal
  | @ran target e _ _ htarget hopened hemits hcompletes =>
    rw [hlawful target htarget] at hemits
    rw [hcompletes.silence_iff, Ruff.emits_nothing_iff hemits, htarget]
    simp

end Runner

/-- A completed run of Ruff is silent exactly when its status is below two and its output is empty,
provided that its raw output is kept. A check of Ruff passes the clean protocol exactly on such a
run. An abnormal end is always heard of. -/
theorem Ruff.silent_iff_low_status {runner : Runner} {check : Check} {r : Ruff}
    {completion : Path → List Path → Completion}
    (hengine : runner.engineFor check = .ok (r.engine completion)) :
    (∀ t config files result,
      (((r.process config files result).value t).fault = none ∧
          heard ((r.process config files result).events t) = [] ↔
        (r.kept t config result).2 = none ∧ result.status < 2 ∧
          RuffOutput.IsEmpty result.stdout) ∧
      (((r.process config files result).value t).fault ≠ none ∧
          heard ((r.process config files result).events t) = [] ↔
        (r.kept t config result).2 ≠ none ∨ result.status < 2 ∧
          ∃ fault, RuffOutput.read (Path.listing files) result.stdout = .error fault) ∧
      ((r.kept t config result).2 = none → 2 ≤ result.status →
        ((r.process config files result).value t).fault = none ∧
          heard ((r.process config files result).events t) =
            [abnormalEnd config (Path.listing files) result])) ∧
    ∀ t, (∃ o, (runner.verifyClean check).value t = .ok o ∧ o.passed = true) ↔
      ∃ target result, runner.target t check Sample.valid = .ok target ∧
        completion target.config [target.sample] = .returned result ∧
        (r.kept t target.config result).2 = none ∧ result.status < 2 ∧
        RuffOutput.IsEmpty result.stdout := by
  constructor
  · intro t config files result
    exact ⟨r.process_silent_iff t config files result, r.process_mute_iff t config files result,
      fun hkept hstatus => process_abnormal hkept hstatus files⟩
  · exact fun t => Runner.verifyClean_ruff_iff hengine t

def bareExceptCheck : Check := ⟨"ruff", "BareExceptCheck"⟩

def killedRunner : Runner where
  engines := [("ruff", Ruff.engine ⟨"ruff", 300, none, 0⟩ fun _ _ => .returned (.mk (-9) "" ""))]
  fixtures := ⟨⟨0, ["checks"]⟩⟩

/-- A killed process is silent, so that the clean protocol passes. -/
theorem Ruff.silent_iff_low_status_killed :
    ∃ o, (killedRunner.verifyClean bareExceptCheck).value
      (Runner.fixtureTree [(bareExceptCheck, [])]) = .ok o ∧ o.passed = true := by
  have htarget : (killedRunner.target (Runner.fixtureTree [(bareExceptCheck, [])]) bareExceptCheck
      Sample.valid).toOption.any (fun _ => true) = true := by decide +kernel
  obtain ⟨target, htarget, -⟩ := exists_ok_of_any htarget
  have hengine : killedRunner.engineFor bareExceptCheck =
      .ok (Ruff.engine ⟨"ruff", 300, none, 0⟩ fun _ _ => .returned (.mk (-9) "" "")) := rfl
  refine ((Ruff.silent_iff_low_status hengine).2 _).mpr
    ⟨target, .mk (-9) "" "", htarget, rfl, rfl, ?_⟩
  exact ⟨by decide, .inl rfl⟩

end LintGate
