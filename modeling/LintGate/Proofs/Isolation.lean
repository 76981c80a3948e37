import LintGate.Proofs.Spoiling
import LintGate.Proofs.Trial

/-! # A suite of Ruff and Pylint checks

The guard of a suite keeps gate faults to the protocol that they end. A suite returns a report
exactly when nothing else comes up, and each check has in it the outcomes that it has alone. What
else can come up is said in full: a path that cannot be asked for, a configuration of Pylint or
expectations that are no text or have too long a numeral, and a run that fails in a way of its own
or reports a line that cannot be written.
-/

namespace LintGate

open Gate

namespace Runner

def Spoilt (r : Runner) (t : FileTree) (check : Check) : Prop :=
  r.Spoils t check Sample.invalid ∨
    (((r.capture check Sample.invalid).value t).fault = none ∧
      ∃ f, r.fixtures.load t check = .ok f ∧ f.Unreadable t) ∨
    r.Spoils t check Sample.valid

variable {r : Runner} {t : FileTree} {check : Check} {sample : String}

theorem capture_holds (hr : r.Lawful) (hw : r.EmitsWellFormed t)
    (hfault : ((r.capture check sample).value t).fault = none) :
    ∃ hs, ((r.capture check sample).value t).collector.Holds hs ∧ ∀ f ∈ hs, f.IsRegular := by
  obtain ⟨c, u, es, hcapture, hcaptures⟩ := capture_yields hr check sample t
  rw [hcapture.value_eq] at hfault ⊢
  refine ⟨_, hcaptures.holds hfault, ?_⟩
  generalize heard es = hs at hcaptures
  cases hcaptures with
  | missing htarget => cases hfault
  | refused hfound hrefusal => cases hfault
  | ran hfound hopened hemits hcompletes =>
    obtain ⟨-, rfl, -⟩ := hcompletes.complete hfault
    obtain ⟨fs, hrun, -⟩ := hemits
    intro f hf
    rw [← hrun.value_eq] at hf
    exact (hw _ (mem_of_engineFor (engineFor_of_target hfound)) _ _ f hf).1

section Protocols

variable {c : Capture}

theorem escapes_compared_iff (hc : c.fault = none → ∃ hs, c.collector.Holds hs ∧
    ∀ f ∈ hs, f.IsRegular) (check : Check) (expected : Except Fault (List Expectation)) :
    Escapes (compared check c expected) ↔
      c.Escapes ∨ c.fault = none ∧ Escapes expected := by
  rw [compared, Capture.Escapes]
  cases hfault : c.fault with
  | some fault => simp
  | none =>
    cases expected with
    | error fault => simp [contrast, bind, Except.bind]
    | ok es =>
      obtain ⟨hs, hholds, hregular⟩ := hc hfault
      obtain ⟨captured, -, hkeys, htexts, hsummary, hinvocations⟩ := hholds.keys hregular
      obtain ⟨d, o, -, -, hcompare, -, houtcome, -⟩ :=
        violatingOutcome_eq_ok check (fun k hk => (htexts k hk).2) hasText_of_mem_expected
          hsummary hinvocations
      have hcontrast : contrast c.collector (.ok es) = .ok d := by
        rw [contrast, hkeys]
        exact hcompare
      rw [hcontrast]
      simp [bind, Except.bind, houtcome]

theorem escapes_judged_iff (hc : c.fault = none → ∃ hs, c.collector.Holds hs ∧
    ∀ f ∈ hs, f.IsRegular) (check : Check) : Escapes (judged check c) ↔ c.Escapes := by
  rw [judged, Capture.Escapes]
  cases hfault : c.fault with
  | some fault => simp
  | none =>
    obtain ⟨hs, hholds, hregular⟩ := hc hfault
    obtain ⟨captured, -, hkeys, -, hsummary, -⟩ := hholds.keys hregular
    rw [hkeys, hsummary]
    simp [bind, Except.bind, pure, Except.pure]

theorem fields_of_compared {expected : Except Fault (List Expectation)} {o : Outcome}
    (h : compared check c expected = .ok o) :
    o.check = check ∧ o.sample = Sample.invalid ∧ o.error = none := by
  rw [compared] at h
  cases hfault : c.fault with
  | some fault =>
    rw [hfault] at h
    cases h
  | none =>
    simp only [hfault, violatingOutcome, bind_eq_ok_iff] at h
    obtain ⟨d, -, summary, -, missing, -, unexpected, -, houtcome⟩ := h
    cases houtcome
    exact ⟨rfl, rfl, rfl⟩

theorem fields_of_judged {o : Outcome} (h : judged check c = .ok o) :
    o.check = check ∧ o.sample = Sample.valid ∧ o.error = none := by
  rw [judged] at h
  cases hfault : c.fault with
  | some fault =>
    rw [hfault] at h
    cases h
  | none =>
    simp only [hfault, bind_eq_ok_iff] at h
    obtain ⟨keys, -, summary, -, houtcome⟩ := h
    cases houtcome
    exact ⟨rfl, rfl, rfl⟩

end Protocols

theorem settle_eq_ok_iff {protocol : Except Fault Outcome} {o : Outcome} :
    settle check sample protocol = .ok o ↔ protocol = .ok o ∨ ∃ fault, protocol = .error fault ∧
      fault.isGate = true ∧ o = .ofError check sample fault.message := by
  cases protocol with
  | ok p => simp [settle]
  | error fault =>
    rw [settle]
    cases hgate : fault.isGate with
    | true =>
      constructor
      · rintro ⟨⟩
        exact .inr ⟨fault, rfl, hgate, rfl⟩
      · rintro (h | ⟨_, ⟨⟩, -, rfl⟩)
        · cases h
        · rfl
    | false => simp [hgate]

theorem exists_settle_iff (check : Check) (sample : String) {protocol : Except Fault Outcome} :
    (∃ o, settle check sample protocol = .ok o) ↔ ¬ Escapes protocol := by
  cases protocol with
  | ok p => simp [settle]
  | error fault =>
    rw [settle, escapes_error]
    cases hgate : fault.isGate with
    | true => simp
    | false => simp

theorem settled_eq_ok_iff {os : List Outcome} :
    r.settled t check = .ok os ↔ ∃ o p,
      settle check Sample.invalid
        (compared check ((r.capture check Sample.invalid).value t) (r.expected t check)) = .ok o ∧
      settle check Sample.valid (judged check ((r.capture check Sample.valid).value t)) = .ok p ∧
      os = [o, p] := by
  simp only [settled, bind_eq_ok_iff, pure, Except.pure, Except.ok.injEq, eq_comm (a := os)]
  constructor
  · rintro ⟨o, ho, p, hp, hos⟩
    exact ⟨o, p, ho, hp, hos⟩
  · rintro ⟨o, p, ho, hp, hos⟩
    exact ⟨o, ho, p, hp, hos⟩

section Engines

variable {ruff : Ruff} {completion : Path → List Path → Completion}
  {runOf : Path → List Path → PylintRun}

theorem HasEngines.uniform (h : r.HasEngines ruff completion runOf)
    (hkeeps : ∀ u, ruff.Grown t u → ∀ config result, (ruff.kept u config result).2 = none) :
    r.Uniform t (ruff.Grown t) := by
  rw [HasEngines] at h
  refine ⟨.start, ?_⟩
  rw [h]
  simp [ruff.engine_uniform hkeeps, Pylint.engine_uniform runOf (Ruff.Grown.start (r := ruff))]

theorem escapes_expected_iff (hr : r.Lawful)
    (hfault : ((r.capture check Sample.invalid).value t).fault = none) :
    Escapes (r.expected t check) ↔ ∃ f, r.fixtures.load t check = .ok f ∧ f.Unreadable t := by
  rw [capture_eq hr check Sample.invalid t] at hfault
  cases htarget : r.target t check Sample.invalid with
  | error fault =>
    rw [htarget] at hfault
    cases hfault
  | ok target =>
    obtain ⟨f, hload, -⟩ := load_of_target htarget
    rw [expected, escapes_bind_iff, hload]
    simp [f.escapes_expectations_iff]

/-- The outcomes of a check are there just in case it is not spoilt. -/
theorem HasEngines.settled_iff (h : r.HasEngines ruff completion runOf)
    (hw : r.EmitsWellFormed t) (check : Check) :
    (∃ os, r.settled t check = .ok os) ↔ ¬ r.Spoilt t check := by
  have hholds : ∀ sample, ((r.capture check sample).value t).fault = none →
      ∃ hs, ((r.capture check sample).value t).collector.Holds hs ∧ ∀ f ∈ hs, f.IsRegular :=
    fun sample hfault => capture_holds h.lawful hw hfault
  have hcompared := escapes_compared_iff (hholds Sample.invalid) check (r.expected t check)
  have hjudged := escapes_judged_iff (hholds Sample.valid) check
  rw [h.escapes_capture_iff hw] at hcompared hjudged
  have hspoilt : r.Spoilt t check ↔
      Escapes (compared check ((r.capture check Sample.invalid).value t) (r.expected t check)) ∨
        Escapes (judged check ((r.capture check Sample.valid).value t)) := by
    rw [Spoilt, hcompared, hjudged, or_assoc]
    refine or_congr_right (or_congr_left (and_congr_right fun hfault => ?_))
    exact (escapes_expected_iff h.lawful hfault).symm
  rw [hspoilt, not_or, ← exists_settle_iff check Sample.invalid,
    ← exists_settle_iff check Sample.valid]
  simp only [settled_eq_ok_iff]
  constructor
  · rintro ⟨os, o, p, ho, hp, -⟩
    exact ⟨⟨o, ho⟩, p, hp⟩
  · rintro ⟨⟨o, ho⟩, p, hp⟩
    exact ⟨_, o, p, ho, hp, rfl⟩

end Engines

/-- How an outcome stands for a protocol of a check: it is the protocol's own and has no error, or
it holds the gate fault that ended the protocol. -/
def Shows (check : Check) (sample : String) (protocol : Except Fault Outcome) (o : Outcome) :
    Prop :=
  protocol = .ok o ∧ o.error = none ∨
    ∃ fault, protocol = .error fault ∧ fault.isGate = true ∧ o = .ofError check sample fault.message

theorem verifySuite_unwritable {registry : Registry} {workers : Int}
    (h : ¬ workers.natAbs < Text.Numeral.bound) :
    (r.verifySuite registry workers).value t = .error .unwritable := by
  rw [verifySuite]
  cases hwrite : Text.Numeral.write? workers with
  | none => rfl
  | some shown => exact absurd (Text.Numeral.write?_eq_some_iff.mp hwrite).1 h

theorem forall₂_pairs {checks : List Check} {perCheck : List (List Outcome)}
    (h : List.Forall₂ (fun check os => r.settled t check = .ok os) checks perCheck) :
    ∃ pairs : List (Outcome × Outcome),
      perCheck.flatten = pairs.flatMap (fun pair => [pair.1, pair.2]) ∧
        List.Forall₂ (fun check pair => r.settled t check = .ok [pair.1, pair.2]) checks pairs := by
  induction h with
  | nil => exact ⟨[], rfl, .nil⟩
  | cons hos _ ih =>
    obtain ⟨pairs, hflatten, hpairs⟩ := ih
    obtain ⟨o, p, -, -, rfl⟩ := settled_eq_ok_iff.mp hos
    exact ⟨(o, p) :: pairs, by simp [hflatten], .cons hos hpairs⟩

namespace Uniform

variable {W : FileTree → Prop} {u : FileTree}

theorem verify (h : r.Uniform t W) (hagree : ∀ u, W u → r.fixtures.Agree t u check) :
    (r.verify check).Uniform t W := by
  rw [← Trial.finish_ready]
  exact Trial.finish_uniform h hagree trivial

theorem verifyViolating (h : r.Uniform t W) (hagree : ∀ u, W u → r.fixtures.Agree t u check)
    (hu : W u) :
    ∃ v es, (r.verifyViolating check).Yields u
      (compared check ((r.capture check Sample.invalid).value t) (r.expected t check)) v es ∧
      W v := by
  obtain ⟨hcapture, hv⟩ := h.capture hagree (.inl rfl) u hu
  obtain ⟨es, hyields⟩ := verifyViolating_yields hcapture
  rw [expected_congr (hagree _ hv)] at hyields
  exact ⟨_, es, hyields, hv⟩

theorem verifyClean (h : r.Uniform t W) (hagree : ∀ u, W u → r.fixtures.Agree t u check)
    (hu : W u) :
    ∃ v es, (r.verifyClean check).Yields u
      (judged check ((r.capture check Sample.valid).value t)) v es := by
  obtain ⟨hcapture, -⟩ := h.capture hagree (.inr rfl) u hu
  exact ⟨_, verifyClean_yields hcapture⟩

/-- Over each tree of the family a check comes to what its captures over one of them tell. -/
theorem verify_settled (h : r.Uniform t W) (hagree : ∀ u, W u → r.fixtures.Agree t u check) :
    (r.verify check).value t = r.settled t check := by
  obtain ⟨v, es, hviolating, hv⟩ := h.verifyViolating hagree h.start
  obtain ⟨w, fs, hclean⟩ := h.verifyClean hagree hv
  obtain ⟨left, gs, -, hverify⟩ := verify_yields hviolating hclean
  exact hverify.value_eq

theorem map_turns (h : r.Uniform t W) {checks : List Check}
    (hagree : ∀ check ∈ checks, ∀ u, W u → r.fixtures.Agree t u check) (hu : W u) :
    (r.turns u checks).map (fun turn => (r.verify turn.1).value turn.2) =
      checks.map (r.settled t) := by
  induction checks generalizing u with
  | nil => rfl
  | cons check rest ih =>
    have hcheck := hagree check (by simp)
    obtain ⟨hverify, hafter⟩ := h.verify hcheck u hu
    rw [turns, List.map_cons, List.map_cons, hverify.value_eq, h.verify_settled hcheck,
      ih (fun check hcheck => hagree check (by simp [hcheck])) hafter]

theorem verifySuite (h : r.Uniform t W) (hr : r.Lawful) {registry : Registry}
    (hagree : ∀ check ∈ registry.checks, ∀ u, W u → r.fixtures.Agree t u check) {workers : Int}
    (hworkers : workers.natAbs < Text.Numeral.bound) :
    (r.verifySuite registry workers).value t =
      (registry.checks.mapM (r.settled t)).map fun perCheck => ⟨perCheck.flatten⟩ := by
  obtain ⟨u, es, hsuite⟩ := verifySuite_turns hr registry hworkers t
  rw [hsuite.value_eq, h.map_turns hagree h.start, collect_map]

/-- The outcomes of a check are what a suite of this check alone reports. -/
theorem verifySuite_alone (h : r.Uniform t W) (hr : r.Lawful)
    (hagree : ∀ u, W u → r.fixtures.Agree t u check) {o p : Outcome}
    (hsettled : r.settled t check = .ok [o, p]) :
    (r.verifySuite ⟨[check]⟩ 1).value t = .ok ⟨[o, p]⟩ := by
  have hone : (1 : Int).natAbs < Text.Numeral.bound := Text.Numeral.one_lt_bound
  have hagrees : ∀ c ∈ (⟨[check]⟩ : Registry).checks, ∀ u, W u → r.fixtures.Agree t u c := by
    intro c hc
    rw [List.mem_singleton.mp hc]
    exact hagree
  rw [h.verifySuite hr hagrees hone, List.mapM_cons, hsettled]
  rfl

theorem shows (h : r.Uniform t W) (hagree : ∀ u, W u → r.fixtures.Agree t u check)
    {o p : Outcome} (hsettled : r.settled t check = .ok [o, p]) :
    Shows check Sample.invalid ((r.verifyViolating check).value t) o ∧
      Shows check Sample.valid ((r.verifyClean check).value t) p := by
  obtain ⟨o', p', hviolating, hclean, hpair⟩ := settled_eq_ok_iff.mp hsettled
  cases hpair
  obtain ⟨u, es, hyields, -⟩ := h.verifyViolating hagree h.start
  obtain ⟨v, fs, hyields'⟩ := h.verifyClean hagree h.start
  rw [hyields.value_eq, hyields'.value_eq]
  constructor
  · rcases settle_eq_ok_iff.mp hviolating with hok | hfault
    · exact .inl ⟨hok, (fields_of_compared hok).2.2⟩
    · exact .inr hfault
  · rcases settle_eq_ok_iff.mp hclean with hok | hfault
    · exact .inl ⟨hok, (fields_of_judged hok).2.2⟩
    · exact .inr hfault

end Uniform

/-- A suite of Ruff and Pylint checks returns a report exactly when no check is spoilt. In a report
each check has two outcomes: those that it has when it is run alone, which show what its protocols
come to, or the gate fault that ended one of them. -/
theorem verifySuite_isolates {r : Runner} {ruff : Ruff} {completion : Path → List Path → Completion}
    {runOf : Path → List Path → PylintRun} (h : r.HasEngines ruff completion runOf)
    (registry : Registry) (workers : Int) {t : FileTree}
    (hlog : ruff.KeepsApart r.fixtures registry.checks t) (hw : r.EmitsWellFormed t) :
    ((∃ report, (r.verifySuite registry workers).value t = .ok report) ↔
      workers.natAbs < Text.Numeral.bound ∧
        ∀ check ∈ registry.checks, ¬ r.Spoilt t check) ∧
    ∀ report, (r.verifySuite registry workers).value t = .ok report →
      ∃ pairs : List (Outcome × Outcome),
        report.outcomes = pairs.flatMap (fun pair => [pair.1, pair.2]) ∧
        List.Forall₂ (fun check pair =>
          Shows check Sample.invalid ((r.verifyViolating check).value t) pair.1 ∧
          Shows check Sample.valid ((r.verifyClean check).value t) pair.2 ∧
          (r.verifySuite ⟨[check]⟩ 1).value t = .ok ⟨[pair.1, pair.2]⟩)
          registry.checks pairs := by
  have huniform := h.uniform hlog.keeps
  by_cases hworkers : workers.natAbs < Text.Numeral.bound
  · rw [huniform.verifySuite h.lawful hlog.apart hworkers]
    simp only [map_eq_ok_iff]
    constructor
    · simp only [← h.settled_iff hw, ← exists_mapM_eq_ok_iff]
      constructor
      · rintro ⟨report, perCheck, hperCheck, -⟩
        exact ⟨hworkers, perCheck, hperCheck⟩
      · rintro ⟨-, perCheck, hperCheck⟩
        exact ⟨_, perCheck, hperCheck, rfl⟩
    · rintro report ⟨perCheck, hperCheck, rfl⟩
      obtain ⟨pairs, hflatten, hpairs⟩ := forall₂_pairs (mapM_eq_ok_iff.mp hperCheck)
      refine ⟨pairs, hflatten, ((List.forall₂_and_left _ _).mpr ⟨hlog.apart, hpairs⟩).imp ?_⟩
      rintro check ⟨o, p⟩ ⟨hagree, hsettled⟩
      obtain ⟨hviolating, hclean⟩ := huniform.shows hagree hsettled
      exact ⟨hviolating, hclean, huniform.verifySuite_alone h.lawful hagree hsettled⟩
  · rw [verifySuite_unwritable hworkers]
    simp [hworkers]

def lambdaCheck : Check := ⟨"ruff", "LambdaAssignmentCheck"⟩

def loggedRuff : Ruff := ⟨"ruff", 300, some ⟨"logs"⟩, 0⟩

def loggedRunner : Runner where
  engines := [(Ruff.engineName, loggedRuff.engine fun _ _ => .returned (.mk 0 "[]" "")),
    (Pylint.engineName, Pylint.engine fun _ files => importRun files)]
  fixtures := ⟨⟨0, ["checks"]⟩⟩

/-- The expectations of the check of imports are a byte that is no text. -/
def undecodableTree : FileTree :=
  (fixtureTree [(importCheck, [0xFF]), (lambdaCheck, [])]).put ["logs"] .directory

/-- One file that is no text takes the report away from a check of another engine. -/
theorem verifySuite_isolates_undecodable :
    (∃ report, (loggedRunner.verifySuite ⟨[lambdaCheck]⟩ 2).value undecodableTree = .ok report) ∧
      ¬ ∃ report, (loggedRunner.verifySuite ⟨[lambdaCheck, importCheck]⟩ 2).value undecodableTree =
        .ok report := by
  have hready : loggedRuff.LogReady undecodableTree := by
    rintro log ⟨⟩
    exact ⟨["logs", "raw_ruff.log"], by decide +kernel, .inl (by decide +kernel),
      ⟨["logs"], "raw_ruff.log", by decide +kernel, rfl, by decide, by decide⟩, by decide +kernel⟩
  have hemits : loggedRunner.EmitsWellFormed undecodableTree := by
    simp only [EmitsWellFormed, loggedRunner, List.mem_cons, List.not_mem_nil, or_false]
    rintro entry (rfl | rfl) config files f hf
    · have hkept := (hready.keepsApart loggedRunner.fixtures []).keeps _ .start config
        (.mk 0 "[]" "")
      obtain ⟨_, hrun, -⟩ := Ruff.run_kept files (Prod.ext rfl hkept)
      change f ∈ ((loggedRuff.run config files (.returned (.mk 0 "[]" ""))).value _).findings at hf
      rw [hrun.value_eq] at hf
      cases hf
    · change f ∈ (Pylint.emission config (importRun files)).findings at hf
      rw [Pylint.emission, importRun, List.mem_map] at hf
      obtain ⟨m, hm, rfl⟩ := hf
      split_ifs at hm
      · simp only [List.mem_cons, List.not_mem_nil, or_false] at hm
        rcases hm with rfl | rfl | rfl
        all_goals exact ⟨⟨⟨_, rfl⟩, _, rfl⟩, ⟨_, rfl⟩, _, rfl⟩
      · cases hm
  have hspoilt : loggedRunner.Spoilt undecodableTree importCheck := by
    refine .inr (.inl ⟨by decide +kernel, ⟨"UnusedImportRule",
      ⟨0, ["checks", "pylint", "UnusedImportRule"]⟩,
      ⟨0, ["checks", "pylint", "UnusedImportRule", "config.toml"]⟩⟩, by decide +kernel,
      .inr ⟨[0xFF], by decide +kernel, .inl ⟨_, rfl⟩⟩⟩)
  have hengines : loggedRunner.HasEngines loggedRuff (fun _ _ => .returned (.mk 0 "[]" ""))
      fun _ files => importRun files := rfl
  constructor
  · have hreport : ((loggedRunner.verifySuite ⟨[lambdaCheck]⟩ 2).value
        undecodableTree).toOption.any (fun _ => true) = true := by decide +kernel
    obtain ⟨report, hreport, -⟩ := exists_ok_of_any hreport
    exact ⟨report, hreport⟩
  · intro hreport
    have hunspoilt := ((verifySuite_isolates hengines ⟨[lambdaCheck, importCheck]⟩ 2
      (hready.keepsApart _ _) hemits).1.mp hreport).2
    exact hunspoilt importCheck (by simp) hspoilt

end Runner

end LintGate
