import LintGate.Proofs.Isolation

/-! # Suites with any number of workers

The outcomes of the checks of a suite can come about one check after the other, in a pool that takes
the checks up in any order, or in turns, where the steps of the checks come between one another. As
long as the engines are uniform over the trees that come up and no fixture changes, the suite
answers the same in each of these ways: the outcomes that its checks come to alone, in their order,
or the fault of the first of them that comes to one. The messages of a report are then the same,
too, up to their order and to the number of workers in the first of them.
-/

namespace LintGate

open Gate

namespace Runner

/-- A suite whose outcomes come about in some way. -/
def suiteBy (registry : Registry) (workers : Int)
    (outcomes : Gate (Except Fault (List (List Outcome)))) : Gate (Except Fault Report) := do
  match Text.Numeral.write? workers with
  | none => return .error .unwritable
  | some shown =>
    Gate.tell .step s!"Verifying {registry.checks.length} check(s) with {shown} worker(s)..."
    match ← outcomes with
    | .error fault => return .error fault
    | .ok perCheck =>
      let report : Report := ⟨perCheck.flatten⟩
      tellResult report
      return .ok report

/-- The ways in which a suite can go: as it is defined, with a pool that takes the checks up in
another order, or with workers that take turns in the midst of their checks, where a run of an
engine is one step. A worker that waits for the run lock gets no turn. -/
inductive Executes (r : Runner) (registry : Registry) (workers : Int) :
    Gate (Except Fault Report) → Prop
  | inOrder : r.Executes registry workers (r.verifySuite registry workers)
  | pooled {order : List Nat} (permutes : order.Perm (List.range registry.checks.length)) :
    r.Executes registry workers
      (suiteBy registry workers (pooled (registry.checks.map r.verify) order))
  | interleaved (turns : List Nat) :
    r.Executes registry workers (suiteBy registry workers
      (r.trials.interleaved turns (registry.checks.map fun check => (check, .ready none))))

def announcement (registry : Registry) (workers : Int) : Event :=
  let shown := Text.Numeral.write workers
  .told .step s!"Verifying {registry.checks.length} check(s) with {shown} worker(s)..."

theorem verifySuite_eq_suiteBy (r : Runner) (registry : Registry) (workers : Int) :
    r.verifySuite registry workers =
      suiteBy registry workers (r.outcomes registry.checks workers) := by
  unfold verifySuite suiteBy
  cases Text.Numeral.write? workers with
  | none => rfl
  | some shown =>
    refine bind_congr fun _ => bind_congr fun perCheck => ?_
    cases perCheck <;> rfl

variable {r : Runner} {t : FileTree} {W : FileTree → Prop} {check : Check} {checks : List Check}

/-- In each way the checks of a suite come to what they come to alone. -/
theorem Executes.gathers {registry : Registry} {workers : Int} {suite : Gate (Except Fault Report)}
    (hsuite : r.Executes registry workers suite) (h : r.Uniform t W)
    (hagree : ∀ check ∈ registry.checks, ∀ u, W u → r.fixtures.Agree t u check) :
    ∃ way, suite = suiteBy registry workers way ∧
      way.Gathers (registry.checks.map r.verify) t W := by
  have htasks : ∀ task ∈ registry.checks.map r.verify, task.Uniform t W := by
    intro task htask
    obtain ⟨check, hcheck, rfl⟩ := List.mem_map.mp htask
    exact h.verify (hagree check hcheck)
  have hpooled : ∀ {order : List Nat}, order.Perm (List.range registry.checks.length) →
      (Runner.pooled (registry.checks.map r.verify) order).Gathers
        (registry.checks.map r.verify) t W :=
    fun hperm => pooled_gathers htasks (by rwa [List.length_map])
  cases hsuite with
  | inOrder =>
    refine ⟨_, verifySuite_eq_suiteBy r registry workers, ?_⟩
    rw [outcomes]
    split_ifs
    · exact inSequence_gathers htasks
    · exact hpooled (.refl _)
  | pooled hperm => exact ⟨_, rfl, hpooled hperm⟩
  | interleaved turns =>
    have hplaces : ∀ p ∈ registry.checks.map fun check => (check, Trial.ready none),
        p.1 ∈ registry.checks ∧ p.2.Uniform t W := by
      intro p hp
      obtain ⟨check, hcheck, rfl⟩ := List.mem_map.mp hp
      exact ⟨hcheck, trivial⟩
    -- What is left of each check at the start is the check as a whole.
    have hfinish : (registry.checks.map fun check => (check, Trial.ready none)).map
        r.trials.finish = registry.checks.map r.verify := by
      rw [List.map_map]
      exact List.map_congr_left fun check _ => Trial.finish_ready r check
    refine ⟨_, rfl, ?_⟩
    rw [← hfinish]
    exact Stepwise.interleaved_gathers (h.trials hagree) h.start turns hplaces

theorem label_of_settle {sample : String} {protocol : Except Fault Outcome} {o : Outcome}
    (hlabel : protocol = .ok o → o.check = check ∧ o.sample = sample)
    (h : settle check sample protocol = .ok o) : o.check = check ∧ o.sample = sample := by
  rcases settle_eq_ok_iff.mp h with hok | ⟨fault, -, -, rfl⟩
  · exact hlabel hok
  · exact ⟨rfl, rfl⟩

theorem isGate_of_settle {sample : String} {protocol : Except Fault Outcome} {fault : Fault}
    (h : settle check sample protocol = .error fault) : fault.isGate = false := by
  cases protocol with
  | ok o => cases h
  | error fault' =>
    rw [settle] at h
    cases hgate : fault'.isGate with
    | true =>
      rw [if_pos hgate] at h
      cases h
    | false =>
      rw [hgate] at h
      cases h
      exact hgate

theorem Uniform.verify_value (h : r.Uniform t W)
    (hagree : ∀ u, W u → r.fixtures.Agree t u check) :
    (∀ os, (r.verify check).value t = .ok os → ∃ violating clean, os = [violating, clean] ∧
      (violating.check = check ∧ violating.sample = Sample.invalid) ∧
      (clean.check = check ∧ clean.sample = Sample.valid)) ∧
    ∀ fault, (r.verify check).value t = .error fault → fault.isGate = false := by
  obtain ⟨hinvalid, hu⟩ := h.capture hagree (.inl rfl) t h.start
  obtain ⟨hvalid, -⟩ := h.capture hagree (.inr rfl) _ hu
  obtain ⟨es, hviolating⟩ := verifyViolating_yields hinvalid
  obtain ⟨fs, hclean⟩ := verifyClean_yields hvalid
  obtain ⟨w, gs, -, hverify⟩ := verify_yields hviolating hclean
  rw [hverify.value_eq]
  constructor
  · intro os hos
    simp only [bind_eq_ok_iff] at hos
    obtain ⟨violating, hviolating, clean, hclean, hos⟩ := hos
    cases hos
    refine ⟨violating, clean, rfl, label_of_settle (fun hok => ?_) hviolating,
      label_of_settle (fun hok => ?_) hclean⟩
    · obtain ⟨hcheck, hsample, -⟩ := fields_of_compared hok
      exact ⟨hcheck, hsample⟩
    · obtain ⟨hcheck, hsample, -⟩ := fields_of_judged hok
      exact ⟨hcheck, hsample⟩
  · intro fault hfault
    rcases bind_eq_error_iff.mp hfault with hviolating | ⟨violating, -, hrest⟩
    · exact isGate_of_settle hviolating
    · rcases bind_eq_error_iff.mp hrest with hclean | ⟨clean, -, hnone⟩
      · exact isGate_of_settle hclean
      · cases hnone

/-- An answer of a suite that is said by what its checks come to alone: two outcomes for each of
them, or the fault of the first one with a fault. -/
def Answers (r : Runner) (t : FileTree) (checks : List Check) : Except Fault Report → Prop
  | .ok report => report.outcomes.length = 2 * checks.length ∧
      ∀ (i : Nat) (check : Check), checks[i]? = some check →
        ∃ violating clean, (r.verify check).value t = .ok [violating, clean] ∧
          (violating.check = check ∧ violating.sample = Sample.invalid) ∧
          (clean.check = check ∧ clean.sample = Sample.valid) ∧
          report.outcomes[2 * i]? = some violating ∧ report.outcomes[2 * i + 1]? = some clean
  | .error fault => ∃ before check behind, checks = before ++ check :: behind ∧
      (∀ other ∈ before, ∃ os, (r.verify other).value t = .ok os) ∧
      (r.verify check).value t = .error fault ∧ fault.isGate = false

theorem flatten_pairs {perCheck : List (List Outcome)} (h : ∀ os ∈ perCheck, ∃ o p, os = [o, p]) :
    perCheck.flatten.length = 2 * perCheck.length ∧
      ∀ i : Nat, perCheck.flatten[2 * i]? = perCheck[i]?.bind (·[0]?) ∧
        perCheck.flatten[2 * i + 1]? = perCheck[i]?.bind (·[1]?) := by
  induction perCheck with
  | nil => simp
  | cons os rest ih =>
    obtain ⟨o, p, rfl⟩ := h os (by simp)
    obtain ⟨hlength, hplaces⟩ := ih fun os hos => h os (by simp [hos])
    refine ⟨by simp [hlength, Nat.mul_add], fun i => ?_⟩
    cases i with
    | zero => simp
    | succ i =>
      have heven : 2 * (i + 1) = 2 * i + 2 := by omega
      rw [heven]
      simpa using hplaces i

theorem exists_pair_at {α : Type} {f : α → Except Fault (List Outcome)} {as : List α}
    {perCheck : List (List Outcome)} (h : as.mapM f = .ok perCheck)
    (hpairs : ∀ a ∈ as, ∀ os, f a = .ok os → ∃ o p, os = [o, p]) :
    perCheck.flatten.length = 2 * as.length ∧
      ∀ (i : Nat) (a : α), as[i]? = some a → ∃ o p, f a = .ok [o, p] ∧
        perCheck.flatten[2 * i]? = some o ∧ perCheck.flatten[2 * i + 1]? = some p := by
  have hvalues := mapM_eq_ok_iff.mp h
  have hall : ∀ os ∈ perCheck, ∃ o p, os = [o, p] := by
    intro os hos
    obtain ⟨a, ha, hvalue⟩ := exists_mem_of_forall₂ hvalues hos
    exact hpairs a ha os hvalue
  obtain ⟨hcount, hplaces⟩ := flatten_pairs hall
  refine ⟨by rw [hcount, hvalues.length_eq], fun i a hi => ?_⟩
  obtain ⟨hshort, rfl⟩ := List.getElem?_eq_some_iff.mp hi
  have hvalue : f as[i] = .ok (perCheck.get ⟨i, hvalues.length_eq ▸ hshort⟩) :=
    (List.forall₂_iff_get.mp hvalues).2 i hshort _
  obtain ⟨o, p, hpair⟩ := hpairs _ (List.getElem_mem hshort) _ hvalue
  have hget : perCheck[i]? = some [o, p] := by
    rw [← hpair]
    exact List.getElem?_eq_getElem _
  obtain ⟨heven, hodd⟩ := hplaces i
  rw [hget] at heven hodd
  exact ⟨o, p, hpair ▸ hvalue, heven, hodd⟩

/-- The outcomes of a check stand where the check stands, as the guard made them at its turn. -/
theorem outcomes_at_turn (hr : r.Lawful) {registry : Registry} {workers : Int} {report : Report}
    (hreport : (r.verifySuite registry workers).value t = .ok report) {i : Nat} {u : FileTree}
    (hturn : (r.turns t registry.checks)[i]? = some (check, u)) :
    ∃ violating clean,
      settle check Sample.invalid ((r.verifyViolating check).value u) = .ok violating ∧
      settle check Sample.valid
        ((r.verifyClean check).value ((r.verifyViolating check).after u)) = .ok clean ∧
      report.outcomes[2 * i]? = some violating ∧ report.outcomes[2 * i + 1]? = some clean := by
  have hworkers : workers.natAbs < Text.Numeral.bound := by
    by_contra hlarge
    rw [verifySuite_unwritable hlarge] at hreport
    cases hreport
  have hsettled : ∀ (check : Check) (u : FileTree) (os : List Outcome),
      (r.verify check).value u = .ok os → ∃ violating clean,
        settle check Sample.invalid ((r.verifyViolating check).value u) = .ok violating ∧
        settle check Sample.valid
          ((r.verifyClean check).value ((r.verifyViolating check).after u)) = .ok clean ∧
        os = [violating, clean] := by
    intro check u os hos
    simp only [verify_settles hr, bind_eq_ok_iff] at hos
    obtain ⟨violating, hviolating, clean, hclean, hos⟩ := hos
    cases hos
    exact ⟨violating, clean, hviolating, hclean, rfl⟩
  obtain ⟨v, es, hsuite⟩ := verifySuite_turns hr registry hworkers t
  rw [hsuite.value_eq, map_eq_ok_iff] at hreport
  obtain ⟨perCheck, hcollect, rfl⟩ := hreport
  rw [collect_map] at hcollect
  obtain ⟨-, hplaces⟩ := exists_pair_at hcollect fun turn _ os hos => by
    obtain ⟨violating, clean, -, -, hpair⟩ := hsettled turn.1 turn.2 os hos
    exact ⟨violating, clean, hpair⟩
  obtain ⟨violating, clean, hvalue, heven, hodd⟩ := hplaces i (check, u) hturn
  obtain ⟨_, _, hviolating, hclean, ⟨⟩⟩ := hsettled check u _ hvalue
  exact ⟨violating, clean, hviolating, hclean, heven, hodd⟩

/-- Collected in order, the results of the checks are such an answer. -/
theorem Uniform.answers (h : r.Uniform t W)
    (hagree : ∀ check ∈ checks, ∀ u, W u → r.fixtures.Agree t u check) :
    r.Answers t checks ((collect ((checks.map r.verify).map (·.value t))).map
      fun perCheck => ⟨perCheck.flatten⟩) := by
  rw [List.map_map, collect_map]
  cases hresults : checks.mapM ((·.value t) ∘ r.verify) with
  | error fault =>
    obtain ⟨before, check, behind, rfl, hbefore, hfault⟩ := exists_first_of_mapM_eq_error hresults
    exact ⟨before, check, behind, rfl, hbefore, hfault,
      (h.verify_value (hagree check (by simp))).2 fault hfault⟩
  | ok perCheck =>
    obtain ⟨hcount, hplaces⟩ := exists_pair_at hresults fun check hcheck os hvalue => by
      obtain ⟨o, p, hpair, -⟩ := (h.verify_value (hagree check hcheck)).1 os hvalue
      exact ⟨o, p, hpair⟩
    refine ⟨hcount, fun i check hi => ?_⟩
    obtain ⟨violating, clean, hvalue, heven, hodd⟩ := hplaces i check hi
    obtain ⟨_, _, ⟨⟩, hlabel, hlabel'⟩ :=
      (h.verify_value (hagree check (List.mem_of_getElem? hi))).1 _ hvalue
    exact ⟨violating, clean, hvalue, hlabel, hlabel', heven, hodd⟩

theorem tellResult_uniform (report : Report) (t : FileTree) (W : FileTree → Prop) :
    (tellResult report).Uniform t W := by
  rw [tellResult]
  split
  · exact .tell _ _
  · exact .tell _ _

theorem suiteBy_yields {tasks : List (Gate (Except Fault (List Outcome)))}
    {way : Gate (Except Fault (List (List Outcome)))} (hway : way.Gathers tasks t W) (ht : W t)
    (registry : Registry) {workers : Int} (hworkers : workers.natAbs < Text.Numeral.bound) :
    ∃ u es, (suiteBy registry workers way).Yields t
        ((collect (tasks.map (·.value t))).map fun perCheck => ⟨perCheck.flatten⟩) u
        (announcement registry workers :: es) ∧
      ∀ perCheck, collect (tasks.map (·.value t)) = .ok perCheck →
        es.Perm (tasks.flatMap (·.events t) ++ (tellResult ⟨perCheck.flatten⟩).events t) := by
  obtain ⟨u, es, hyields, hu, hperm⟩ := hway t ht
  have hwrite : Text.Numeral.write? workers = some (Text.Numeral.write workers) :=
    Text.Numeral.write?_eq_some_iff.mpr ⟨hworkers, rfl⟩
  rw [suiteBy, hwrite]
  cases hcollect : collect (tasks.map (·.value t)) with
  | error fault =>
    rw [hcollect] at hyields
    refine ⟨u, es ++ [], (Yields.record _ t).bind (hyields.bind (.pure _ u)), ?_⟩
    rintro perCheck ⟨⟩
  | ok perCheck =>
    rw [hcollect] at hyields
    obtain ⟨htell, -⟩ := tellResult_uniform ⟨perCheck.flatten⟩ t W u hu
    refine ⟨_, es ++ ((tellResult ⟨perCheck.flatten⟩).events t ++ []),
      (Yields.record _ t).bind (hyields.bind (htell.bind (.pure _ _))), ?_⟩
    rintro _ ⟨⟩
    rw [List.append_nil]
    exact (hperm perCheck hcollect).append_right _

/-- As long as the engines are uniform, no fixture changes and the number of workers can be written,
a suite answers in each of the ways in which it can go as it does with a single worker: with the
outcomes that its checks have alone, in their order, or with the fault of the first of them that has
one. In the first case what it writes down behind its first message is the same, too, in some
order. -/
theorem executes_alike {r : Runner} {t : FileTree} {W : FileTree → Prop} (h : r.Uniform t W)
    (registry : Registry)
    (hagree : ∀ check ∈ registry.checks, ∀ u, W u → r.fixtures.Agree t u check) {workers : Int}
    (hworkers : workers.natAbs < Text.Numeral.bound) {suite : Gate (Except Fault Report)}
    (hsuite : r.Executes registry workers suite) :
    suite.value t = (r.verifySuite registry 1).value t ∧
      r.Answers t registry.checks ((r.verifySuite registry 1).value t) ∧
      ∀ report, (r.verifySuite registry 1).value t = .ok report → ∃ es es₁,
        suite.events t = announcement registry workers :: es ∧
        (r.verifySuite registry 1).events t = announcement registry 1 :: es₁ ∧ es.Perm es₁ := by
  have hone : (1 : Int).natAbs < Text.Numeral.bound := Text.Numeral.one_lt_bound
  have hsingle : r.Executes registry 1 (r.verifySuite registry 1) := .inOrder
  obtain ⟨way, rfl, hway⟩ := hsuite.gathers h hagree
  obtain ⟨way₁, heq, hway₁⟩ := hsingle.gathers h hagree
  obtain ⟨u, es, hyields, hperm⟩ := suiteBy_yields hway h.start registry hworkers
  obtain ⟨v, es₁, hyields₁, hperm₁⟩ := suiteBy_yields hway₁ h.start registry hone
  rw [heq, hyields.value_eq, hyields₁.value_eq, hyields.events_eq, hyields₁.events_eq]
  refine ⟨rfl, h.answers hagree, fun report hreport => ⟨es, es₁, rfl, rfl, ?_⟩⟩
  obtain ⟨perCheck, hcollect, -⟩ := map_eq_ok_iff.mp hreport
  exact (hperm perCheck hcollect).trans (hperm₁ perCheck hcollect).symm

def loggedTree : FileTree :=
  let expected := "2: Unused import os\n10: Unused import os\n10: Unused import os"
  (fixtureTree [(importCheck, expected.toUTF8.toList), (lambdaCheck, [])]).put ["logs"] .directory

/-- A check that is there twice, and another one: all of them begin before one of them ends. -/
theorem executes_alike_imports :
    ∃ report, report.passed = true ∧ report.outcomes.length = 6 ∧
      (suiteBy ⟨[importCheck, lambdaCheck, importCheck]⟩ 3
        (loggedRunner.trials.interleaved [2, 0, 1, 0, 2, 2, 1, 0, 1, 1, 2, 0]
          ([importCheck, lambdaCheck, importCheck].map fun check => (check, .ready none)))).value
        loggedTree = .ok report := by
  let registry : Registry := ⟨[importCheck, lambdaCheck, importCheck]⟩
  have hready : loggedRuff.LogReady loggedTree := by
    rintro log ⟨⟩
    exact ⟨["logs", "raw_ruff.log"], by decide +kernel, .inl (by decide +kernel),
      ⟨["logs"], "raw_ruff.log", by decide +kernel, rfl, by decide, by decide⟩, by decide +kernel⟩
  have hkeeps := hready.keepsApart loggedRunner.fixtures registry.checks
  have hengines : loggedRunner.HasEngines loggedRuff (fun _ _ => .returned (.mk 0 "[]" ""))
      fun _ files => importRun files := rfl
  have hworkers : (3 : Int).natAbs < Text.Numeral.bound :=
    Text.Numeral.lt_bound 1 (by decide) (by decide)
  have hpassed : ((loggedRunner.verifySuite registry 1).value loggedTree).toOption.any
      (fun report => report.passed && report.outcomes.length == 6) = true := by decide +kernel
  obtain ⟨report, hreport, hpassed⟩ := exists_ok_of_any hpassed
  have halike := executes_alike (hengines.uniform hkeeps.keeps) registry hkeeps.apart hworkers
    (.interleaved [2, 0, 1, 0, 2, 2, 1, 0, 1, 1, 2, 0])
  rw [Bool.and_eq_true, beq_iff_eq] at hpassed
  exact ⟨report, hpassed.1, hpassed.2, halike.1.trans hreport⟩

/-- With more workers than can be written, there is no report. -/
theorem verifySuite_beyond_bound :
    (importRunner.verifySuite ⟨[]⟩ 1).value ⟨[], []⟩ = .ok ⟨[]⟩ ∧
      (importRunner.verifySuite ⟨[]⟩ Text.Numeral.bound).value ⟨[], []⟩ = .error .unwritable := by
  refine ⟨by decide +kernel, verifySuite_unwritable ?_⟩
  rw [Int.natAbs_natCast]
  exact Nat.lt_irrefl _

end Runner

end LintGate
