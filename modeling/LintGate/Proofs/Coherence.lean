import LintGate.Console.ReportTable
import LintGate.Proofs.LawfulConsole
import LintGate.Proofs.Numeral
import LintGate.Proofs.Returns
import LintGate.Proofs.SortedItems
import LintGate.Proofs.SuiteOrder

/-! # Coherent outcomes

An outcome has fields of its own for the verdict, for the differences and for an error, which three
producers fill: the violating protocol, the clean one, and the guard. Whatever the registry, the
fixtures and the engines are, and in whatever way a suite goes, they fill them coherently: an
outcome passed and has nothing to tell, or differs and says how, or has an error and nothing else.
The diagnostics and the table of a report, which read the fields in different orders, therefore
agree. What a console shows of them hangs on the names of the checks, which go into the cells
unescaped.
-/

namespace LintGate

open Gate

namespace Outcome

inductive Standing
  | passed
  | differing
  | faulted
  deriving DecidableEq, Repr

/-- What the fields of an outcome are when it stands so. -/
def Stands (o : Outcome) : Standing → Prop
  | .passed => o.passed = true ∧ o.error = none ∧ o.missing = [] ∧ o.unexpected = []
  | .differing => o.passed = false ∧ o.error = none ∧ (o.missing ≠ [] ∨ o.unexpected ≠ [])
  | .faulted => o.passed = false ∧ (∃ message, o.error = some message) ∧ o.summary = "" ∧
      o.missing = [] ∧ o.unexpected = [] ∧ o.invocations = 0

/-- How an outcome stands if its fields go together: an error comes first, then the verdict. -/
def standing (o : Outcome) : Standing :=
  if o.error.isSome then .faulted else if o.passed then .passed else .differing

def namedKeys (name : String) (keys : List String) : List String :=
  if keys.isEmpty then [] else [s!"  {name}: " ++ Collector.delimiter.intercalate keys]

/-- The diagnostic that an error, a pass or the differences make, and nothing else. -/
def diagnosis (o : Outcome) : String :=
  match o.error with
  | some message => s!"{o.label} could not run: {message}"
  | none =>
    if o.passed then s!"{o.label} OK"
    else
      "\n".intercalate (s!"{o.label} reported violations don't match: {o.summary}" ::
        (namedKeys "missing" o.missing ++ namedKeys "unexpected" o.unexpected))

variable {o : Outcome}

theorem Stands.eq_standing {standing : Standing} (h : o.Stands standing) :
    standing = o.standing := by
  cases standing with
  | passed =>
    obtain ⟨hpassed, herror, -⟩ := h
    simp [Outcome.standing, hpassed, herror]
  | differing =>
    obtain ⟨hpassed, herror, -⟩ := h
    simp [Outcome.standing, hpassed, herror]
  | faulted =>
    obtain ⟨-, ⟨message, herror⟩, -⟩ := h
    simp [Outcome.standing, herror]

theorem differences_eq (o : Outcome) :
    o.differences =
      if o.missing = [] ∧ o.unexpected = [] then
        [s!"  listener fired {Text.Numeral.write o.invocations} time(s)"]
      else namedKeys "missing" o.missing ++ namedKeys "unexpected" o.unexpected :=
  if_congr (by simp) rfl rfl

theorem intercalate_pair_ne (first second : String) :
    "\n".intercalate [first, second] ≠ "\n".intercalate [first] := by
  intro heq
  have hbreak : "\n".length = 1 := rfl
  have hlength := congrArg String.length heq
  simp only [String.intercalate_cons_cons, String.intercalate_singleton, String.length_append,
    hbreak] at hlength
  omega

/-- Only a failure without an error and without differences is told of by the calls of the listener.
-/
theorem describe_eq_diagnosis_iff :
    o.describe = o.diagnosis ↔
      ¬ (o.error = none ∧ o.passed = false ∧ o.missing = [] ∧ o.unexpected = []) := by
  rw [describe, diagnosis]
  cases o.error with
  | some message => simp
  | none =>
    cases o.passed with
    | true => simp
    | false =>
      rw [differences_eq]
      by_cases hnone : o.missing = [] ∧ o.unexpected = []
      · rw [if_pos hnone, hnone.1, hnone.2]
        exact iff_of_false (intercalate_pair_ne _ _) (by simp)
      · simp [hnone]

/-- The fields of an outcome of a check go together. On the valid sample, each call of the
listener is an unexpected finding. -/
structure Coherent (o : Outcome) (check : Check) : Prop where
  owned : o.check = check
  sampled : o.sample ∈ [Sample.invalid, Sample.valid]
  stands : o.Stands o.standing
  clean : o.sample = Sample.valid → o.error = none →
    (o.passed = true ↔ o.invocations = 0) ∧ (o.unexpected.length : Int) = o.invocations

theorem Coherent.describe {check : Check} (h : o.Coherent check) : o.describe = o.diagnosis := by
  rw [describe_eq_diagnosis_iff]
  rintro ⟨herror, hpassed, hmissing, hunexpected⟩
  have hstands := h.stands
  have hdiffering : o.standing = .differing := by simp [standing, herror, hpassed]
  rw [hdiffering] at hstands
  obtain ⟨-, -, hsome⟩ := hstands
  exact hsome.elim (· hmissing) (· hunexpected)

theorem coherent_ofError {sample : String} (h : sample ∈ [Sample.invalid, Sample.valid])
    (check : Check) (message : String) : (ofError check sample message).Coherent check := by
  refine ⟨rfl, h, ⟨rfl, ⟨message, rfl⟩, rfl, rfl, rfl, rfl⟩, fun _ herror => ?_⟩
  cases herror

end Outcome

namespace Runner

variable {r : Runner} {check : Check} {o : Outcome}

theorem render_sort_eq_nil_iff {ks sorted : List Key} (h : Key.sort ks = .ok sorted) :
    sorted.map Key.render = [] ↔ ks = [] := by
  rw [List.map_eq_nil_iff]
  constructor
  · rintro rfl
    exact List.nil_perm.mp (Key.sort_perm h)
  · rintro rfl
    exact List.perm_nil.mp (Key.sort_perm h)

theorem coherent_of_violatingOutcome {c : Collector} {d : Differences}
    (h : violatingOutcome check c d = .ok o) : o.Coherent check := by
  simp only [violatingOutcome, bind_eq_ok_iff] at h
  obtain ⟨summary, -, missing, hmissing, unexpected, hunexpected, ho⟩ := h
  cases ho
  have hmissing' := render_sort_eq_nil_iff hmissing
  have hunexpected' := render_sort_eq_nil_iff hunexpected
  refine ⟨rfl, List.mem_cons_self, ?_,
    fun hsample _ => absurd (a := Sample.invalid = Sample.valid) hsample (by decide)⟩
  cases hempty : d.isEmpty with
  | true =>
    rw [Differences.isEmpty, Bool.and_eq_true, List.isEmpty_iff, List.isEmpty_iff] at hempty
    exact ⟨rfl, rfl, hmissing'.mpr hempty.1, hunexpected'.mpr hempty.2⟩
  | false =>
    rw [Differences.isEmpty, Bool.and_eq_false_iff, List.isEmpty_eq_false_iff,
      List.isEmpty_eq_false_iff] at hempty
    exact ⟨rfl, rfl, hempty.imp (mt hmissing'.mp) (mt hunexpected'.mp)⟩

/-- With a violation for each call, the three conditions of the clean protocol are one. -/
theorem coherent_cleanOutcome {c : Collector} {keys : List Key} {summary : String}
    (htallies : c.Tallies) (hkeys : c.keys = .ok keys) (hsummary : c.summary = .ok summary) :
    (cleanOutcome check c keys summary).Coherent check := by
  have hlength : c.violations.length = keys.length := (mapM_eq_ok_iff.mp hkeys).length_eq
  rw [Collector.Tallies, hlength] at htallies
  have hinvocations : (cleanOutcome check c keys summary).invocations = keys.length :=
    congrArg Nat.cast htallies
  -- The verdict asks for no violations, no summary and no calls; the calls decide on all of them.
  have hpassed : (cleanOutcome check c keys summary).passed = true ↔ keys = [] := by
    rw [cleanOutcome, ← List.length_eq_zero_iff, ← htallies]
    simp only [Bool.and_eq_true, List.isEmpty_iff, beq_iff_eq]
    constructor
    · exact fun h => h.2
    · intro hnone
      rw [htallies, ← hlength, List.length_eq_zero_iff] at hnone
      rw [Collector.summary, hnone] at hsummary
      cases hsummary
      exact ⟨⟨hnone, rfl⟩, by rw [htallies, ← hlength, hnone]; rfl⟩
  refine ⟨rfl, by simp [cleanOutcome], ?_, fun _ _ => ⟨?_, ?_⟩⟩
  · cases hverdict : (cleanOutcome check c keys summary).passed with
    | true =>
      have hstanding : (cleanOutcome check c keys summary).standing = .passed := by
        rw [Outcome.standing, hverdict]
        rfl
      rw [hstanding]
      refine ⟨hverdict, rfl, rfl, ?_⟩
      rw [cleanOutcome, hpassed.mp hverdict]
      rfl
    | false =>
      have hstanding : (cleanOutcome check c keys summary).standing = .differing := by
        rw [Outcome.standing, hverdict]
        rfl
      rw [hstanding]
      refine ⟨hverdict, rfl, .inr fun hnone => ?_⟩
      rw [hpassed.mpr (List.map_eq_nil_iff.mp hnone)] at hverdict
      cases hverdict
  · rw [hpassed, hinvocations]
    simp
  · rw [hinvocations]
    simp [cleanOutcome]

theorem compareCapture_gives (r : Runner) (check : Check) (capture : Capture) :
    (r.compareCapture check capture).Gives (·.Coherent check) := by
  rw [compareCapture]
  cases capture.fault with
  | some fault => exact Gives.error fault
  | none =>
    refine .behind _ fun t => ?_
    cases r.differences t check capture.collector with
    | error fault => exact Gives.error fault
    | ok d =>
      refine Returns.warn ?_ d.isEmpty _
      exact .pure fun o => coherent_of_violatingOutcome

theorem judgeCapture_gives (check : Check) {capture : Capture} (h : capture.Tallies) :
    (judgeCapture check capture).Gives (·.Coherent check) := by
  rw [judgeCapture]
  cases hfault : capture.fault with
  | some fault => exact Gives.error fault
  | none =>
    cases hkeys : capture.collector.keys with
    | error fault => cases capture.collector.summary <;> exact Gives.error _
    | ok keys =>
      cases hsummary : capture.collector.summary with
      | error fault => exact Gives.error fault
      | ok summary =>
        refine Returns.warn ?_ (cleanOutcome check capture.collector keys summary).passed _
        exact Gives.ok (coherent_cleanOutcome (h hfault) hkeys hsummary)

theorem guarded_gives {protocol : Gate (Except Fault Outcome)}
    (h : protocol.Gives (·.Coherent check)) {sample : String}
    (hsample : sample ∈ [Sample.invalid, Sample.valid]) :
    (guarded check sample protocol).Gives (·.Coherent check) := by
  refine h.bind (fun fault => ?_) fun o ho => Gives.ok ho
  dsimp only
  split_ifs
  · exact .behind _ fun _ => Gives.ok (Outcome.coherent_ofError hsample check fault.message)
  · exact Gives.error fault

theorem capture_tallies (r : Runner) (check : Check) (sample : String) :
    (r.capture check sample).Returns Capture.Tallies := by
  refine .behind _ fun t => ?_
  cases r.target t check sample with
  | error fault => exact .pure (Capture.tallies_of_fault rfl)
  | ok target => exact .behind _ fun _ => Session.finish_tallies _ (p := .requested) trivial

end Runner

theorem coherent_pair {check : Check} {violating clean : Outcome}
    (hviolating : violating.Coherent check) (hclean : clean.Coherent check) :
    ∀ o ∈ [violating, clean], o.Coherent check := by
  simp [hviolating, hclean]

namespace Trial

def Coherent (check : Check) : Trial → Prop
  | .ready earlier => ∀ o ∈ earlier, o.Coherent check
  | .inSession earlier _ phase => (∀ o ∈ earlier, o.Coherent check) ∧ phase.Tallies
  | .captured earlier capture => (∀ o ∈ earlier, o.Coherent check) ∧ capture.Tallies
  | .concluded earlier result =>
    (∀ o ∈ earlier, o.Coherent check) ∧ ∀ o, result = .ok o → o.Coherent check
  | .ended result => ∀ os, result = .ok os → ∀ o ∈ os, o.Coherent check

variable {r : Runner} {check : Check} {earlier : Option Outcome} {p : Trial}

theorem coherent_ready_none (check : Check) : (ready none).Coherent check :=
  fun o ho => absurd ho (Option.not_mem_none o)

theorem sample_mem (earlier : Option Outcome) :
    sample earlier ∈ [Sample.invalid, Sample.valid] := by
  cases earlier <;> simp [sample]

theorem conclude_gives (r : Runner) (check : Check) (earlier : Option Outcome) {capture : Capture}
    (h : capture.Tallies) : (conclude r check earlier capture).Gives (·.Coherent check) := by
  cases earlier with
  | none => exact r.compareCapture_gives check capture
  | some violating => exact Runner.judgeCapture_gives check h

theorem protocol_gives (r : Runner) (check : Check) (earlier : Option Outcome) :
    (protocol r check earlier).Gives (·.Coherent check) := by
  refine Runner.guarded_gives ?_ (sample_mem earlier)
  exact (r.capture_tallies check (sample earlier)).bind fun _ => conclude_gives r check earlier

theorem proceed_gives (r : Runner) (check : Check)
    (hearlier : ∀ o ∈ earlier, o.Coherent check)
    {protocol : Gate (Except Fault Outcome)} (h : protocol.Gives (·.Coherent check)) :
    (Runner.guarded check (sample earlier) protocol >>= proceed r check earlier).Gives
      fun os => ∀ o ∈ os, o.Coherent check := by
  have hguarded := Runner.guarded_gives h (sample_mem earlier)
  cases earlier with
  | some violating =>
    exact hguarded.bind Gives.error fun clean hclean =>
      Gives.ok (coherent_pair (hearlier violating rfl) hclean)
  | none =>
    refine hguarded.bind Gives.error fun violating hviolating => ?_
    exact (protocol_gives r check (some violating)).bind Gives.error fun clean hclean =>
      Gives.ok (coherent_pair hviolating hclean)

theorem finish_gives (r : Runner) (check : Check) (h : p.Coherent check) :
    (p.finish r check).Gives fun os => ∀ o ∈ os, o.Coherent check := by
  cases p with
  | ready earlier =>
    exact proceed_gives r check h ((r.capture_tallies check (sample earlier)).bind
      fun _ => conclude_gives r check earlier)
  | inSession earlier session phase =>
    refine (session.finish_tallies h.2).bind fun capture hcapture => ?_
    exact proceed_gives r check h.1 (conclude_gives r check earlier hcapture)
  | captured earlier capture =>
    exact proceed_gives r check h.1 (conclude_gives r check earlier h.2)
  | concluded earlier result => exact proceed_gives r check h.1 (.pure h.2)
  | ended result => exact .pure h

/-- Each step keeps it so. -/
theorem next_coherent (r : Runner) (check : Check) (h : p.Coherent check) :
    (p.next r check).Returns (Coherent check) := by
  cases p with
  | ready earlier =>
    refine .behind _ fun t => ?_
    cases r.target t check (sample earlier) with
    | error fault => exact .pure (P := Coherent check) ⟨h, Capture.tallies_of_fault rfl⟩
    | ok target => exact .behind _ fun _ => .pure (P := Coherent check) ⟨h, trivial⟩
  | inSession earlier session phase =>
    have hstep : (session.next phase >>= fun q => pure (.inSession earlier session q)).Returns
        (Coherent check) :=
      (session.next_tallies h.2).bind fun q hq => .pure (P := Coherent check) ⟨h.1, hq⟩
    cases phase with
    | ended capture => exact .pure (P := Coherent check) h
    | _ => exact hstep
  | captured earlier capture =>
    exact Returns.bind (conclude_gives r check earlier h.2) fun _ hresult =>
      .pure (P := Coherent check) ⟨h.1, hresult⟩
  | concluded earlier result =>
    have hguarded := Runner.guarded_gives (Returns.pure h.2) (sample_mem earlier)
    have hended (fault : Fault) : (pure (ended (.error fault)) : Gate Trial).Returns
        (Coherent check) := .pure nofun
    cases earlier with
    | some violating =>
      refine hguarded.bind hended fun clean hclean => ?_
      refine .pure (P := Coherent check) ?_
      rintro _ ⟨⟩
      exact coherent_pair (h.1 violating rfl) hclean
    | none =>
      refine hguarded.bind hended fun violating hviolating => ?_
      refine .pure (P := Coherent check) ?_
      rintro _ ⟨⟩
      exact hviolating
  | ended result => exact .pure (P := Coherent check) h

end Trial

namespace Runner

variable {r : Runner} {registry : Registry} {workers : Int}

theorem verify_gives (r : Runner) (check : Check) :
    (r.verify check).Gives fun os => ∀ o ∈ os, o.Coherent check := by
  rw [← Trial.finish_ready]
  exact Trial.finish_gives r check (Trial.coherent_ready_none check)

theorem suiteBy_gives {P : Outcome → Prop} {way : Gate (Except Fault (List (List Outcome)))}
    (h : way.Gives fun perCheck => ∀ os ∈ perCheck, ∀ o ∈ os, P o)
    (registry : Registry) (workers : Int) :
    (suiteBy registry workers way).Gives fun report => ∀ o ∈ report.outcomes, P o := by
  rw [suiteBy]
  cases Text.Numeral.write? workers with
  | none => exact Gives.error _
  | some shown =>
    refine .behind _ fun _ => h.bind Gives.error fun perCheck hperCheck => .behind _ fun _ => ?_
    refine Gives.ok fun o ho => ?_
    obtain ⟨os, hos, ho⟩ := List.mem_flatten.mp ho
    exact hperCheck os hos o ho

/-- In whatever way a suite goes, each of its outcomes is a coherent one of one of its checks. -/
theorem Executes.gives {suite : Gate (Except Fault Report)}
    (h : r.Executes registry workers suite) :
    suite.Gives fun report =>
      ∀ o ∈ report.outcomes, ∃ check ∈ registry.checks, o.Coherent check := by
  have htasks : ∀ task ∈ registry.checks.map r.verify,
      task.Gives fun os => ∀ o ∈ os, ∃ check ∈ registry.checks, o.Coherent check := by
    intro task htask
    obtain ⟨check, hcheck, rfl⟩ := List.mem_map.mp htask
    exact (r.verify_gives check).mono fun os hos o ho => ⟨check, hcheck, hos o ho⟩
  cases h with
  | inOrder =>
    rw [verifySuite_eq_suiteBy, outcomes]
    split_ifs
    · exact suiteBy_gives (inSequence_gives htasks) registry workers
    · exact suiteBy_gives (pooled_gives htasks _) registry workers
  | pooled hperm => exact suiteBy_gives (pooled_gives htasks _) registry workers
  | interleaved turns =>
    refine suiteBy_gives (Stepwise.interleaved_gives
      (S := fun p => p.1 ∈ registry.checks ∧ p.2.Coherent p.1) ?_ ?_ turns ?_) registry workers
    · rintro ⟨check, p⟩ ⟨hcheck, hp⟩
      exact (Trial.next_coherent r check hp).bind fun q hq => .pure ⟨hcheck, hq⟩
    · rintro ⟨check, p⟩ ⟨hcheck, hp⟩
      exact (Trial.finish_gives r check hp).mono fun os hos o ho => ⟨check, hcheck, hos o ho⟩
    · intro p hp
      obtain ⟨check, hcheck, rfl⟩ := List.mem_map.mp hp
      exact ⟨hcheck, Trial.coherent_ready_none check⟩

end Runner

namespace Runner

theorem verifyClean_heard {r : Runner} (hr : r.Lawful) {check : Check} {t : FileTree} {o : Outcome}
    (h : (r.verifyClean check).value t = .ok o) :
    (o.passed = true ↔ heard ((r.verifyClean check).events t) = []) ∧
      o.unexpected.length = (heard ((r.verifyClean check).events t)).length := by
  obtain ⟨c, u, es, hcapture, hcaptures⟩ := capture_yields hr check Sample.valid t
  obtain ⟨fs, hyields⟩ := verifyClean_yields hcapture
  have hjudged : judged check c = .ok o := hyields.value_eq.symm.trans h
  cases hfault : c.fault with
  | some fault => simp [judged, hfault] at hjudged
  | none =>
    simp only [judged, hfault, bind_eq_ok_iff] at hjudged
    obtain ⟨keys, hkeys, summary, hsummary, ho⟩ := hjudged
    cases ho
    obtain ⟨hviolations, hcount⟩ := hcaptures.holds hfault
    have hcoherent : (cleanOutcome check c.collector keys summary).Coherent check :=
      coherent_cleanOutcome (hcount.trans hviolations.length_eq) hkeys hsummary
    obtain ⟨hpassed, hunexpected⟩ := hcoherent.clean rfl rfl
    have hheard : heard ((r.verifyClean check).events t) = heard es := by
      rw [(verifyClean_judged hcapture hfault hkeys hsummary).events_eq, heard_append]
      cases (cleanOutcome check c.collector keys summary).passed <;> simp [warnings]
    have hinvocations : (cleanOutcome check c.collector keys summary).invocations =
        (heard es).length := congrArg Nat.cast hcount
    rw [hinvocations] at hpassed hunexpected
    rw [hheard, hpassed]
    exact ⟨by simp, Int.ofNat_inj.mp hunexpected⟩

end Runner

inductive Outcome.HasRow (o : Outcome) : List String → Prop
  | intro (verdict : String) (pass : verdict = "[green]PASS[/]" ↔ o.passed = true)
      (error : verdict = "[red]ERROR[/]" ↔ ∃ message, o.error = some message) :
      HasRow o [o.check.qualifiedName, o.sample, verdict, Text.Numeral.write o.invocations]

/-- An error is shown before the verdict, but no outcome that passed has one. -/
theorem Outcome.Coherent.hasRow {o : Outcome} {check : Check} (h : o.Coherent check) :
    o.HasRow (Report.row o) := by
  have hstands := h.stands
  refine .intro (Report.verdict o) ?_ ?_
  all_goals
    rw [standing] at hstands
    rw [Report.verdict]
    cases herror : o.error with
    | some message =>
      rw [herror] at hstands
      simp [hstands.1]
    | none => cases o.passed <;> simp

namespace Report

theorem passed_iff_failures_eq_nil (report : Report) :
    report.passed = true ↔ report.failures = [] := by
  simp [passed, failures]

theorem reads_of_mem_row {c : Console} (hc : c.Lawful) {o : Outcome}
    (hsample : o.sample ∈ [Sample.invalid, Sample.valid])
    (hname : c.Reads o.check.qualifiedName) {text : String} (htext : text ∈ row o) :
    c.Reads text := by
  simp only [row, List.mem_cons, List.not_mem_nil, or_false] at htext
  obtain rfl | rfl | rfl | rfl := htext
  · exact hname
  · refine hc.nested _ ?_
    simp only [List.mem_cons, List.not_mem_nil, or_false] at hsample
    obtain hsample | hsample := hsample <;> rw [hsample] <;> decide
  · refine hc.nested _ ?_
    rw [verdict]
    split_ifs <;> decide
  · refine hc.nested _ (.of_not_hasTag ?_)
    rintro ⟨before, body, after, -, heq⟩
    have hbracket : '[' ∈ (Text.Numeral.write o.invocations).toList := by simp [heq]
    exact absurd (Text.Numeral.mem_toList_write hbracket) (by decide)

/-- Of all that is printed, only the names of the checks are not known to be read. -/
theorem reads_of_mem_printed {report : Report} {c : Console} (hc : c.Lawful)
    (hsamples : ∀ o ∈ report.outcomes, o.sample ∈ [Sample.invalid, Sample.valid])
    (hnames : ∀ o ∈ report.outcomes, c.Reads o.check.qualifiedName) {item : Printed}
    (hitem : item ∈ report.printed c.escape) {text : String} (htext : text ∈ item.texts) :
    c.Reads text := by
  rw [printed, List.mem_cons, List.mem_map] at hitem
  obtain rfl | ⟨o, -, rfl⟩ := hitem
  · simp only [table, Printed.texts, List.cons_append, List.mem_cons, List.mem_append,
      List.mem_flatten, List.mem_map] at htext
    obtain rfl | ⟨column, hcolumn, rfl⟩ | ⟨_, ⟨o, ho, rfl⟩, htext⟩ := htext
    · exact hc.nested _ (by decide)
    · refine hc.nested _ ?_
      revert column
      decide
    · exact reads_of_mem_row hc (hsamples o ho) (hnames o ho) htext
  · simp only [Printed.marked, Printed.texts, if_true, List.mem_singleton] at htext
    rw [htext]
    exact hc.nested _ (hc.escapes.nests o.describe)

theorem name_mem_table {report : Report} {o : Outcome} (h : o ∈ report.outcomes) :
    o.check.qualifiedName ∈ report.table.texts := by
  simp only [table, Printed.texts, List.mem_append, List.mem_flatten, List.mem_map]
  exact .inr ⟨row o, ⟨o, h, rfl⟩, List.mem_cons_self⟩

end Report

/-- A lawful console shows all of a report if it can read the names of its checks. -/
theorem Runner.Executes.presents {r : Runner} {registry : Registry} {workers : Int}
    {suite : Gate (Except Fault Report)} (hsuite : r.Executes registry workers suite)
    {s : GateState} {report : Report} (hreport : (suite.run s).1 = .ok report) {c : Console}
    (hc : c.Lawful) (hnames : ∀ o ∈ report.outcomes, c.Reads o.check.qualifiedName) :
    report.present c = (report.printed c.escape, none) := by
  have hsamples : ∀ o ∈ report.outcomes, o.sample ∈ [Sample.invalid, Sample.valid] := by
    intro o ho
    obtain ⟨check, -, hcoherent⟩ := hsuite.gives s report hreport o ho
    exact hcoherent.sampled
  exact Console.print_of_taken fun item hitem => (hc.items item).mpr fun text =>
    Report.reads_of_mem_printed hc hsamples hnames hitem

/-- Every outcome of a suite stands in exactly one way, and its diagnostic is about this. An outcome
of the clean protocol has an unexpected finding for each call of the listener, and passes if there
was none. A report passes if it has no failures. It is made of one row for each outcome and then one
diagnostic for each failure, both in order, of which a console shows what stands before the first
item that it refuses: everything if it can read the names of the checks, and otherwise not even the
table. -/
theorem Runner.reports_coherent {r : Runner} {registry : Registry} {workers : Int}
    {suite : Gate (Except Fault Report)} (hsuite : r.Executes registry workers suite)
    {s : GateState} {report : Report} (hreport : (suite.run s).1 = .ok report) :
    (∀ o ∈ report.outcomes, (∃! standing, o.Stands standing) ∧ o.describe = o.diagnosis ∧
        (o.sample = Sample.valid → o.error = none →
          (o.passed = true ↔ o.invocations = 0) ∧ (o.unexpected.length : Int) = o.invocations)) ∧
      (r.Lawful → ∀ check t o, (r.verifyClean check).value t = .ok o →
        (o.passed = true ↔ heard ((r.verifyClean check).events t) = []) ∧
        o.unexpected.length = (heard ((r.verifyClean check).events t)).length) ∧
      (report.passed = true ↔ report.failures = []) ∧
      ∀ c : Console, ∃ rows diagnostics,
        List.Forall₂ Outcome.HasRow report.outcomes rows ∧
        List.Forall₂ (fun o diagnostic => diagnostic = .marked (c.escape o.describe))
          report.failures diagnostics ∧
        let items := .table "Fixture verification" Report.columns rows :: diagnostics
        report.present c =
            (items.takeWhile fun item => (c.refusal? item).isNone, items.findSome? c.refusal?) ∧
          (c.Lawful →
            ((∀ o ∈ report.outcomes, c.Reads o.check.qualifiedName) →
              report.present c = (items, none)) ∧
            ∀ o ∈ report.outcomes, ¬ c.Reads o.check.qualifiedName →
              ∃ fault : Fault, fault.kind = .markup ∧ report.present c = ([], some fault)) := by
  have hcoherent := hsuite.gives s report hreport
  have hrows : List.Forall₂ Outcome.HasRow report.outcomes (report.outcomes.map Report.row) := by
    rw [List.forall₂_map_right_iff, List.forall₂_same]
    intro o ho
    obtain ⟨check, -, ho⟩ := hcoherent o ho
    exact ho.hasRow
  have hdiagnostics (c : Console) :
      List.Forall₂ (fun o diagnostic => diagnostic = Printed.marked (c.escape o.describe))
        report.failures (report.failures.map fun o => .marked (c.escape o.describe)) := by
    rw [List.forall₂_map_right_iff, List.forall₂_same]
    exact fun _ _ => rfl
  refine ⟨fun o ho => ?_, fun hr check t o => verifyClean_heard hr,
    report.passed_iff_failures_eq_nil, fun c => ⟨_, _, hrows, hdiagnostics c,
      c.print_eq (report.printed c.escape), fun hlawful => ⟨fun hnames => ?_, ?_⟩⟩⟩
  · obtain ⟨check, -, ho⟩ := hcoherent o ho
    exact ⟨⟨o.standing, ho.stands, fun _ h => h.eq_standing⟩, ho.describe, ho.clean⟩
  · exact hsuite.presents hreport hlawful hnames
  · intro o ho hreads
    obtain ⟨fault, hkind, hrefused⟩ := hlawful.exists_refusal (Report.name_mem_table ho) hreads
    exact ⟨fault, hkind, Console.print_of_refused hrefused _⟩

def closingCheck : Check := ⟨"ruff", "[/b]"⟩

/-- A check that finds what was not expected, and one without a fixture: the terminal shows a table
and three diagnostics. It shows nothing where the name of the second one closes a style. -/
theorem Runner.reports_coherent_imports :
    (∃ report, (importRunner.verifySuite ⟨[importCheck, lambdaCheck]⟩ 1).value
          (fixtureTree [(importCheck, [])]) = .ok report ∧
        report.outcomes.map Outcome.standing = [.differing, .passed, .faulted, .faulted] ∧
        (∀ o ∈ report.outcomes, ∃! standing, o.Stands standing) ∧
        (report.present .terminal).1.length = 4 ∧ (report.present .terminal).2 = none) ∧
      ∃ report, (importRunner.verifySuite ⟨[importCheck, closingCheck]⟩ 1).value
          (fixtureTree [(importCheck, [])]) = .ok report ∧
        report.failures.length = 3 ∧ (report.present .terminal).1 = [] := by
  constructor
  · have hreport : ((importRunner.verifySuite ⟨[importCheck, lambdaCheck]⟩ 1).value
        (fixtureTree [(importCheck, [])])).toOption.any (fun report =>
          report.outcomes.map Outcome.standing = [.differing, .passed, .faulted, .faulted] ∧
            report.failures.length = 3 ∧ ∀ o ∈ report.outcomes, '[' ∉ o.check.qualifiedName.toList)
          = true := by
      decide +kernel
    obtain ⟨report, hreport, hany⟩ := exists_ok_of_any hreport
    obtain ⟨hstandings, hfailures, hnames⟩ := of_decide_eq_true hany
    have hsuite : importRunner.Executes ⟨[importCheck, lambdaCheck]⟩ 1
        (importRunner.verifySuite ⟨[importCheck, lambdaCheck]⟩ 1) := .inOrder
    obtain ⟨hcoherent, -, -, hpresent⟩ := reports_coherent hsuite hreport
    obtain ⟨rows, diagnostics, -, hdiagnostics, -, hlawful⟩ := hpresent .terminal
    have hreads : ∀ o ∈ report.outcomes, Console.terminal.Reads o.check.qualifiedName :=
      fun o ho => Console.terminal_reads.mpr <|
        .of_not_hasTag fun ⟨_, _, _, _, heq⟩ => hnames o ho (by simp [heq])
    have hshown := (hlawful Console.terminal_lawful).1 hreads
    refine ⟨report, hreport, hstandings, fun o ho => (hcoherent o ho).1, ?_, by rw [hshown]⟩
    rw [hshown, List.length_cons, ← hdiagnostics.length_eq, hfailures]
  · have hreport : ((importRunner.verifySuite ⟨[importCheck, closingCheck]⟩ 1).value
        (fixtureTree [(importCheck, [])])).toOption.any (fun report =>
          report.failures.length = 3 ∧ ∃ o ∈ report.outcomes, o.check = closingCheck) = true := by
      decide +kernel
    obtain ⟨report, hreport, hany⟩ := exists_ok_of_any hreport
    obtain ⟨hfailures, o, ho, hcheck⟩ := of_decide_eq_true hany
    have hsuite : importRunner.Executes ⟨[importCheck, closingCheck]⟩ 1
        (importRunner.verifySuite ⟨[importCheck, closingCheck]⟩ 1) := .inOrder
    obtain ⟨-, -, -, hpresent⟩ := reports_coherent hsuite hreport
    obtain ⟨_, _, -, -, -, hlawful⟩ := hpresent .terminal
    have hcloses : Markup.ClosesFirst o.check.qualifiedName :=
      ⟨"ruff/".toList, ['b'], [], by rw [hcheck]; decide⟩
    have hreads := Console.terminal_lawful.closing _ hcloses
    obtain ⟨fault, -, hshown⟩ := (hlawful Console.terminal_lawful).2 o ho hreads
    exact ⟨report, hreport, hfailures, by rw [hshown]⟩

end LintGate
