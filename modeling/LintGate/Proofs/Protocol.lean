import LintGate.Proofs.EngineRuns
import LintGate.Proofs.KeyComparison
import LintGate.Verification.Protocol

/-! # What the two protocols decide

The violating protocol compares what was captured with what is expected, as multisets of keys. It
passes when one is a permutation of the other, and otherwise names what either has more of, each
key as often as the counts differ. The clean protocol passes when nothing was heard. Both run over
the tree that their own capture leaves, and a fault of the capture is theirs.
-/

namespace LintGate

open Gate

theorem intercalate_cons_eq (sep s : String) (rest : List String) :
    ∃ tail, sep.intercalate (s :: rest) = s ++ tail := by
  cases rest with
  | nil => exact ⟨"", by simp⟩
  | cons t rest => exact ⟨sep ++ sep.intercalate (t :: rest), by simp [String.append_assoc]⟩

/-- An outcome that says how captured keys differ from expected ones: which are missing and which
are unexpected. -/
structure Outcome.Compares (o : Outcome) (captured expected missing unexpected : List Key) :
    Prop where
  passed : o.passed = true ↔ captured.Perm expected
  missing_rest : Key.IsSurplus expected captured missing
  missing : o.missing = missing.map Key.render
  unexpected_rest : Key.IsSurplus captured expected unexpected
  unexpected : o.unexpected = unexpected.map Key.render
  summary : o.summary = Collector.delimiter.intercalate (captured.map Key.render)
  invocations : o.invocations = captured.length
  error : o.error = none

namespace Outcome.Compares

variable {o : Outcome} {captured expected missing unexpected : List Key}

theorem balance (h : o.Compares captured expected missing unexpected) (k : Key) :
    captured.count k + missing.count k = expected.count k + unexpected.count k := by
  have hmissing := h.missing_rest.count k
  have hunexpected := h.unexpected_rest.count k
  omega

theorem disjoint (h : o.Compares captured expected missing unexpected)
    (hcaptured : ∀ k ∈ captured, k.hasText = true) (hexpected : ∀ k ∈ expected, k.hasText = true) :
    o.missing.Disjoint o.unexpected := by
  intro shown hm hu
  rw [h.missing, List.mem_map] at hm
  rw [h.unexpected, List.mem_map] at hu
  obtain ⟨k, hk, rfl⟩ := hm
  obtain ⟨l, hl, hrender⟩ := hu
  have heq : l = k := Key.render_injective (hcaptured l (h.unexpected_rest.mem hl))
    (hexpected k (h.missing_rest.mem hk)) hrender
  have hmissing := List.count_pos_iff.mpr hk
  have hunexpected := List.count_pos_iff.mpr (heq ▸ hl)
  rw [h.missing_rest.count] at hmissing
  rw [h.unexpected_rest.count] at hunexpected
  omega

theorem describe_eq (h : o.Compares captured expected missing unexpected)
    (hfailed : o.passed = false) :
    ∃ before behind, o.describe =
      before ++ Collector.delimiter.intercalate (captured.map Key.render) ++ behind := by
  obtain ⟨tail, htail⟩ := intercalate_cons_eq "\n"
    s!"{o.label} reported violations don't match: {o.summary}" o.differences
  refine ⟨s!"{o.label} reported violations don't match: ", tail, ?_⟩
  rw [← h.summary, describe, h.error]
  simp only [hfailed, Bool.false_eq_true, if_false, htail]
  simp [toString]

end Outcome.Compares

namespace Runner

def expected (r : Runner) (t : FileTree) (check : Check) : Except Fault (List Expectation) := do
  let fixture ← r.fixtures.load t check
  fixture.expectations t

/-- The differences of what a collector holds from the expectations. -/
def contrast (c : Collector) (expected : Except Fault (List Expectation)) :
    Except Fault Differences := do
  let expected ← expected
  let captured ← c.keys
  compare captured (expected.map Expectation.key)

/-- What the violating protocol makes of a capture and of the expectations. -/
def compared (check : Check) (c : Capture) (expected : Except Fault (List Expectation)) :
    Except Fault Outcome :=
  match c.fault with
  | some fault => .error fault
  | none => contrast c.collector expected >>= violatingOutcome check c.collector

/-- What the clean protocol makes of a capture. -/
def judged (check : Check) (c : Capture) : Except Fault Outcome :=
  match c.fault with
  | some fault => .error fault
  | none => do
    let keys ← c.collector.keys
    let summary ← c.collector.summary
    return cleanOutcome check c.collector keys summary

theorem differences_eq (r : Runner) (t : FileTree) (check : Check) (c : Collector) :
    r.differences t check c = contrast c (r.expected t check) := by
  rw [differences, contrast, expected]
  cases r.fixtures.load t check <;> rfl

theorem compare_eq_ok_iff {captured expected : List Key} {d : Differences} :
    compare captured expected = .ok d ↔ (∀ k ∈ captured, k.text.isCountable = true) ∧
      d = ⟨Key.surplus expected captured, Key.surplus captured expected⟩ := by
  rw [compare, Key.checkCountable]
  cases hfind : captured.find? (! ·.text.isCountable) with
  | some k =>
    have hk := List.find?_some hfind
    constructor
    · rintro ⟨⟩
    · rintro ⟨hall, -⟩
      rw [hall k (List.mem_of_find?_eq_some hfind)] at hk
      cases hk
  | none =>
    rw [List.find?_eq_none] at hfind
    have hall : ∀ k ∈ captured, k.text.isCountable = true := by simpa using hfind
    change Except.ok _ = .ok d ↔ _
    rw [Except.ok.injEq, eq_comm]
    exact ⟨fun hd => ⟨hall, hd⟩, And.right⟩

theorem compare_eq_ok {captured expected : List Key} (h : ∀ k ∈ captured, k.hasText = true) :
    compare captured expected =
      .ok ⟨Key.surplus expected captured, Key.surplus captured expected⟩ := by
  refine compare_eq_ok_iff.mpr ⟨fun k hk => ?_, rfl⟩
  obtain ⟨s, hs⟩ := Key.hasText_iff.mp (h k hk)
  rw [hs]
  rfl

theorem hasText_of_mem_expected {es : List Expectation} :
    ∀ k ∈ es.map Expectation.key, k.hasText = true := by
  intro k hk
  rw [List.mem_map] at hk
  obtain ⟨e, -, rfl⟩ := hk
  rfl

theorem violatingOutcome_eq_ok (check : Check) {c : Collector} {captured expected : List Key}
    (hcaptured : ∀ k ∈ captured, k.hasText = true) (hexpected : ∀ k ∈ expected, k.hasText = true)
    (hsummary : c.summary = .ok (Collector.delimiter.intercalate (captured.map Key.render)))
    (hinvocations : c.invocations = captured.length) :
    ∃ d o missing unexpected, compare captured expected = .ok d ∧ d.isEmpty = o.passed ∧
      violatingOutcome check c d = .ok o ∧ o.Compares captured expected missing unexpected := by
  obtain ⟨missing, hmissing, hmissing'⟩ := Key.sort_surplus hexpected hcaptured
  obtain ⟨unexpected, hunexpected, hunexpected'⟩ := Key.sort_surplus hcaptured hexpected
  let d : Differences := ⟨Key.surplus expected captured, Key.surplus captured expected⟩
  let o : Outcome := {
    check
    sample := Sample.invalid
    passed := d.isEmpty
    summary := Collector.delimiter.intercalate (captured.map Key.render)
    missing := missing.map Key.render
    unexpected := unexpected.map Key.render
    invocations := c.invocations }
  refine ⟨d, o, missing, unexpected, compare_eq_ok hcaptured, rfl, ?_,
    ⟨?_, hmissing', rfl, hunexpected', rfl, rfl, ?_, rfl⟩⟩
  · rw [violatingOutcome, hsummary, hmissing, hunexpected]
    rfl
  · rw [Key.perm_iff_surplus_eq_nil hcaptured hexpected]
    simp [o, d, Differences.isEmpty]
  · simp [o, hinvocations]

def warnings (passed : Bool) (message : String) : List Event :=
  if passed then [] else [.told .warning message]

theorem warn_yields {α : Type} {t u : FileTree} {a : α} {es : List Event} {rest : PUnit → Gate α}
    (h : (rest ()).Yields t a u es) (passed : Bool) (message : String) :
    (if passed = true then rest () else Gate.tell .warning message >>= rest).Yields t a u
      (warnings passed message ++ es) := by
  cases passed with
  | true => exact h
  | false => exact (Yields.tell _ _ t).bind h

section Protocols

variable {r : Runner} {check : Check} {t u : FileTree} {c : Capture} {es : List Event}
  {hs : List Finding} {fault : Fault}

theorem verifyViolating_fault (h : (r.capture check Sample.invalid).Yields t c u es)
    (hfault : c.fault = some fault) : (r.verifyViolating check).Yields t (.error fault) u es := by
  rw [verifyViolating, ← List.append_nil es]
  refine h.bind ?_
  rw [hfault]
  exact .pure _ u

theorem verifyViolating_incomparable (h : (r.capture check Sample.invalid).Yields t c u es)
    (hfault : c.fault = none) (hdifferences : r.differences u check c.collector = .error fault) :
    (r.verifyViolating check).Yields t (.error fault) u es := by
  rw [verifyViolating, ← List.append_nil es]
  refine h.bind ?_
  rw [hfault]
  refine (Yields.files u).bind ?_
  rw [hdifferences]
  exact .pure _ u

theorem verifyViolating_compared (h : (r.capture check Sample.invalid).Yields t c u es)
    (hfault : c.fault = none) {d : Differences}
    (hdifferences : r.differences u check c.collector = .ok d) :
    (r.verifyViolating check).Yields t (violatingOutcome check c.collector d) u
      (es ++ warnings d.isEmpty s!"{check}: reported violations don't match expectations") := by
  rw [verifyViolating]
  refine h.bind ?_
  rw [hfault, ← List.nil_append (warnings _ _)]
  refine (Yields.files u).bind ?_
  rw [hdifferences, ← List.append_nil (warnings _ _)]
  refine warn_yields ?_ d.isEmpty _
  exact .pure _ u

theorem verifyViolating_yields (h : (r.capture check Sample.invalid).Yields t c u es) :
    ∃ fs, (r.verifyViolating check).Yields t (compared check c (r.expected u check)) u fs := by
  rw [compared]
  cases hfault : c.fault with
  | some fault => exact ⟨_, verifyViolating_fault h hfault⟩
  | none =>
    dsimp only
    rw [← differences_eq]
    cases hdifferences : r.differences u check c.collector with
    | error fault => exact ⟨_, verifyViolating_incomparable h hfault hdifferences⟩
    | ok d => exact ⟨_, verifyViolating_compared h hfault hdifferences⟩

theorem verifyViolating_outcome (h : (r.capture check Sample.invalid).Yields t c u es)
    (hfault : c.fault = none) (hholds : c.collector.Holds hs) (hregular : ∀ f ∈ hs, f.IsRegular)
    {expected : List Expectation} (hexpected : r.expected u check = .ok expected) :
    ∃ captured o missing unexpected, hs.mapM Finding.key? = some captured ∧
      (r.verifyViolating check).Yields t (.ok o) u
        (es ++ warnings o.passed s!"{check}: reported violations don't match expectations") ∧
      o.Compares captured (expected.map Expectation.key) missing unexpected := by
  obtain ⟨captured, hcaptured, hkeys, htexts, hsummary, hinvocations⟩ := hholds.keys hregular
  obtain ⟨d, o, missing, unexpected, hcompare, hpassed, houtcome, hcompares⟩ :=
    violatingOutcome_eq_ok check (fun k hk => (htexts k hk).2) hasText_of_mem_expected
      hsummary hinvocations
  have hdifferences : r.differences u check c.collector = .ok d := by
    rw [differences_eq, contrast, hexpected, hkeys]
    exact hcompare
  refine ⟨captured, o, missing, unexpected, hcaptured, ?_, hcompares⟩
  rw [← hpassed, ← houtcome]
  exact verifyViolating_compared h hfault hdifferences

theorem verifyClean_fault (h : (r.capture check Sample.valid).Yields t c u es)
    (hfault : c.fault = some fault) : (r.verifyClean check).Yields t (.error fault) u es := by
  rw [verifyClean, ← List.append_nil es]
  refine h.bind ?_
  rw [hfault]
  exact .pure _ u

theorem verifyClean_judged (h : (r.capture check Sample.valid).Yields t c u es)
    (hfault : c.fault = none) {keys : List Key} {summary : String}
    (hkeys : c.collector.keys = .ok keys) (hsummary : c.collector.summary = .ok summary) :
    (r.verifyClean check).Yields t (.ok (cleanOutcome check c.collector keys summary)) u
      (es ++ warnings (cleanOutcome check c.collector keys summary).passed
        s!"{check}: log should be empty for valid files") := by
  rw [verifyClean]
  refine h.bind ?_
  rw [hfault, hkeys, hsummary, ← List.append_nil (warnings _ _)]
  refine warn_yields ?_ (cleanOutcome check c.collector keys summary).passed _
  exact .pure _ u

/-- The outcome of the clean protocol passes where nothing was heard. -/
theorem cleanOutcome_passed_iff (check : Check) {collector : Collector}
    (hholds : collector.Holds hs) {keys : List Key}
    (hinvocations : collector.invocations = keys.length) :
    (cleanOutcome check collector keys
      (Collector.delimiter.intercalate (keys.map Key.render))).passed = true ↔ hs = [] := by
  obtain ⟨hviolations, hcount⟩ := hholds
  rw [cleanOutcome]
  constructor
  · intro hpassed
    simp only [Bool.and_eq_true, beq_iff_eq] at hpassed
    rw [hcount] at hpassed
    exact List.length_eq_zero_iff.mp hpassed.2
  · rintro rfl
    have hnone : keys = [] := List.length_eq_zero_iff.mp (hinvocations.symm.trans hcount)
    simp [hnone, hcount, List.forall₂_nil_left_iff.mp hviolations]

theorem verifyClean_outcome (h : (r.capture check Sample.valid).Yields t c u es)
    (hfault : c.fault = none) (hholds : c.collector.Holds hs) (hregular : ∀ f ∈ hs, f.IsRegular) :
    ∃ o, (r.verifyClean check).Yields t (.ok o) u
        (es ++ warnings o.passed s!"{check}: log should be empty for valid files") ∧
      (o.passed = true ↔ hs = []) ∧ o.error = none := by
  obtain ⟨keys, -, hkeys, -, hsummary, hinvocations⟩ := hholds.keys hregular
  exact ⟨_, verifyClean_judged h hfault hkeys hsummary,
    cleanOutcome_passed_iff check hholds hinvocations, rfl⟩

theorem verifyClean_yields (h : (r.capture check Sample.valid).Yields t c u es) :
    ∃ fs, (r.verifyClean check).Yields t (judged check c) u fs := by
  rw [judged]
  cases hfault : c.fault with
  | some fault => exact ⟨_, verifyClean_fault h hfault⟩
  | none =>
    cases hkeys : c.collector.keys with
    | error fault =>
      refine ⟨es ++ [], h.bind ?_⟩
      rw [hfault, hkeys]
      exact .pure _ u
    | ok keys =>
      cases hsummary : c.collector.summary with
      | error fault =>
        refine ⟨es ++ [], h.bind ?_⟩
        rw [hfault, hkeys, hsummary]
        exact .pure _ u
      | ok summary => exact ⟨_, verifyClean_judged h hfault hkeys hsummary⟩

/-- The clean protocol passes only if the listener was never called. -/
theorem judged_passes (hfault : c.fault = none) {o : Outcome} (ho : judged check c = .ok o)
    (hpassed : o.passed = true) : c.collector.invocations = 0 := by
  rw [judged, hfault] at ho
  simp only [bind_eq_ok_iff] at ho
  obtain ⟨keys, -, summary, -, houtcome⟩ := ho
  cases houtcome
  simp only [cleanOutcome, Bool.and_eq_true, beq_iff_eq] at hpassed
  exact hpassed.2

theorem verifyClean_passes_iff (h : (r.capture check Sample.valid).Yields t c u es)
    (hholds : c.fault = none → c.collector.Holds hs) :
    (∃ o, (r.verifyClean check).value t = .ok o ∧ o.passed = true) ↔ c.fault = none ∧ hs = [] := by
  constructor
  · rintro ⟨o, hvalue, hpassed⟩
    cases hfault : c.fault with
    | some fault => rw [(verifyClean_fault h hfault).value_eq] at hvalue; cases hvalue
    | none =>
      obtain ⟨fs, hyields⟩ := verifyClean_yields h
      rw [hyields.value_eq] at hvalue
      have hcount := (hholds hfault).2
      rw [judged_passes hfault hvalue hpassed] at hcount
      exact ⟨rfl, List.length_eq_zero_iff.mp hcount.symm⟩
  · rintro ⟨hfault, rfl⟩
    obtain ⟨o, hyields, hpassed, -⟩ := verifyClean_outcome h hfault (hholds hfault) (by simp)
    exact ⟨o, hyields.value_eq, hpassed.mpr rfl⟩

theorem verifyViolating_oblivious (hr : r.Lawful) (check : Check) :
    (r.verifyViolating check).Oblivious := by
  rw [oblivious_iff]
  intro t
  obtain ⟨c, u, es, hcapture, -⟩ := capture_yields hr check Sample.invalid t
  exact ⟨_, _, verifyViolating_yields hcapture⟩

theorem verifyClean_oblivious (hr : r.Lawful) (check : Check) :
    (r.verifyClean check).Oblivious := by
  rw [oblivious_iff]
  intro t
  obtain ⟨c, u, es, hcapture, -⟩ := capture_yields hr check Sample.valid t
  exact ⟨_, _, verifyClean_yields hcapture⟩

end Protocols

/-- The keys captured on the invalid sample are compared with the expected ones exactly as
multisets. The outcome passes when one list is a permutation of the other; what it shows as missing
and as unexpected is the one sorted list that holds every key as often as the counts differ. -/
theorem verifyViolating_multisets {r : Runner} (hr : r.Lawful) (check : Check) (t : FileTree)
    (hfault : ((r.capture check Sample.invalid).value t).fault = none)
    (hregular : ∀ f ∈ heard ((r.capture check Sample.invalid).events t), f.IsRegular)
    {es : List Expectation}
    (hexpected : r.expected ((r.capture check Sample.invalid).after t) check = .ok es) :
    ∃ captured expected missing unexpected o,
      (heard ((r.capture check Sample.invalid).events t)).mapM Finding.key? = some captured ∧
      expected = es.map Expectation.key ∧
      (r.verifyViolating check).Yields t (.ok o) ((r.capture check Sample.invalid).after t)
        ((r.capture check Sample.invalid).events t ++
          if o.passed then []
          else [.told .warning s!"{check}: reported violations don't match expectations"]) ∧
      (o.passed = true ↔ captured.Perm expected) ∧
      (∀ rest, Key.IsSurplus expected captured rest ↔ rest = missing) ∧
      o.missing = missing.map Key.render ∧
      (∀ rest, Key.IsSurplus captured expected rest ↔ rest = unexpected) ∧
      o.unexpected = unexpected.map Key.render ∧
      (∀ k, captured.count k + missing.count k = expected.count k + unexpected.count k) ∧
      Set.InjOn Key.render {k | k.hasText = true} ∧
      o.missing.Disjoint o.unexpected ∧
      o.invocations = captured.length ∧
      (o.passed = false → ∃ before behind, o.describe =
        before ++ Collector.delimiter.intercalate (captured.map Key.render) ++ behind) := by
  obtain ⟨capture, u, events, hcapture, hcaptures⟩ := capture_yields hr check Sample.invalid t
  rw [hcapture.value_eq] at hfault
  rw [hcapture.events_eq] at hregular ⊢
  rw [hcapture.after_eq] at hexpected ⊢
  have hholds := hcaptures.holds hfault
  obtain ⟨captured, o, missing, unexpected, hcaptured, hyields, hcompares⟩ :=
    verifyViolating_outcome hcapture hfault hholds hregular hexpected
  have htexts : ∀ k ∈ captured, k.hasText = true := by
    obtain ⟨ks, hks, -, htexts, -⟩ := hholds.keys hregular
    rw [hcaptured] at hks
    cases hks
    exact fun k hk => (htexts k hk).2
  refine ⟨captured, _, missing, unexpected, o, hcaptured, rfl, hyields, hcompares.passed, ?_,
    hcompares.missing, ?_, hcompares.unexpected, hcompares.balance,
    fun k hk l hl => Key.render_injective hk hl,
    hcompares.disjoint htexts hasText_of_mem_expected, hcompares.invocations,
    hcompares.describe_eq⟩
  · intro rest
    constructor
    · intro hrest
      exact hrest.unique hasText_of_mem_expected hcompares.missing_rest
    · rintro rfl
      exact hcompares.missing_rest
  · intro rest
    constructor
    · intro hrest
      exact hrest.unique htexts hcompares.unexpected_rest
    · rintro rfl
      exact hcompares.unexpected_rest

/-- A tree with the fixtures of some checks below the directory `checks`, where the expectations of
each are the given bytes. -/
def fixtureTree (fixtures : List (Check × List UInt8)) : FileTree where
  entries := (["checks"], .directory) :: fixtures.flatMap fun (check, violations) =>
    let directory : Place := ["checks", check.engine, check.name]
    [(["checks", check.engine], .directory), (directory, .directory),
      (directory ++ ["config.toml"], .file []), (directory ++ ["Invalid.py"], .file []),
      (directory ++ ["Valid.py"], .file []), (directory ++ ["violations.txt"], .file violations)]
  working := []

def importCheck : Check := ⟨"pylint", "UnusedImportRule"⟩

def importRun (files : List Path) : PylintRun :=
  let message (line : Nat) : PylintMessage :=
    ⟨"unused-import", "Unused import os", "Invalid.py", "/Invalid.py", .int line, .null⟩
  ⟨if files.any (·.name = "Invalid.py") then [message 10, message 2, message 10] else [], .returned⟩

def importFinding (line : Nat) : Finding :=
  .rule ⟨"unused-import", .text "Invalid.py", .int line, .null, .text "Unused import os"⟩

theorem isRegular_importFinding (line : Nat) : (importFinding line).IsRegular :=
  ⟨⟨line, rfl⟩, _, rfl⟩

def importRunner : Runner :=
  ⟨[(Pylint.engineName, Pylint.engine fun _ files => importRun files)], ⟨⟨0, ["checks"]⟩⟩⟩

/-- One import too few is expected at one line, and one too many at the other. -/
theorem verifyViolating_multisets_imports :
    ∃ o, (importRunner.verifyViolating importCheck).value (fixtureTree [(importCheck,
        "2: Unused import os\n10:Unused import os\n2:Unused import os".toUTF8.toList)]) = .ok o ∧
      o.passed = false ∧ o.invocations = 3 ∧
      ∃ before behind, o.describe = before ++
        "10:Unused import os; 2:Unused import os; 10:Unused import os" ++ behind := by
  let t := fixtureTree [(importCheck,
    "2: Unused import os\n10:Unused import os\n2:Unused import os".toUTF8.toList)]
  have hlawful : importRunner.Lawful := by
    simp [importRunner, Lawful, Pylint.engine_lawful]
  have hheard : heard ((importRunner.capture importCheck Sample.invalid).events t) =
      [importFinding 10, importFinding 2, importFinding 10] := by decide +kernel
  have hregular : ∀ f ∈ heard ((importRunner.capture importCheck Sample.invalid).events t),
      f.IsRegular := by
    rw [hheard]
    simp [isRegular_importFinding]
  have hes : importRunner.expected ((importRunner.capture importCheck Sample.invalid).after t)
      importCheck =
      .ok [⟨2, "Unused import os"⟩, ⟨10, "Unused import os"⟩, ⟨2, "Unused import os"⟩] := by
    decide +kernel
  obtain ⟨captured, expected, missing, unexpected, o, hcaptured, hexpected, hyields, hpassed, -, -,
      -, -, -, -, -, hinvocations, hdescribe⟩ :=
    verifyViolating_multisets hlawful importCheck t (by decide +kernel) hregular hes
  rw [hheard] at hcaptured
  cases hcaptured
  have hfailed : o.passed = false := by
    rw [← Bool.not_eq_true, hpassed, hexpected]
    decide
  exact ⟨o, hyields.value_eq, hfailed, hinvocations, hdescribe hfailed⟩

end Runner

end LintGate
