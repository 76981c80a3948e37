import LintGate.Proofs.ExpectationText
import LintGate.Proofs.Protocol
import Mathlib.Data.List.Perm.Basic

/-! # What a verdict depends on

Two runs of a check that come to the end of their sessions are compared by what was emitted.
Findings with the same keys, one by one, come to the same outcome. Findings in another order, and
expectations on other lines of their file, come to the same verdict, and so does a run that raises.
-/

namespace LintGate

open Gate

theorem Capture.Completes.fault_eq_none_iff {c : Capture} {held hs : List Finding} {e : Emission}
    (h : c.Completes held e hs) :
    c.fault = none ↔ e.failure = none ∧ ∀ f ∈ e.findings, ∃ v, f.toViolation = .ok v := by
  constructor
  · intro hfault
    obtain ⟨hfailure, -, hholds⟩ := h.complete hfault
    exact ⟨hfailure, fun f hf => hholds.toViolation (List.mem_append_right held hf)⟩
  · rintro ⟨hfailure, hviolations⟩
    rw [Option.eq_none_iff_forall_ne_some]
    intro fault hfault
    rcases h.fault fault hfault with ⟨-, hown⟩ | ⟨f, hf, hrefused⟩
    · rw [hfailure] at hown
      cases hown
    · obtain ⟨v, hv⟩ := hviolations f hf
      rw [hv] at hrefused
      cases hrefused

namespace Emission

/-- The run returned, and each of its findings is turned into a violation. -/
def Returns (e : Emission) : Prop :=
  e.failure = none ∧ ∀ f ∈ e.findings, ∃ v, f.toViolation = .ok v

theorem capture_fault_eq_none_iff (e : Emission) : e.capture.fault = none ↔ e.Returns := by
  obtain ⟨es, -, hcompletes⟩ := e.capture_spec
  exact hcompletes.fault_eq_none_iff

theorem Returns.holds {e : Emission} (h : e.Returns) : e.capture.collector.Holds e.findings := by
  obtain ⟨es, -, hcompletes⟩ := e.capture_spec
  exact (hcompletes.complete (hcompletes.fault_eq_none_iff.mpr h)).2.2

theorem returns_perm {e e' : Emission} (hperm : e.findings.Perm e'.findings)
    (hfailure : e.failure = none ↔ e'.failure = none) : e.Returns ↔ e'.Returns := by
  simp only [Returns, hfailure, hperm.mem_iff]

theorem returns_congr {e e' : Emission} (hregular : ∀ f ∈ e.findings, f.IsRegular)
    (hregular' : ∀ f ∈ e'.findings, f.IsRegular)
    (hkeys : e.findings.map Finding.key? = e'.findings.map Finding.key?)
    (hlines : ∀ f ∈ e.findings ++ e'.findings, f.HasWritableLines)
    (hfailure : e.failure = none ↔ e'.failure = none) : e.Returns ↔ e'.Returns := by
  have hall : ∀ fs : List Finding, (∀ f ∈ fs, f.IsRegular) → (∀ f ∈ fs, f.HasWritableLines) →
      ((∀ f ∈ fs, ∃ v, f.toViolation = .ok v) ↔
        ∀ k ∈ fs.map Finding.key?, k.isSome = true) := by
    intro fs hregular hlines
    rw [List.forall_mem_map]
    exact forall₂_congr fun f hf =>
      Finding.exists_toViolation_iff_isSome_key? (hregular f hf) (hlines f hf)
  rw [List.forall_mem_append] at hlines
  rw [Returns, Returns, hfailure, hall _ hregular hlines.1, hall _ hregular' hlines.2, hkeys]

end Emission

/-- How outcomes compare whose findings came in different orders: by no more than the order of what
they list as it came. -/
structure Outcome.Reorders (o o' : Outcome) : Prop where
  passed : o.passed = o'.passed
  missing : o.missing = o'.missing
  unexpected : o.unexpected.Perm o'.unexpected
  invocations : o.invocations = o'.invocations
  summary : ∃ ks ks' : List Key, ks.Perm ks' ∧
    o.summary = Collector.delimiter.intercalate (ks.map Key.render) ∧
    o'.summary = Collector.delimiter.intercalate (ks'.map Key.render)

namespace Outcome.Compares

variable {o o' : Outcome} {captured expected missing unexpected captured' expected' missing'
  unexpected' : List Key}

/-- Permuted keys make the same verdict, and what is unexpected is shown in the same order. -/
theorem reorders (h : o.Compares captured expected missing unexpected)
    (h' : o'.Compares captured' expected' missing' unexpected')
    (hcaptured : captured.Perm captured') (hexpected : expected.Perm expected')
    (htexts : ∀ k ∈ captured, k.hasText = true) (htexts' : ∀ k ∈ expected, k.hasText = true) :
    o.Reorders o' ∧ o.unexpected = o'.unexpected := by
  have hcount := List.perm_iff_count.mp hcaptured
  have hcount' := List.perm_iff_count.mp hexpected
  have hpassed : captured.Perm expected ↔ captured'.Perm expected' := by
    rw [List.perm_iff_count, List.perm_iff_count]
    simp only [hcount, hcount']
  have hmissing : missing = missing' := by
    refine h.missing_rest.unique htexts' ⟨h'.missing_rest.sorted, fun k => ?_⟩
    rw [h'.missing_rest.count, hcount, hcount']
  have hunexpected : unexpected = unexpected' := by
    refine h.unexpected_rest.unique htexts ⟨h'.unexpected_rest.sorted, fun k => ?_⟩
    rw [h'.unexpected_rest.count, hcount, hcount']
  have hshown : o.unexpected = o'.unexpected := by
    rw [h.unexpected, h'.unexpected, hunexpected]
  refine ⟨⟨?_, ?_, by rw [hshown], ?_, captured, captured', hcaptured, h.summary, h'.summary⟩,
    hshown⟩
  · rw [Bool.eq_iff_iff, h.passed, h'.passed, hpassed]
  · rw [h.missing, h'.missing, hmissing]
  · rw [h.invocations, h'.invocations, hcaptured.length_eq]

end Outcome.Compares

namespace Runner

/-- The check is run on a sample: its parts are there, its session is opened, and the engine emits
what is given and leaves the second tree. -/
def Performs (r : Runner) (t : FileTree) (check : Check) (sample : String) (e : Emission)
    (u : FileTree) : Prop :=
  ∃ target, r.target t check sample = .ok target ∧
    (target.engine.opening target.config).findSome? (SessionStep.refusal? t) = none ∧
    (target.engine.run target.config [target.sample]).Emits t e u

variable {r r' : Runner} {t t' u u' : FileTree} {check : Check} {sample : String}
  {e e' : Emission}

theorem Performs.capture_yields (h : r.Performs t check sample e u) :
    ∃ es, (r.capture check sample).Yields t e.capture u es := by
  obtain ⟨target, htarget, hopening, hemits⟩ := h
  let session := target.engine.session target.config [[target.sample]]
  obtain ⟨es, hhold, -⟩ := session.hold_opened hopening rfl
    (hemits.after_record (fun f h => by cases h))
  let start := Event.told .debug s!"Running {check} on {target.sample.name}"
  rw [capture]
  refine ⟨[] ++ ([start] ++ es), (Yields.files t).bind ?_⟩
  rw [htarget]
  exact (Yields.tell _ _ t).bind hhold

theorem Performs.verifyViolating (h : r.Performs t check Sample.invalid e u) :
    (r.verifyViolating check).value t = compared check e.capture (r.expected u check) := by
  obtain ⟨es, hcapture⟩ := h.capture_yields
  obtain ⟨fs, hyields⟩ := verifyViolating_yields hcapture
  exact hyields.value_eq

theorem Performs.verifyClean (h : r.Performs t check Sample.valid e u) :
    (r.verifyClean check).value t = judged check e.capture := by
  obtain ⟨es, hcapture⟩ := h.capture_yields
  obtain ⟨fs, hyields⟩ := verifyClean_yields hcapture
  exact hyields.value_eq

theorem compared_eq_ok (check : Check) (he : e.Returns) (hregular : ∀ f ∈ e.findings, f.IsRegular)
    (es : List Expectation) :
    ∃ captured o missing unexpected,
      List.Forall₂ (fun f k => f.key? = some k) e.findings captured ∧
      (∀ k ∈ captured, k.hasText = true) ∧ compared check e.capture (.ok es) = .ok o ∧
      o.Compares captured (es.map Expectation.key) missing unexpected := by
  obtain ⟨captured, hcaptured, hkeys, htexts, hsummary, hinvocations⟩ := he.holds.keys hregular
  have htexts' : ∀ k ∈ captured, k.hasText = true := fun k hk => (htexts k hk).2
  obtain ⟨d, o, missing, unexpected, hcompare, -, houtcome, hcompares⟩ :=
    violatingOutcome_eq_ok check htexts' hasText_of_mem_expected hsummary hinvocations
  have hcontrast : contrast e.capture.collector (.ok es) = .ok d := by
    rw [contrast, hkeys]
    exact hcompare
  refine ⟨captured, o, missing, unexpected, mapM_eq_some_iff.mp hcaptured, htexts', ?_, hcompares⟩
  rw [compared, e.capture_fault_eq_none_iff.mpr he, hcontrast]
  exact houtcome

theorem exists_compared_iff (check : Check) (hregular : ∀ f ∈ e.findings, f.IsRegular)
    (expected : Except Fault (List Expectation)) :
    (∃ o, compared check e.capture expected = .ok o) ↔ e.Returns ∧ ∃ es, expected = .ok es := by
  constructor
  · rintro ⟨o, ho⟩
    rw [compared] at ho
    cases hfault : e.capture.fault with
    | some fault => simp [hfault] at ho
    | none =>
      simp only [hfault, contrast, bind_eq_ok_iff] at ho
      obtain ⟨d, ⟨es, hes, -⟩, -⟩ := ho
      exact ⟨e.capture_fault_eq_none_iff.mp hfault, es, hes⟩
  · rintro ⟨he, es, rfl⟩
    obtain ⟨-, o, -, -, -, -, ho, -⟩ := compared_eq_ok check he hregular es
    exact ⟨o, ho⟩

theorem judged_eq_ok (check : Check) (he : e.Returns) (hregular : ∀ f ∈ e.findings, f.IsRegular) :
    ∃ captured o, List.Forall₂ (fun f k => f.key? = some k) e.findings captured ∧
      judged check e.capture = .ok o ∧ (o.passed = true ↔ e.findings = []) ∧ o.missing = [] ∧
      o.unexpected = captured.map Key.render ∧ o.invocations = captured.length ∧
      o.summary = Collector.delimiter.intercalate (captured.map Key.render) := by
  obtain ⟨captured, hcaptured, hkeys, -, hsummary, hinvocations⟩ := he.holds.keys hregular
  refine ⟨captured, _, mapM_eq_some_iff.mp hcaptured, ?_,
    cleanOutcome_passed_iff check he.holds hinvocations, rfl, rfl, ?_, rfl⟩
  · rw [judged, e.capture_fault_eq_none_iff.mpr he, hkeys, hsummary]
    rfl
  · simp [cleanOutcome, hinvocations]

theorem exists_judged_iff (check : Check) (hregular : ∀ f ∈ e.findings, f.IsRegular) :
    (∃ o, judged check e.capture = .ok o) ↔ e.Returns := by
  constructor
  · rintro ⟨o, ho⟩
    rw [judged] at ho
    cases hfault : e.capture.fault with
    | some fault => simp [hfault] at ho
    | none => exact e.capture_fault_eq_none_iff.mp hfault
  · intro he
    obtain ⟨-, o, -, ho, -⟩ := judged_eq_ok check he hregular
    exact ⟨o, ho⟩

/-- Findings with the same keys leave nothing in a collector that an outcome could tell apart. -/
theorem agree_of_map_key?_eq (he : e.Returns) (he' : e'.Returns)
    (hregular : ∀ f ∈ e.findings, f.IsRegular) (hregular' : ∀ f ∈ e'.findings, f.IsRegular)
    (hkeys : e.findings.map Finding.key? = e'.findings.map Finding.key?) :
    e.capture.collector.keys = e'.capture.collector.keys ∧
      e.capture.collector.summary = e'.capture.collector.summary ∧
      e.capture.collector.invocations = e'.capture.collector.invocations ∧
      e.capture.collector.violations.isEmpty = e'.capture.collector.violations.isEmpty := by
  obtain ⟨captured, hcaptured, hread, -, hsummary, hinvocations⟩ := he.holds.keys hregular
  obtain ⟨captured', hcaptured', hread', -, hsummary', hinvocations'⟩ := he'.holds.keys hregular'
  rw [mapM_eq_some_iff, forall₂_eq_some_iff] at hcaptured hcaptured'
  have hsame : captured = captured' := by
    rw [hcaptured, hcaptured'] at hkeys
    exact List.map_injective_iff.mpr (Option.some_injective Key) hkeys
  subst hsame
  have hlength :
      e.capture.collector.violations.length = e'.capture.collector.violations.length := by
    rw [← he.holds.1.length_eq, ← he'.holds.1.length_eq, ← he.holds.2, ← he'.holds.2,
      hinvocations, hinvocations']
  refine ⟨hread.trans hread'.symm, hsummary.trans hsummary'.symm,
    hinvocations.trans hinvocations'.symm, ?_⟩
  rw [Bool.eq_iff_iff, List.isEmpty_iff_length_eq_zero, List.isEmpty_iff_length_eq_zero, hlength]

theorem compared_congr (check : Check) (he : e.Returns) (he' : e'.Returns)
    (hregular : ∀ f ∈ e.findings, f.IsRegular) (hregular' : ∀ f ∈ e'.findings, f.IsRegular)
    (hkeys : e.findings.map Finding.key? = e'.findings.map Finding.key?)
    (expected : Except Fault (List Expectation)) :
    compared check e.capture expected = compared check e'.capture expected := by
  obtain ⟨hread, hsummary, hinvocations, -⟩ :=
    agree_of_map_key?_eq he he' hregular hregular' hkeys
  have hcontrast : contrast e.capture.collector = contrast e'.capture.collector := by
    funext expected
    rw [contrast, contrast, hread]
  have houtcome : violatingOutcome check e.capture.collector =
      violatingOutcome check e'.capture.collector := by
    funext d
    rw [violatingOutcome, violatingOutcome, hsummary, hinvocations]
  simp only [compared, e.capture_fault_eq_none_iff.mpr he, e'.capture_fault_eq_none_iff.mpr he',
    hcontrast, houtcome]

theorem judged_congr (check : Check) (he : e.Returns) (he' : e'.Returns)
    (hregular : ∀ f ∈ e.findings, f.IsRegular) (hregular' : ∀ f ∈ e'.findings, f.IsRegular)
    (hkeys : e.findings.map Finding.key? = e'.findings.map Finding.key?) :
    judged check e.capture = judged check e'.capture := by
  obtain ⟨hread, hsummary, hinvocations, hempty⟩ :=
    agree_of_map_key?_eq he he' hregular hregular' hkeys
  simp only [judged, e.capture_fault_eq_none_iff.mpr he, e'.capture_fault_eq_none_iff.mpr he',
    cleanOutcome, hread, hsummary, hinvocations, hempty]

def expectationsText (r : Runner) (t : FileTree) (check : Check) : Except Fault (List Char) := do
  let fixture ← r.fixtures.load t check
  fixture.expectationsText t

theorem expected_eq_ok_iff {text : List Char} (h : r.expectationsText t check = .ok text)
    {es : List Expectation} :
    r.expected t check = .ok es ↔ List.Forall₂ Expectation.Reads (Text.nonblankLines text) es := by
  rw [expectationsText, bind_eq_ok_iff] at h
  obtain ⟨fixture, hfixture, htext⟩ := h
  have hparse : Expectation.parse text (some fixture.expectationsPath.toString) = .ok es ↔
      List.Forall₂ Expectation.Reads (Text.nonblankLines text) es := Expectation.parse_eq_ok_iff
  rw [expected, hfixture, ← hparse]
  change fixture.expectations t = .ok es ↔ _
  rw [fixture.expectations_eq_bind, htext]
  rfl

theorem expected_perm {text text' : List Char} (h : r.expectationsText t check = .ok text)
    (h' : r'.expectationsText t' check = .ok text')
    (hlines : (Text.nonblankLines text).Perm (Text.nonblankLines text')) {es : List Expectation}
    (hes : r.expected t check = .ok es) :
    ∃ es', r'.expected t' check = .ok es' ∧ es.Perm es' := by
  rw [expected_eq_ok_iff h] at hes
  obtain ⟨es', hes', hperm⟩ := List.perm_comp_forall₂ hlines.symm hes
  exact ⟨es', (expected_eq_ok_iff h').mpr hes', hperm.symm⟩

theorem exists_expected_iff {text text' : List Char} (h : r.expectationsText t check = .ok text)
    (h' : r'.expectationsText t' check = .ok text')
    (hlines : (Text.nonblankLines text).Perm (Text.nonblankLines text')) :
    (∃ es, r.expected t check = .ok es) ↔ ∃ es, r'.expected t' check = .ok es := by
  constructor
  · rintro ⟨es, hes⟩
    obtain ⟨es', hes', -⟩ := expected_perm h h' hlines hes
    exact ⟨es', hes'⟩
  · rintro ⟨es, hes⟩
    obtain ⟨es', hes', -⟩ := expected_perm h' h hlines.symm hes
    exact ⟨es', hes'⟩

theorem compared_reorders (check : Check) (hregular : ∀ f ∈ e.findings, f.IsRegular)
    (hregular' : ∀ f ∈ e'.findings, f.IsRegular) (hfindings : e.findings.Perm e'.findings)
    {es es' : List Expectation} (hes : es.Perm es') {o o' : Outcome}
    (ho : compared check e.capture (.ok es) = .ok o)
    (ho' : compared check e'.capture (.ok es') = .ok o') :
    o.Reorders o' ∧ o.unexpected = o'.unexpected := by
  have he := ((exists_compared_iff check hregular (.ok es)).mp ⟨o, ho⟩).1
  have he' := ((exists_compared_iff check hregular' (.ok es')).mp ⟨o', ho'⟩).1
  obtain ⟨captured, p, missing, unexpected, hcaptured, htexts, hp, hcompares⟩ :=
    compared_eq_ok check he hregular es
  obtain ⟨captured', p', missing', unexpected', hcaptured', -, hp', hcompares'⟩ :=
    compared_eq_ok check he' hregular' es'
  rw [ho] at hp
  rw [ho'] at hp'
  cases hp
  cases hp'
  exact hcompares.reorders hcompares' (perm_of_forall₂_eq_some hcaptured hcaptured' hfindings)
    (hes.map Expectation.key) htexts hasText_of_mem_expected

theorem judged_reorders (check : Check) (hregular : ∀ f ∈ e.findings, f.IsRegular)
    (hregular' : ∀ f ∈ e'.findings, f.IsRegular) (hfindings : e.findings.Perm e'.findings)
    {o o' : Outcome} (ho : judged check e.capture = .ok o)
    (ho' : judged check e'.capture = .ok o') : o.Reorders o' := by
  have he := (exists_judged_iff check hregular).mp ⟨o, ho⟩
  have he' := (exists_judged_iff check hregular').mp ⟨o', ho'⟩
  obtain ⟨captured, p, hcaptured, hp, hpassed, hmissing, hunexpected, hinvocations, hsummary⟩ :=
    judged_eq_ok check he hregular
  obtain ⟨captured', p', hcaptured', hp', hpassed', hmissing', hunexpected', hinvocations',
    hsummary'⟩ := judged_eq_ok check he' hregular'
  rw [ho] at hp
  rw [ho'] at hp'
  cases hp
  cases hp'
  have hkeys := perm_of_forall₂_eq_some hcaptured hcaptured' hfindings
  have hsilent : e.findings = [] ↔ e'.findings = [] := by
    constructor
    · intro h
      rw [h] at hfindings
      exact hfindings.nil_eq.symm
    · intro h
      rw [h] at hfindings
      exact hfindings.eq_nil
  refine ⟨?_, hmissing.trans hmissing'.symm, ?_, ?_, captured, captured', hkeys, hsummary,
    hsummary'⟩
  · rw [Bool.eq_iff_iff, hpassed, hpassed', hsilent]
  · rw [hunexpected, hunexpected']
    exact hkeys.map Key.render
  · rw [hinvocations, hinvocations', hkeys.length_eq]

/-- Two values of a protocol of which either both are outcomes or both are faults. -/
def RaiseAlike (a b : Except Fault Outcome) : Prop := (∃ o, a = .ok o) ↔ ∃ o, b = .ok o

/-- Two runs of one check, of whatever runners and over whatever trees, that come to emit something.
Each protocol comes to an outcome just in case its run of the engine returned, each finding is
turned into a violation and, for the violating protocol, the expectations can be read. Where the
findings of two runs have the same keys one by one, and the expectations are the same, so are the
outcomes, and if all lines can be written, both runs raise or neither does. Where the findings of
one run are those of the other in any order, and so are the lines of the expectations that are not
blank, both runs raise or neither does, and the outcomes differ by no more than the order of what
they list as it came. -/
theorem outcomes_of_two_runs (check : Check) (hregular : ∀ f ∈ e.findings, f.IsRegular)
    (hregular' : ∀ f ∈ e'.findings, f.IsRegular) :
    (r.Performs t check Sample.invalid e u → r'.Performs t' check Sample.invalid e' u' →
      ((∃ o, (r.verifyViolating check).value t = .ok o) ↔
        e.Returns ∧ ∃ es, r.expected u check = .ok es) ∧
      (e.findings.map Finding.key? = e'.findings.map Finding.key? →
        r.expected u check = r'.expected u' check →
          (∀ o o', (r.verifyViolating check).value t = .ok o →
            (r'.verifyViolating check).value t' = .ok o' → o = o') ∧
          ((∀ f ∈ e.findings ++ e'.findings, f.HasWritableLines) →
            (e.failure = none ↔ e'.failure = none) →
            RaiseAlike ((r.verifyViolating check).value t)
              ((r'.verifyViolating check).value t'))) ∧
      (e.findings.Perm e'.findings → (e.failure = none ↔ e'.failure = none) →
        ∀ text text', r.expectationsText u check = .ok text →
          r'.expectationsText u' check = .ok text' →
          (Text.nonblankLines text).Perm (Text.nonblankLines text') →
            RaiseAlike ((r.verifyViolating check).value t) ((r'.verifyViolating check).value t') ∧
            ∀ o o', (r.verifyViolating check).value t = .ok o →
              (r'.verifyViolating check).value t' = .ok o' →
                o.Reorders o' ∧ o.unexpected = o'.unexpected)) ∧
    (r.Performs t check Sample.valid e u → r'.Performs t' check Sample.valid e' u' →
      ((∃ o, (r.verifyClean check).value t = .ok o) ↔ e.Returns) ∧
      (e.findings.map Finding.key? = e'.findings.map Finding.key? →
        (∀ o o', (r.verifyClean check).value t = .ok o →
          (r'.verifyClean check).value t' = .ok o' → o = o') ∧
        ((∀ f ∈ e.findings ++ e'.findings, f.HasWritableLines) →
          (e.failure = none ↔ e'.failure = none) →
          RaiseAlike ((r.verifyClean check).value t) ((r'.verifyClean check).value t'))) ∧
      (e.findings.Perm e'.findings → (e.failure = none ↔ e'.failure = none) →
        RaiseAlike ((r.verifyClean check).value t) ((r'.verifyClean check).value t') ∧
        ∀ o o', (r.verifyClean check).value t = .ok o →
          (r'.verifyClean check).value t' = .ok o' → o.Reorders o')) := by
  constructor
  · intro h h'
    rw [h.verifyViolating, h'.verifyViolating]
    -- Whether a run has an outcome hangs on its own findings; only the equality compares the two.
    have hreturns := exists_compared_iff check hregular (r.expected u check)
    have hreturns' := exists_compared_iff check hregular' (r'.expected u' check)
    refine ⟨hreturns, ?_, ?_⟩
    · intro hkeys hexpected
      constructor
      · intro o o' ho ho'
        rw [← hexpected] at ho'
        have he := (hreturns.mp ⟨o, ho⟩).1
        have he' := ((exists_compared_iff check hregular' _).mp ⟨o', ho'⟩).1
        rw [compared_congr check he he' hregular hregular' hkeys, ho'] at ho
        exact (Except.ok.inj ho).symm
      · intro hlines hfailure
        rw [RaiseAlike, hreturns, hreturns', hexpected,
          Emission.returns_congr hregular hregular' hkeys hlines hfailure]
    · intro hfindings hfailure text text' htext htext' hlines
      constructor
      · rw [RaiseAlike, hreturns, hreturns', Emission.returns_perm hfindings hfailure,
          exists_expected_iff htext htext' hlines]
      · intro o o' ho ho'
        obtain ⟨-, es, hes⟩ := hreturns.mp ⟨o, ho⟩
        obtain ⟨es', hes', hperm⟩ := expected_perm htext htext' hlines hes
        rw [hes] at ho
        rw [hes'] at ho'
        exact compared_reorders check hregular hregular' hfindings hperm ho ho'
  · intro h h'
    rw [h.verifyClean, h'.verifyClean]
    have hreturns := exists_judged_iff check hregular
    have hreturns' := exists_judged_iff check hregular'
    refine ⟨hreturns, ?_, ?_⟩
    · intro hkeys
      constructor
      · intro o o' ho ho'
        have hsame := judged_congr check (hreturns.mp ⟨o, ho⟩) (hreturns'.mp ⟨o', ho'⟩) hregular
          hregular' hkeys
        rw [ho, ho'] at hsame
        exact Except.ok.inj hsame
      · intro hlines hfailure
        rw [RaiseAlike, hreturns, hreturns',
          Emission.returns_congr hregular hregular' hkeys hlines hfailure]
    · intro hfindings hfailure
      constructor
      · rw [RaiseAlike, hreturns, hreturns', Emission.returns_perm hfindings hfailure]
      · exact fun o o' ho ho' => judged_reorders check hregular hregular' hfindings ho ho'

theorem performs_pylint {runOf : Path → List Path → PylintRun} {fixture : Fixture} {path : Path}
    (hengine : r.engineFor check = .ok (Pylint.engine runOf))
    (hfixture : r.fixtures.load t check = .ok fixture)
    (hpath : fixture.samplePath t sample = .ok path)
    (hopening : (Pylint.opening fixture.config).findSome? (SessionStep.refusal? t) = none) :
    r.Performs t check sample
      (Pylint.emission fixture.config (runOf fixture.config [path])) t := by
  have htarget : r.target t check sample = .ok ⟨Pylint.engine runOf, fixture.config, path⟩ := by
    simp only [target, bind_eq_ok_iff]
    exact ⟨fixture, hfixture, path, hpath, _, hengine, rfl⟩
  exact ⟨_, htarget, hopening, Pylint.run_emits fixture.config [path] _ t⟩

def shuffledRun (files : List Path) : PylintRun :=
  ⟨(importRun files).messages.reverse.rotate 1, .returned⟩

def shuffledRunner : Runner :=
  ⟨[(Pylint.engineName, Pylint.engine fun _ files => shuffledRun files)], ⟨⟨0, ["checks"]⟩⟩⟩

theorem outcomes_of_two_runs_imports :
    ∃ o o', (importRunner.verifyViolating importCheck).value (fixtureTree [(importCheck,
        "2: Unused import os\n10:Unused import os\n2:Unused import os".toUTF8.toList)]) = .ok o ∧
      (shuffledRunner.verifyViolating importCheck).value (fixtureTree [(importCheck,
        "\n2:Unused import os\r\n2: Unused import os\n \n10:Unused import os".toUTF8.toList)]) =
        .ok o' ∧ o.Reorders o' ∧ o.unexpected = o'.unexpected := by
  let t := fixtureTree [(importCheck,
    "2: Unused import os\n10:Unused import os\n2:Unused import os".toUTF8.toList)]
  let t' := fixtureTree [(importCheck,
    "\n2:Unused import os\r\n2: Unused import os\n \n10:Unused import os".toUTF8.toList)]
  let fixture : Fixture :=
    ⟨"UnusedImportRule", ⟨0, ["checks", "pylint", "UnusedImportRule"]⟩,
      ⟨0, ["checks", "pylint", "UnusedImportRule", "config.toml"]⟩⟩
  let path : Path := ⟨0, ["checks", "pylint", "UnusedImportRule", "Invalid.py"]⟩
  have hload : importRunner.fixtures.load t importCheck = .ok fixture := by decide +kernel
  have hpath : fixture.samplePath t Sample.invalid = .ok path := by decide +kernel
  have hload' : shuffledRunner.fixtures.load t' importCheck = .ok fixture := by decide +kernel
  have hpath' : fixture.samplePath t' Sample.invalid = .ok path := by decide +kernel
  have hengine : importRunner.engineFor importCheck = .ok (Pylint.engine fun _ => importRun) := rfl
  have hengine' : shuffledRunner.engineFor importCheck =
      .ok (Pylint.engine fun _ => shuffledRun) := rfl
  have h := performs_pylint hengine hload hpath (by decide +kernel)
  have h' := performs_pylint hengine' hload' hpath' (by decide +kernel)
  let e := Pylint.emission fixture.config (importRun [path])
  let e' := Pylint.emission fixture.config (shuffledRun [path])
  have hfindings : e.findings = [importFinding 10, importFinding 2, importFinding 10] := by
    decide +kernel
  have hperm : e.findings.Perm e'.findings := by decide +kernel
  have hregular : ∀ f ∈ e.findings, f.IsRegular := by
    rw [hfindings]
    simp [isRegular_importFinding]
  have hregular' : ∀ f ∈ e'.findings, f.IsRegular := fun f hf => hregular f (hperm.mem_iff.mpr hf)
  let text := "2: Unused import os\n10:Unused import os\n2:Unused import os".toList
  let text' := "\n2:Unused import os\n2: Unused import os\n \n10:Unused import os".toList
  have htext : importRunner.expectationsText t importCheck = .ok text := by decide +kernel
  have htext' : shuffledRunner.expectationsText t' importCheck = .ok text' := by decide +kernel
  have hlines : (Text.nonblankLines text).Perm (Text.nonblankLines text') := by decide +kernel
  obtain ⟨-, -, hreordered⟩ := (outcomes_of_two_runs importCheck hregular hregular').1 h h'
  obtain ⟨halike, hreorders⟩ := hreordered hperm Iff.rfl text text' htext htext' hlines
  obtain ⟨o, ho, -⟩ := exists_ok_of_any (p := fun _ => true)
    (x := (importRunner.verifyViolating importCheck).value t) (by decide +kernel)
  obtain ⟨o', ho'⟩ := halike.mp ⟨o, ho⟩
  exact ⟨o, o', ho, ho', hreorders o o' ho ho'⟩

end Runner

end LintGate
