import LintGate.Proofs.CheckSession
import LintGate.Proofs.LineProjection
import LintGate.Proofs.ShortData
import LintGate.Proofs.SilentRun

/-! # What output of Ruff can be used

Ruff may write anything. Blank output, output that is no JSON and JSON that is no list come to no
finding or to one that says so. In a list, each element is taken for an entry, and it depends on the
element whether it comes to a finding at all, and whether that has a violation whose line can be
read back. Where all of this holds the output can be used, and the gate never fails on it; where
some of it does not, a check of Ruff comes to no outcome. Rows need no bound here, since the numbers
in a JSON text are short.
-/

namespace LintGate

open Gate

namespace Finding

/-- The finding has a violation, and the violation a line, a key and a text. -/
def Endures (f : Finding) : Prop :=
  ∃ v line key shown, f.toViolation = .ok v ∧ v.line = .ok line ∧ v.key = .ok key ∧
    v.render = .ok shown

theorem endures_iff {f : Finding} :
    f.Endures ↔ ∃ v line, f.toViolation = .ok v ∧ v.line = .ok line := by
  constructor
  · rintro ⟨v, line, -, -, hv, hline, -, -⟩
    exact ⟨v, line, hv, hline⟩
  · rintro ⟨v, line, hv, hline⟩
    have hkey : v.key = .ok ⟨line, v.description⟩ := by rw [Violation.key, hline]; rfl
    exact ⟨v, line, _, _, hv, hline, hkey, by rw [Violation.render, hkey]; rfl⟩

theorem endures_rule_iff {f : RuleFinding} {n : Int} (hn : f.firstLine = .int n)
    (hlines : (rule f).HasWritableLines) : (rule f).Endures ↔ 0 ≤ n := by
  obtain ⟨v, hv, -, hline⟩ := RuleFinding.exists_toViolation hlines
  obtain ⟨hread, hfault⟩ := hline n hn
  rw [endures_iff]
  constructor
  · rintro ⟨v', line, hv', hline⟩
    cases hv.symm.trans hv'
    by_contra hnegative
    rw [hfault (Int.not_le.mp hnegative)] at hline
    cases hline
  · intro hfirst
    exact ⟨v, n, hv, hread hfirst⟩

theorem endures_processing_iff {f : ProcessingFailure} :
    (processing f).Endures ↔ ∃ s, f.message = .text s := by
  rw [endures_iff, toViolation, ProcessingFailure.toViolation]
  constructor
  · rintro ⟨v, line, hv, -⟩
    obtain ⟨description, hdescription, -⟩ := map_eq_ok_iff.mp hv
    cases hmessage : f.message with
    | text s => exact ⟨s, rfl⟩
    | _ => rw [hmessage] at hdescription; cases hdescription
  · rintro ⟨s, hs⟩
    rw [hs]
    exact ⟨_, 0, rfl, rfl⟩

end Finding

namespace RuffOutput

def field (fields : List (String × Datum)) (key : String) (default : Datum) : Datum :=
  (Datum.lookup key fields).getD default

/-- The row that a location names: none of what is null, empty or zero, and that of a table. What
else stands for a location cannot be used. -/
def rowIn : Datum → Option Datum
  | .table fields => some (field fields "row" .null)
  | place => if place.isTruthy then none else some .null

theorem row_eq_ok_iff {fields : List (String × Datum)} {location : String} {first : Datum} :
    row (.table fields) location = .ok first ↔
      rowIn (field fields location .null) = some first := by
  change ((field fields location .null).orElse (.table [])).get "row" .null = _ ↔ _
  generalize field fields location .null = place
  have hnone : (Datum.table []).get "row" .null = .ok .null := rfl
  cases place with
  | table inner =>
    cases inner with
    | nil => simp [Datum.orElse, Datum.isTruthy, hnone, rowIn, field, Datum.lookup]
    | cons entry rest => simp [Datum.orElse, Datum.isTruthy, Datum.get, rowIn, field]
  | _ =>
    rw [rowIn, Datum.orElse]
    · split_ifs <;> simp [Datum.get, Datum.lookup]
    · rintro _ ⟨⟩

/-- An entry that can be used is a table whose locations can be used. With a code and a row, the row
is an integer from zero on, and the row of the end an integer if there is one. Otherwise the message
is a text. -/
def Usable (entry : Datum) : Prop :=
  ∃ fields first last, entry = .table fields ∧
    rowIn (field fields "location" .null) = some first ∧
    rowIn (field fields "end_location" .null) = some last ∧
    if (field fields "code" .null).isTruthy && first.isTruthy then
      (∃ n, first.toInt = .ok n ∧ 0 ≤ n) ∧ (last.isTruthy → ∃ n, last.toInt = .ok n)
    else ∃ s, field fields "message" (.text "") = .text s

def endLine (last : Datum) : Except Fault Datum :=
  if last.isTruthy then .int <$> last.toInt else pure .null

theorem endLine_eq_ok_iff {last lastLine : Datum} :
    endLine last = .ok lastLine ↔
      if last.isTruthy then ∃ m, last.toInt = .ok m ∧ lastLine = .int m else lastLine = .null := by
  rw [endLine]
  cases last.isTruthy with
  | true => cases last.toInt <;> simp [Functor.map, Except.map, eq_comm]
  | false => simp [pure, Except.pure, eq_comm]

theorem exists_endLine_iff {last : Datum} :
    (∃ lastLine, endLine last = .ok lastLine) ↔ (last.isTruthy → ∃ m, last.toInt = .ok m) := by
  simp only [endLine_eq_ok_iff]
  cases last.isTruthy <;> simp

def ruleOf (subject : String) (fields : List (String × Datum)) (first last : Datum) :
    Except Fault Finding := do
  let firstLine ← first.toInt
  let lastLine ← endLine last
  return .rule ⟨(field fields "code" .null).render,
    (field fields "filename" .null).orElse (.text subject), .int firstLine, lastLine,
    field fields "message" (.text "")⟩

/-- What an entry without a code or without a row comes to. -/
def failureOf (subject : String) (fields : List (String × Datum)) (first : Datum) : Finding :=
  .processing ⟨(field fields "filename" .null).orElse (.text subject),
    field fields "message" (.text ""), if first.isTruthy then s!" at line {first.render}" else ""⟩

theorem finding_table (subject : String) (fields : List (String × Datum)) :
    finding subject (.table fields) = do
      let first ← row (.table fields) "location"
      let last ← row (.table fields) "end_location"
      if (field fields "code" .null).isTruthy && first.isTruthy then
        ruleOf subject fields first last
      else return failureOf subject fields first := by
  change (row _ _ >>= fun first => row _ _ >>= fun last => _) = _
  refine bind_congr fun first => bind_congr fun last => ?_
  change (if ((field fields "code" .null).isTruthy && first.isTruthy) = true then _ else _) = _
  by_cases hrule : ((field fields "code" .null).isTruthy && first.isTruthy) = true
  · rw [if_pos hrule, if_pos hrule]
    refine bind_congr fun firstLine => ?_
    rw [endLine]
    cases last.isTruthy <;> rfl
  · rw [if_neg hrule, if_neg hrule]
    rfl

section Entries

variable {subject : String} {fields : List (String × Datum)} {entry first last : Datum}

theorem isShort_field (h : ∀ entry ∈ fields, entry.2.IsShort) (key : String) {default : Datum}
    (hdefault : default.IsShort) : (field fields key default).IsShort := by
  rw [field]
  cases hlookup : Datum.lookup key fields with
  | none => exact hdefault
  | some d => exact Datum.isShort_of_lookup h hlookup

theorem isShort_rowIn {place : Datum} (h : place.IsShort) (hfirst : rowIn place = some first) :
    first.IsShort := by
  cases h with
  | table hfields =>
    cases hfirst
    exact isShort_field hfields "row" .null
  | _ =>
    rw [rowIn] at hfirst
    · split_ifs at hfirst
      cases hfirst
      exact .null
    · nofun

/-- A rule finding endures if its row does not lie below zero. -/
theorem ruleOf_endures_iff (hfirst : first.IsShort) (hlast : last.IsShort) :
    (∃ f, ruleOf subject fields first last = .ok f ∧ f.Endures) ↔
      (∃ n, first.toInt = .ok n ∧ 0 ≤ n) ∧ (last.isTruthy → ∃ n, last.toInt = .ok n) := by
  have hendures : ∀ n lastLine, first.toInt = .ok n → endLine last = .ok lastLine →
      ((Finding.rule ⟨(field fields "code" .null).render,
        (field fields "filename" .null).orElse (.text subject), .int n, lastLine,
        field fields "message" (.text "")⟩).Endures ↔ 0 ≤ n) := by
    intro n lastLine hn hlastLine
    have hshort : (Datum.int n).isWritable = true := Datum.isWritable_int.mpr (hfirst.toInt_lt hn)
    refine Finding.endures_rule_iff rfl ⟨hshort, ?_⟩
    rw [endLine_eq_ok_iff] at hlastLine
    split_ifs at hlastLine
    · obtain ⟨m, hm, rfl⟩ := hlastLine
      exact Datum.isWritable_int.mpr (hlast.toInt_lt hm)
    · rw [hlastLine]
      exact hshort
  constructor
  · rintro ⟨f, hf, hf'⟩
    rw [ruleOf, bind_eq_ok_iff] at hf
    obtain ⟨n, hn, hf⟩ := hf
    rw [bind_eq_ok_iff] at hf
    obtain ⟨lastLine, hlastLine, hf⟩ := hf
    cases hf
    exact ⟨⟨n, hn, (hendures n lastLine hn hlastLine).mp hf'⟩,
      exists_endLine_iff.mp ⟨lastLine, hlastLine⟩⟩
  · rintro ⟨⟨n, hn, hzero⟩, hend⟩
    obtain ⟨lastLine, hlastLine⟩ := exists_endLine_iff.mpr hend
    refine ⟨_, ?_, (hendures n lastLine hn hlastLine).mpr hzero⟩
    rw [ruleOf, hn, hlastLine]
    rfl

theorem finding_endures_iff (hshort : entry.IsShort) :
    (∃ f, finding subject entry = .ok f ∧ f.Endures) ↔ Usable entry := by
  cases hshort with
  | @table fields hfields =>
    have hrow : ∀ {location : String} {first : Datum},
        rowIn (field fields location .null) = some first → first.IsShort :=
      fun hfirst => isShort_rowIn (isShort_field hfields _ .null) hfirst
    rw [finding_table]
    constructor
    · rintro ⟨f, hf, hendures⟩
      rw [bind_eq_ok_iff] at hf
      obtain ⟨first, hfirst, hf⟩ := hf
      rw [bind_eq_ok_iff] at hf
      obtain ⟨last, hlast, hf⟩ := hf
      rw [row_eq_ok_iff] at hfirst hlast
      refine ⟨fields, first, last, rfl, hfirst, hlast, ?_⟩
      split_ifs at hf ⊢
      · exact (ruleOf_endures_iff (hrow hfirst) (hrow hlast)).mp ⟨f, hf, hendures⟩
      · cases hf
        exact Finding.endures_processing_iff.mp hendures
    · rintro ⟨_, first, last, ⟨⟩, hfirst, hlast, h⟩
      rw [row_eq_ok_iff.mpr hfirst, row_eq_ok_iff.mpr hlast]
      change ∃ f, (if ((field fields "code" .null).isTruthy && first.isTruthy) = true then _
        else _) = _ ∧ _
      split_ifs at h ⊢
      · exact (ruleOf_endures_iff (hrow hfirst) (hrow hlast)).mpr h
      · exact ⟨_, rfl, Finding.endures_processing_iff.mpr h⟩
  | _ =>
    constructor
    · rintro ⟨f, hf, -⟩
      cases hf
    · rintro ⟨fields, first, last, hentry, -⟩
      cases hentry

end Entries

/-- An output that can be used: blank, or no JSON but for the length of a numeral, or JSON whose
elements can be used if it is a list. -/
def IsUsable (stdout : String) : Prop :=
  Text.allBlank stdout.toList = true ∨
    (∃ fault, Json.read stdout.toList = .error (.malformed fault)) ∨
    ∃ d, Json.read stdout.toList = .ok d ∧
      ∀ entries, d = .list entries → ∀ entry ∈ entries, Usable entry

theorem unusable_endures (subject what why : String) :
    ∀ f ∈ unusable subject what why, f.Endures := by
  rw [unusable, List.forall_mem_singleton, Finding.endures_processing_iff]
  exact ⟨what, rfl⟩

theorem read_endures_iff {subject stdout : String} :
    (∃ fs, read subject stdout = .ok fs ∧ ∀ f ∈ fs, f.Endures) ↔ IsUsable stdout := by
  rw [read, IsUsable]
  by_cases hblank : Text.allBlank stdout.toList = true
  · simp [hblank]
  · simp only [hblank, if_false, false_or, Bool.false_eq_true]
    cases hjson : Json.read stdout.toList with
    | error refusal =>
      cases refusal with
      | malformed fault => simpa using unusable_endures _ _ _
      | numeral fault => simp
    | ok d =>
      cases d with
      | list entries =>
        have hshort : ∀ entry ∈ entries, entry.IsShort := by
          cases Json.isShort_of_read hjson with
          | list h => exact h
        have hentries : (∀ entry ∈ entries, ∃ f, finding subject entry = .ok f ∧ f.Endures) ↔
            ∀ entry ∈ entries, Usable entry :=
          forall₂_congr fun entry hentry => finding_endures_iff (hshort entry hentry)
        dsimp only
        rw [exists_mapM_forall_iff, hentries]
        simp
      | _ => simpa using unusable_endures _ _ _

end RuffOutput

structure Capture.Endures (c : Capture) : Prop where
  fault : c.fault = none
  keys : ∃ keys, c.collector.keys = .ok keys
  summary : ∃ summary, c.collector.summary = .ok summary

theorem Collector.Takes.endures_iff {e : Emission} {capture : Capture}
    (h : Collector.empty.Takes e.violations capture) :
    capture.Endures ↔ e.failure = none ∧ ∀ f ∈ e.findings, f.Endures := by
  constructor
  · rintro ⟨hfault, ⟨keys, hkeys⟩, -⟩
    cases hviolations : e.violations with
    | error fault =>
      rw [h.error fault hviolations] at hfault
      cases hfault
    | ok vs =>
      obtain ⟨hvs, hfailure⟩ := Emission.violations_eq_ok_iff.mp hviolations
      refine ⟨hfailure, fun f hf => ?_⟩
      obtain ⟨v, hv, hfv⟩ := exists_mem_of_mapM_eq_ok hvs hf
      rw [h.ok vs hviolations] at hkeys
      obtain ⟨key, -, hkey⟩ := exists_mem_of_mapM_eq_ok hkeys hv
      obtain ⟨line, hline, -⟩ := map_eq_ok_iff.mp hkey
      exact Finding.endures_iff.mpr ⟨v, line, hfv, hline⟩
  · rintro ⟨hfailure, hall⟩
    have hviolation : ∀ f ∈ e.findings, ∃ v, f.toViolation = .ok v := fun f hf => by
      obtain ⟨v, -, -, -, hv, -⟩ := hall f hf
      exact ⟨v, hv⟩
    obtain ⟨vs, hvs⟩ := exists_mapM_eq_ok_iff.mpr hviolation
    have hshown : ∀ v ∈ vs, (∃ key, v.key = .ok key) ∧ ∃ shown, v.render = .ok shown := by
      intro v hv
      obtain ⟨f, hf, hfv⟩ := exists_mem_of_forall₂ (mapM_eq_ok_iff.mp hvs) hv
      obtain ⟨v', line, key, shown, hv', -, hkey, hshown⟩ := hall f hf
      rw [hfv] at hv'
      cases hv'
      exact ⟨⟨key, hkey⟩, shown, hshown⟩
    have hcapture := h.ok vs (Emission.violations_eq_ok_iff.mpr ⟨hvs, hfailure⟩)
    obtain ⟨texts, htexts⟩ := exists_mapM_eq_ok_iff.mpr fun v hv => (hshown v hv).2
    rw [hcapture]
    exact ⟨rfl, exists_mapM_eq_ok_iff.mpr fun v hv => (hshown v hv).1,
      _, map_eq_ok_iff.mpr ⟨texts, htexts, rfl⟩⟩

namespace Ruff

theorem abnormalEnd_endures (config : Path) (subject : String) (result : ProcessResult) :
    (abnormalEnd config subject result).Endures := by
  rw [abnormalEnd]
  split
  · exact Finding.endures_iff.mpr ⟨_, 0, rfl, rfl⟩
  · exact Finding.endures_processing_iff.mpr ⟨_, rfl⟩

theorem conclusion_endures_iff (config : Path) (subject : String) (result : ProcessResult) :
    ((conclusion config subject result).failure = none ∧
        ∀ f ∈ (conclusion config subject result).findings, f.Endures) ↔
      2 ≤ result.status ∨ RuffOutput.IsUsable result.stdout := by
  by_cases hstatus : 2 ≤ result.status
  · rw [conclusion_of_abnormal hstatus]
    simp [Emission.one, hstatus, abnormalEnd_endures]
  · rw [conclusion, abnormalStatus, if_neg hstatus, ← RuffOutput.read_endures_iff]
    cases RuffOutput.read subject result.stdout with
    | error fault => simp [Emission.fail, hstatus]
    | ok fs => simp [hstatus]

end Ruff

namespace Runner

theorem exists_judged_iff_endures {check : Check} {c : Capture} :
    (∃ o, judged check c = .ok o) ↔ c.Endures := by
  rw [judged]
  constructor
  · rintro ⟨o, ho⟩
    cases hfault : c.fault with
    | some fault => rw [hfault] at ho; cases ho
    | none =>
      rw [hfault, bind_eq_ok_iff] at ho
      obtain ⟨keys, hkeys, ho⟩ := ho
      obtain ⟨summary, hsummary, -⟩ := bind_eq_ok_iff.mp ho
      exact ⟨hfault, ⟨keys, hkeys⟩, ⟨summary, hsummary⟩⟩
  · rintro ⟨hfault, ⟨keys, hkeys⟩, ⟨summary, hsummary⟩⟩
    rw [hfault, hkeys, hsummary]
    exact ⟨_, rfl⟩

/-- Captured keys can be compared with expected ones: their texts can be counted, and the unexpected
ones among them have an order. -/
def Comparable (captured expected : List Key) : Prop :=
  (∀ k ∈ captured, k.text.isCountable = true) ∧
    ∃ shown, Key.sort (Key.surplus captured expected) = .ok shown

/-- Keys whose texts are texts can always be compared. -/
theorem comparable_of_hasText {captured : List Key} (h : ∀ k ∈ captured, k.hasText = true)
    (expected : List Key) : Comparable captured expected := by
  refine ⟨fun k hk => ?_, _, Key.sort_eq_ok fun k hk => h k (Key.mem_of_mem_surplus h hk)⟩
  obtain ⟨s, hs⟩ := Key.hasText_iff.mp (h k hk)
  rw [hs]
  rfl

/-- The violating protocol comes to an outcome where the capture endures, the expectations can be
read, and the captured keys can be compared with them. -/
theorem exists_compared_iff_comparable {check : Check} {c : Capture}
    {expected : Except Fault (List Expectation)} :
    (∃ o, compared check c expected = .ok o) ↔ c.Endures ∧ ∃ es keys, expected = .ok es ∧
      c.collector.keys = .ok keys ∧ Comparable keys (es.map Expectation.key) := by
  rw [compared]
  constructor
  · rintro ⟨o, ho⟩
    cases hfault : c.fault with
    | some fault => rw [hfault] at ho; cases ho
    | none =>
      rw [hfault, bind_eq_ok_iff] at ho
      obtain ⟨d, hd, ho⟩ := ho
      rw [contrast, bind_eq_ok_iff] at hd
      obtain ⟨es, hes, hd⟩ := hd
      obtain ⟨keys, hkeys, hd⟩ := bind_eq_ok_iff.mp hd
      obtain ⟨hcountable, rfl⟩ := compare_eq_ok_iff.mp hd
      rw [violatingOutcome, bind_eq_ok_iff] at ho
      obtain ⟨summary, hsummary, ho⟩ := ho
      obtain ⟨missing, -, ho⟩ := bind_eq_ok_iff.mp ho
      obtain ⟨unexpected, hunexpected, -⟩ := bind_eq_ok_iff.mp ho
      exact ⟨⟨hfault, ⟨keys, hkeys⟩, ⟨summary, hsummary⟩⟩, es, keys, hes, hkeys, hcountable,
        unexpected, hunexpected⟩
  · rintro ⟨⟨hfault, -, ⟨summary, hsummary⟩⟩, es, keys, rfl, hkeys, hcountable, unexpected,
      hunexpected⟩
    have hmissing : Key.sort (Key.surplus (es.map Expectation.key) keys) = _ :=
      Key.sort_eq_ok fun k hk =>
        hasText_of_mem_expected k (Key.mem_of_mem_surplus hasText_of_mem_expected hk)
    have hcontrast : contrast c.collector (.ok es) = .ok ⟨Key.surplus (es.map Expectation.key) keys,
        Key.surplus keys (es.map Expectation.key)⟩ := by
      rw [contrast, hkeys]
      exact compare_eq_ok_iff.mpr ⟨hcountable, rfl⟩
    rw [hfault, hcontrast]
    change ∃ o, violatingOutcome check c.collector _ = .ok o
    rw [violatingOutcome, hsummary, hmissing, hunexpected]
    exact ⟨_, rfl⟩

variable {runner : Runner} {r : Ruff} {completion : Path → List Path → Completion}
  {t u : FileTree} {check : Check} {sample : String} {result : ProcessResult}

theorem Ready.ruff_granted (h : runner.Ready t check sample (r.engine completion)) :
    (r.engine completion).refusal? (runner.fixture check).config t = none := by
  change (Ruff.opening _).findSome? (SessionStep.refusal? t) = none
  rw [Ruff.opening, List.findSome?_cons, refusal?_of_target h.target]
  rfl

/-- A check of Ruff whose raw output is kept captures what is concluded from the process. -/
theorem Ready.capture_ruff (h : runner.Ready t check sample (r.engine completion))
    (hreturned : completion (runner.fixture check).config
      [(runner.fixture check).sample sample] = .returned result)
    (hkept : (r.kept t (runner.fixture check).config result).2 = none) :
    ∃ capture u es, (runner.capture check sample).Yields t capture u es ∧
      (capture.Endures ↔ 2 ≤ result.status ∨ RuffOutput.IsUsable result.stdout) := by
  have hrun := Ruff.run_recounts_kept [(runner.fixture check).sample sample]
    (Prod.ext (y := (_, none)) rfl hkept)
  rw [← hreturned] at hrun
  obtain ⟨capture, ⟨es, hcapture, -⟩, htakes⟩ := h.capture_held h.ruff_granted hrun
  refine ⟨capture, _, es, hcapture, ?_⟩
  rw [htakes.endures_iff, Ruff.conclusion_endures_iff]

end Runner

/-- The findings in an output endure exactly where the output can be used. If the raw output of a
check is kept, then what is captured endures exactly there or after an abnormal end. So the clean
protocol comes to an outcome in these cases and in no other. The violating one does if, besides, the
expectations can be read and the captured keys can be compared with them. -/
theorem RuffOutput.endures_iff_usable (runner : Runner) (r : Ruff)
    (completion : Path → List Path → Completion) :
    (∀ subject stdout, (∃ fs, read subject stdout = .ok fs ∧ ∀ f ∈ fs, f.Endures) ↔
      IsUsable stdout) ∧
    ∀ t check sample result, runner.Ready t check sample (r.engine completion) →
      completion (runner.fixture check).config [(runner.fixture check).sample sample] =
        .returned result →
      (r.kept t (runner.fixture check).config result).2 = none →
      (((runner.capture check sample).value t).Endures ↔
        2 ≤ result.status ∨ IsUsable result.stdout) ∧
      (sample = Sample.valid → ((∃ o, (runner.verifyClean check).value t = .ok o) ↔
        2 ≤ result.status ∨ IsUsable result.stdout)) ∧
      (sample = Sample.invalid → ((∃ o, (runner.verifyViolating check).value t = .ok o) ↔
        (2 ≤ result.status ∨ IsUsable result.stdout) ∧ ∃ es keys,
          runner.expected ((runner.capture check sample).after t) check = .ok es ∧
          ((runner.capture check sample).value t).collector.keys = .ok keys ∧
          Runner.Comparable keys (es.map Expectation.key))) := by
  refine ⟨fun subject stdout => read_endures_iff, ?_⟩
  intro t check sample result hready hreturned hkept
  obtain ⟨capture, u, es, hcapture, hendures⟩ := hready.capture_ruff hreturned hkept
  refine ⟨by rw [hcapture.value_eq, hendures], ?_, ?_⟩
  · rintro rfl
    obtain ⟨fs, hclean⟩ := Runner.verifyClean_yields hcapture
    rw [hclean.value_eq, Runner.exists_judged_iff_endures, hendures]
  · rintro rfl
    obtain ⟨fs, hviolating⟩ := Runner.verifyViolating_yields hcapture
    rw [hviolating.value_eq, Runner.exists_compared_iff_comparable, hendures, hcapture.value_eq,
      hcapture.after_eq]

def oneRunner : Runner where
  engines := [("ruff", Ruff.engine ⟨"ruff", 300, none, 0⟩ fun _ _ => .returned (.mk 1 "[1]" ""))]
  fixtures := ⟨⟨0, ["checks"]⟩⟩

/-- The number cannot be used, and the clean protocol comes to no outcome. -/
theorem RuffOutput.endures_iff_usable_number :
    ¬∃ o, (oneRunner.verifyClean bareExceptCheck).value
      (Runner.fixtureTree [(bareExceptCheck, [])]) = .ok o := by
  have hready : oneRunner.Ready (Runner.fixtureTree [(bareExceptCheck, [])]) bareExceptCheck
      Sample.valid (Ruff.engine ⟨"ruff", 300, none, 0⟩ fun _ _ => .returned (.mk 1 "[1]" "")) := by
    refine ⟨?_, rfl⟩
    simp only [Runner.needs, List.forall_mem_cons]
    exact ⟨⟨.directory, by decide +kernel, rfl⟩, ⟨.file [], by decide +kernel, rfl⟩,
      ⟨.file [], by decide +kernel, rfl⟩, by simp⟩
  rw [((RuffOutput.endures_iff_usable oneRunner _ _).2 _ _ _ _ hready rfl rfl).2.1 rfl]
  have hlist : Json.read "[1]".toList = .ok (.list [.int 1]) := by decide +kernel
  rintro (hstatus | hblank | ⟨fault, hfault⟩ | ⟨d, hd, hentries⟩)
  · exact absurd hstatus (by decide)
  · exact absurd hblank (by decide +kernel)
  · rw [hlist] at hfault
    cases hfault
  · rw [hlist] at hd
    cases hd
    obtain ⟨fields, -, -, hentry, -⟩ := hentries _ rfl (.int 1) (by simp)
    cases hentry

end LintGate
