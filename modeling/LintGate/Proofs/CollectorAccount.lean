import LintGate.Proofs.FindingKey
import LintGate.Verification.Protocol

/-! # A collector's account of its calls

A collector is called, with findings that it takes and others that it refuses, and in between it is
asked for what it holds. It counts every call, and it holds the violations of the findings that it
took, in the order of the calls. What it says of them at some time is the beginning of all that it
says of them later. The two parts of its state therefore differ by the calls that it refused, and
the clean protocol, which looks at both, passes only a collector that was never called.
-/

namespace LintGate

namespace Finding

def violation? (f : Finding) : Option Violation := f.toViolation.toOption

variable {f : Finding}

theorem violation?_eq_some_iff {v : Violation} : f.violation? = some v ↔ f.toViolation = .ok v := by
  rw [violation?]
  cases f.toViolation <;> simp [Except.toOption]

theorem violation?_eq_none_iff :
    f.violation? = none ↔ ∃ fault, f.toViolation = .error fault := by
  rw [violation?]
  cases f.toViolation <;> simp [Except.toOption]

end Finding

namespace Collector

/-- What is done with a collector: it is called with a finding, or asked. -/
inductive Use
  | call (f : Finding)
  | violations
  | invocations
  | keys
  | summary

inductive Answer
  | taken
  | refused (fault : Fault)
  | violations (vs : List Violation)
  | invocations (n : Nat)
  | keys (ks : Except Fault (List Key))
  | summary (text : Except Fault String)

def use (c : Collector) : Use → Collector × Answer
  | .call f =>
    match c.record f with
    | (c, none) => (c, .taken)
    | (c, some fault) => (c, .refused fault)
  | .violations => (c, .violations c.violations)
  | .invocations => (c, .invocations c.invocations)
  | .keys => (c, .keys c.keys)
  | .summary => (c, .summary c.summary)

def useAll (c : Collector) (uses : List Use) : Collector := uses.foldl (fun c u => (c.use u).1) c

def calls (uses : List Use) : List Finding :=
  uses.filterMap fun
    | .call f => some f
    | _ => none

def taken (fs : List Finding) : List Violation := fs.filterMap Finding.violation?

/-- The findings without a violation. -/
def refused (fs : List Finding) : List Finding := fs.filter (·.violation?.isNone)

/-- What a use is answered that comes after calls with these findings. -/
inductive Answers (fs : List Finding) : Use → Answer → Prop
  | taken {f : Finding} {v : Violation} (converts : f.toViolation = .ok v) :
    Answers fs (.call f) .taken
  | refused {f : Finding} {fault : Fault} (fails : f.toViolation = .error fault) :
    Answers fs (.call f) (.refused fault)
  | violations : Answers fs .violations (.violations (Collector.taken fs))
  | invocations : Answers fs .invocations (.invocations fs.length)
  | keys {ks : List Key}
      (each : List.Forall₂ (fun v k => v.key = .ok k) (Collector.taken fs) ks) :
    Answers fs .keys (.keys (.ok ks))
  | summary {ks : List Key}
      (each : List.Forall₂ (fun v k => v.key = .ok k) (Collector.taken fs) ks) :
    Answers fs .summary (.summary (.ok ("; ".intercalate (ks.map Key.render))))

/-- The collector accounts for calls with these findings. -/
structure Accounts (c : Collector) (fs : List Finding) : Prop where
  violations : c.violations = taken fs
  invocations : c.invocations = fs.length

variable {c : Collector} {fs : List Finding} {uses : List Use}

@[simp] theorem calls_append (past more : List Use) :
    calls (past ++ more) = calls past ++ calls more := List.filterMap_append

@[simp] theorem taken_append (fs gs : List Finding) : taken (fs ++ gs) = taken fs ++ taken gs :=
  List.filterMap_append

theorem empty_accounts : empty.Accounts [] := ⟨rfl, rfl⟩

theorem Accounts.record (h : c.Accounts fs) (f : Finding) :
    (c.record f).1.Accounts (fs ++ [f]) := by
  obtain ⟨hviolations, hinvocations⟩ := h
  rw [Collector.record]
  cases hf : f.toViolation with
  | ok v =>
    have hsome := Finding.violation?_eq_some_iff.mpr hf
    exact ⟨by simp [taken, hviolations, hsome], by simp [hinvocations]⟩
  | error fault =>
    have hnone := Finding.violation?_eq_none_iff.mpr ⟨fault, hf⟩
    exact ⟨by simp [taken, hviolations, hnone], by simp [hinvocations]⟩

/-- A use keeps the account: a question changes nothing. -/
theorem Accounts.use (h : c.Accounts fs) (u : Use) : (c.use u).1.Accounts (fs ++ calls [u]) := by
  cases u with
  | call f =>
    have hrecord := h.record f
    rw [Collector.use]
    rcases hc : c.record f with ⟨c', _ | fault⟩ <;> rwa [hc] at hrecord
  | violations | invocations | keys | summary => simpa [calls, Collector.use] using h

theorem Accounts.useAll (h : c.Accounts fs) (uses : List Use) :
    (c.useAll uses).Accounts (fs ++ calls uses) := by
  induction uses using List.reverseRecOn with
  | nil => simpa [Collector.useAll, calls] using h
  | append_singleton uses u ih =>
    rw [Collector.useAll, List.foldl_append, calls_append, ← List.append_assoc]
    exact ih.use u

theorem accounts_useAll (uses : List Use) : (empty.useAll uses).Accounts (calls uses) :=
  empty_accounts.useAll uses

theorem length_taken_add_refused (fs : List Finding) :
    (taken fs).length + (refused fs).length = fs.length := by
  induction fs with
  | nil => rfl
  | cons f rest ih =>
    rw [taken, refused] at ih ⊢
    cases hf : f.violation? with
    | some v =>
      rw [List.filterMap_cons_some hf, List.filter_cons_of_neg (by simp [hf])]
      simp only [List.length_cons, ← ih]
      omega
    | none =>
      rw [List.filterMap_cons_none hf, List.filter_cons_of_pos (by simp [hf])]
      simp only [List.length_cons, ← ih]
      omega

theorem exists_keys (hlines : ∀ r, Finding.rule r ∈ fs → ∃ n : Nat, r.firstLine = .int n) :
    ∃ ks, List.Forall₂ (fun v k => v.key = .ok k) (taken fs) ks := by
  refine exists_forall₂_iff.mpr fun v hv => ?_
  obtain ⟨f, hf, hv⟩ := List.mem_filterMap.mp hv
  have hviolation := Finding.violation?_eq_some_iff.mp hv
  cases f with
  | rule r =>
    obtain ⟨n, hn⟩ := hlines r hf
    exact ⟨_, Finding.key_of_toViolation hviolation (Finding.key?_rule hn) (Int.natCast_nonneg n)⟩
  | processing p =>
    obtain ⟨description, -, rfl⟩ := map_eq_ok_iff.mp hviolation
    exact ⟨_, rfl⟩
  | config issue =>
    cases hviolation
    exact ⟨_, rfl⟩
  | foreign typeName => cases hviolation

section Projections

variable {ks : List Key} (h : c.Accounts fs)
  (hks : List.Forall₂ (fun v k => v.key = .ok k) (taken fs) ks)

include h hks

theorem Accounts.keys_eq : c.keys = .ok ks := by
  rw [keys, h.violations]
  exact mapM_eq_ok_iff.mpr hks

theorem Accounts.summary_eq : c.summary = .ok ("; ".intercalate (ks.map Key.render)) := by
  have hrender : List.Forall₂ (fun v s => v.render = .ok s) (taken fs) (ks.map Key.render) := by
    rw [List.forall₂_map_right_iff]
    exact hks.imp fun v k hk => by rw [Violation.render, hk]; rfl
  rw [summary, h.violations, mapM_eq_ok_iff.mpr hrender]
  rfl

theorem Accounts.answers (u : Use) : Answers fs u (c.use u).2 := by
  cases u with
  | call f =>
    rw [Collector.use, Collector.record]
    cases hf : f.toViolation with
    | ok v => exact .taken hf
    | error fault => exact .refused hf
  | violations =>
    rw [Collector.use, h.violations]
    exact .violations
  | invocations =>
    rw [Collector.use, h.invocations]
    exact .invocations
  | keys =>
    rw [Collector.use, h.keys_eq hks]
    exact .keys hks
  | summary =>
    rw [Collector.use, h.summary_eq hks]
    exact .summary hks

end Projections

theorem intercalate_render_eq_empty_iff {ks : List Key} :
    "; ".intercalate (ks.map Key.render) = "" ↔ ks = [] := by
  constructor
  · intro hempty
    cases ks with
    | nil => rfl
    | cons k rest =>
      have hcolon : ':' ∈ ("; ".intercalate ((k :: rest).map Key.render)).toList := by
        cases rest with
        | nil => simp [Key.render]
        | cons l rest => simp [Key.render, String.intercalate_cons_cons]
      rw [hempty] at hcolon
      cases hcolon
  · rintro rfl
    rfl

/-- After whatever a fresh collector was used for, with lines from zero on, it has counted all calls
and holds the violations of those findings that have one, in order; so it answers each use that
comes next. What it held before is the beginning of what it holds. The count is ahead of the
violations by the calls that were refused, the summary is empty just in case nothing was taken, and
the tests of the clean protocol are passed just in case there was no call. -/
theorem accounts_for_calls (uses : List Use)
    (hlines : ∀ r, Use.call (.rule r) ∈ uses → ∃ n : Nat, r.firstLine = .int n) :
    let c := empty.useAll uses
    let fs := calls uses
    (c.invocations = fs.length ∧ c.violations = taken fs) ∧
    (∀ u, Answers fs u (c.use u).2) ∧
    (∀ past, past <+: uses → (empty.useAll past).violations <+: c.violations) ∧
    c.invocations - c.violations.length = (refused fs).length ∧
    (c.summary = .ok "" ↔ taken fs = []) ∧
    ∀ check keys summary, c.keys = .ok keys → c.summary = .ok summary →
      ((Runner.cleanOutcome check c keys summary).passed = true ↔ fs = []) := by
  intro c fs
  have haccounts : c.Accounts fs := accounts_useAll uses
  -- The findings of the account are those of the calls, so that their lines are from zero on.
  have hrules : ∀ r, Finding.rule r ∈ fs → ∃ n : Nat, r.firstLine = .int n := by
    intro r hr
    obtain ⟨u, hu, hcall⟩ := List.mem_filterMap.mp hr
    cases u with
    | call f =>
      cases hcall
      exact hlines r hu
    | _ => cases hcall
  obtain ⟨ks, hks⟩ := exists_keys hrules
  have hsummary := haccounts.summary_eq hks
  refine ⟨⟨haccounts.invocations, haccounts.violations⟩, haccounts.answers hks, ?_, ?_, ?_, ?_⟩
  · rintro past ⟨more, rfl⟩
    simp only [haccounts.violations, (accounts_useAll past).violations, fs, calls_append,
      taken_append]
    exact List.prefix_append _ _
  · rw [haccounts.violations, haccounts.invocations, ← length_taken_add_refused]
    omega
  · rw [hsummary, Except.ok.injEq, intercalate_render_eq_empty_iff]
    exact ⟨fun hnil => List.forall₂_nil_right_iff.mp (hnil ▸ hks),
      fun hnil => List.forall₂_nil_left_iff.mp (hnil ▸ hks)⟩
  · intro check keys summary hkeys htext
    rw [hsummary] at htext
    cases htext
    simp only [Runner.cleanOutcome, Bool.and_eq_true, beq_iff_eq, haccounts.violations,
      haccounts.invocations]
    constructor
    · rintro ⟨-, hcount⟩
      exact List.length_eq_zero_iff.mp hcount
    · intro hnone
      rw [hnone] at hks ⊢
      rw [List.forall₂_nil_left_iff.mp hks]
      exact ⟨⟨rfl, rfl⟩, rfl⟩

/-- A finding is taken, and a failure without a text and something foreign are refused, with a
question in between. -/
theorem accounts_for_calls_refused :
    let uses : List Use := [
      .call (.rule ⟨"unused-import", .text "Invalid.py", .int 12, .null, .text "Unused import os"⟩),
      .violations,
      .call (.processing ⟨.text "Invalid.py", .null, ""⟩),
      .call (.foreign "str")]
    let c := empty.useAll uses
    c.invocations = 3 ∧ c.violations.length = 1 ∧ c.summary ≠ .ok "" ∧
      ∀ past, past <+: uses → (empty.useAll past).violations <+: c.violations := by
  intro uses c
  have hshort : (Datum.int 12).isWritable = true := by decide +kernel
  obtain ⟨v, hv⟩ := Finding.exists_toViolation (f := .rule
    ⟨"unused-import", .text "Invalid.py", .int 12, .null, .text "Unused import os"⟩)
    ⟨⟨_, rfl⟩, _, rfl⟩ ⟨hshort, hshort⟩
  have htaken : taken (calls uses) = [v] := by
    simp only [uses, calls, taken, List.filterMap_cons, List.filterMap_nil,
      Finding.violation?_eq_some_iff.mpr hv]
    rfl
  obtain ⟨⟨hcount, hviolations⟩, -, hviews, -, hsummary, -⟩ :=
    accounts_for_calls uses (by simpa [uses] using ⟨12, rfl⟩)
  refine ⟨hcount, ?_, ?_, hviews⟩
  · rw [hviolations, htaken]
    rfl
  · rw [Ne, hsummary, htaken]
    simp

end Collector

end LintGate
