import LintGate.Proofs.FindingKey

/-! # Lines read back from locations

The first line of a rule finding is written into the location of its violation, in front of a dash
and the last line, and read back from there. This undoes the writing for every line from zero on,
and fails for every line below zero, whatever else the finding says. So a collector tells of the
findings of a run what they said themselves. An integer without a numeral, for being too long, is no
line of a location, neither the first nor the last one.
-/

namespace LintGate

namespace RuleFinding

variable {f : RuleFinding}

theorem exists_toViolation (h : (Finding.rule f).HasWritableLines) :
    ∃ v, f.toViolation = .ok v ∧ v.location ≠ Violation.unknown ∧
      ∀ n : Int, f.firstLine = .int n → (0 ≤ n → v.line = .ok n) ∧
        (n < 0 → v.line = .error (.numeral (.malformed []))) := by
  obtain ⟨v, hv⟩ := exists_toViolation_iff.mpr h
  obtain ⟨location, hlocation, rfl⟩ := toViolation_eq_ok_iff.mp hv
  refine ⟨_, hv, Violation.ne_unknown_of_range? hlocation, fun n hn => ?_⟩
  rw [hn] at hlocation
  refine ⟨fun hline => ?_, fun hline => Violation.line_of_negative hline hlocation⟩
  obtain ⟨first, rfl⟩ := Int.eq_ofNat_of_zero_le hline
  exact Violation.line_range hlocation

end RuleFinding

theorem ProcessingFailure.exists_toViolation {f : ProcessingFailure} {message : String}
    (h : f.message = .text message) :
    ∃ v, f.toViolation = .ok v ∧ v.line = .ok 0 :=
  ⟨⟨Violation.processingError, f.file, Violation.unknown, .text (message ++ f.detail)⟩,
    by rw [toViolation, h]; rfl, rfl⟩

namespace Collector

def ofFindings (fs : List Finding) : Collector := fs.foldl (fun c f => (c.record f).1) empty

theorem ofFindings_append_singleton (fs : List Finding) (f : Finding) :
    ofFindings (fs ++ [f]) = ((ofFindings fs).record f).1 := by
  simp [ofFindings, List.foldl_append]

/-- Findings that all have violations are all held. -/
theorem holds_ofFindings {fs : List Finding} (h : ∀ f ∈ fs, ∃ v, f.toViolation = .ok v) :
    (ofFindings fs).Holds fs := by
  induction fs using List.reverseRecOn with
  | nil => exact empty_holds
  | append_singleton fs f ih =>
    obtain ⟨v, hv⟩ := h f (by simp)
    have hrecord : (ofFindings fs).record f = (ofFindings (fs ++ [f]), none) := by
      rw [ofFindings_append_singleton, record, hv]
    exact (ih fun g hg => h g (by simp [hg])).record hrecord

end Collector

/-- A rule finding whose lines can be written has a violation with a known place, and a first line
that is an integer is read back from there if it is not below zero; below zero nothing is. Failures
stand at line zero. So the collector of a run without lines below zero has, one by one, the keys
that the findings said themselves, and its summary is their texts. A rule finding with a line that
cannot be written has no violation. -/
theorem Finding.line_undoes_location :
    (∀ (f : RuleFinding) (n : Int), f.firstLine = .int n → (rule f).HasWritableLines →
        ∃ v, f.toViolation = .ok v ∧ v.location ≠ Violation.unknown ∧
          (0 ≤ n → v.line = .ok n) ∧
          (n < 0 → ∃ fault, v.line = .error fault ∧ fault.kind = .value)) ∧
      (∀ f : RuleFinding, ¬ (rule f).HasWritableLines → f.toViolation = .error .unwritable) ∧
      (∀ (f : ProcessingFailure) (message : String), f.message = .text message →
        ∃ v, f.toViolation = .ok v ∧ v.line = .ok 0) ∧
      (∀ f : ConfigFailure, f.toViolation.line = .ok 0) ∧
      ∀ (fs : List Finding) (ks : List Key), List.Forall₂ (fun f k => f.key? = some k) fs ks →
        (∀ f ∈ fs, f.HasWritableLines) → (∀ k ∈ ks, 0 ≤ k.line) →
        (Collector.ofFindings fs).keys = .ok ks ∧
          (Collector.ofFindings fs).summary =
            .ok ("; ".intercalate (ks.map fun k =>
              Text.Numeral.write k.line ++ ":" ++ k.text.render)) := by
  refine ⟨fun f n hn hf => ?_, fun f hf => RuleFinding.toViolation_eq_error_iff.mpr ⟨hf, rfl⟩,
    fun f message hmessage => ProcessingFailure.exists_toViolation hmessage, fun f => rfl,
    fun fs ks hks hlines hzero => ?_⟩
  · obtain ⟨v, hv, hknown, hline⟩ := RuleFinding.exists_toViolation hf
    obtain ⟨hread, hfault⟩ := hline n hn
    exact ⟨v, hv, hknown, hread, fun hnegative => ⟨_, hfault hnegative, rfl⟩⟩
  · have hviolations : ∀ f ∈ fs, ∃ v, f.toViolation = .ok v := by
      intro f hf
      obtain ⟨k, -, hk⟩ := exists_mem_of_forall₂ hks.flip hf
      exact exists_toViolation_of_key? hk (hlines f hf)
    exact (Collector.holds_ofFindings hviolations).keys_eq hks hzero

theorem Finding.line_undoes_location_of_run :
    let fs : List Finding := [
      .rule ⟨"unused-import", .text "Invalid.py", .int 12, .int 14, .text "Unused import os"⟩,
      .processing ⟨.text "Invalid.py", .text "Cannot parse", " at line 3"⟩,
      .config ⟨"Unrecognized option found: foo"⟩]
    (Collector.ofFindings fs).keys = .ok [⟨12, .text "Unused import os"⟩,
        ⟨0, .text "Cannot parse at line 3"⟩, ⟨0, .text "Unrecognized option found: foo"⟩] ∧
      (Collector.ofFindings fs).summary =
        .ok "12:Unused import os; 0:Cannot parse at line 3; 0:Unrecognized option found: foo" := by
  intro fs
  obtain ⟨-, -, -, -, hrun⟩ := line_undoes_location
  refine hrun fs _ (.cons rfl (.cons rfl (.cons rfl .nil))) ?_ (by simp)
  simp only [fs, List.forall_mem_cons, List.not_mem_nil, false_imp_iff, implies_true, and_true]
  exact ⟨⟨by decide +kernel, by decide +kernel⟩, trivial, trivial⟩

/-- An integer without a numeral takes the location away from the line before it, and a truth value,
which is an integer as well, is written as a word that is no numeral. -/
theorem Finding.location_lost :
    (RuleFinding.toViolation ⟨"unused-import", .text "Invalid.py", .int 1,
        .int Text.Numeral.bound, .text "Unused import os"⟩ = .error .unwritable) ∧
      ∃ v, RuleFinding.toViolation ⟨"unused-import", .text "Invalid.py", .bool true, .null,
          .text "Unused import os"⟩ = .ok v ∧ v.location = "True-True" ∧
        v.line = .error (.numeral (.malformed "True".toList)) := by
  refine ⟨RuleFinding.toViolation_eq_error_iff.mpr ⟨?_, rfl⟩, _, rfl, rfl, rfl⟩
  rintro ⟨-, hlast⟩
  exact Datum.not_isWritable_bound hlast

end LintGate
