import LintGate.Collector
import LintGate.Proofs.Fallible
import LintGate.Proofs.Lines
import LintGate.Proofs.Numeral
import LintGate.Verification.Comparison

/-! # The keys of findings

A finding is turned into a violation, whose location is a text, and the key is read back from that
text. The result is what the finding said itself: its first line and its description, or line zero
and the text of the failure. A collector that refused nothing therefore holds the keys of all that
it heard, in the same order.
-/

namespace LintGate

namespace Finding

/-- The line and the text of a finding, with line zero where it has no line. What says a line that
is no integer has neither, and what cannot be turned into a violation for lack of a text. -/
def key? : Finding → Option Key
  | .rule f =>
    match f.firstLine with
    | .int n => some ⟨n, f.description⟩
    | _ => none
  | .processing f =>
    match f.message with
    | .text message => some ⟨0, .text (message ++ f.detail)⟩
    | _ => none
  | .config f => some ⟨0, .text f.issue⟩
  | .foreign _ => none

def HasNaturalLine : Finding → Prop
  | .rule f => ∃ n : Nat, f.firstLine = .int n
  | _ => True

/-- Rule findings stand at lines from zero on, and their descriptions are texts. Of other findings
nothing is asked. -/
def IsRegular : Finding → Prop
  | .rule f => (∃ n : Nat, f.firstLine = .int n) ∧ ∃ s, f.description = .text s
  | _ => True

theorem key?_rule {f : RuleFinding} {n : Int} (h : f.firstLine = .int n) :
    (rule f).key? = some ⟨n, f.description⟩ := by
  rw [key?, h]

theorem key?_rule_eq_some_iff {f : RuleFinding} {k : Key} :
    (rule f).key? = some k ↔ f.firstLine = .int k.line ∧ k.text = f.description := by
  rw [key?]
  cases hline : f.firstLine with
  | int n =>
    obtain ⟨line, text⟩ := k
    simp [eq_comm]
  | _ => simp

end Finding

namespace Violation

theorem range?_eq_some_iff {first last : Datum} {location : String} :
    range? first last = some location ↔ first.isWritable = true ∧ last.isWritable = true ∧
      location = first.render ++ "-" ++ last.render := by
  simp only [range?, bind, pure, Option.bind_eq_some_iff, Datum.render?_eq_some_iff]
  constructor
  · rintro ⟨_, ⟨hfirst, rfl⟩, _, ⟨hlast, rfl⟩, hlocation⟩
    exact ⟨hfirst, hlast, (Option.some.inj hlocation).symm⟩
  · rintro ⟨hfirst, hlast, rfl⟩
    exact ⟨_, ⟨hfirst, rfl⟩, _, ⟨hlast, rfl⟩, rfl⟩

theorem range?_int {n : Int} {last : Datum} {location : String}
    (h : range? (.int n) last = some location) :
    n.natAbs < Text.Numeral.bound ∧
      ∃ rest, location.toList = (Text.Numeral.write n).toList ++ '-' :: rest := by
  obtain ⟨hfirst, -, rfl⟩ := range?_eq_some_iff.mp h
  refine ⟨Datum.isWritable_int.mp hfirst, last.render.toList, ?_⟩
  simp [Datum.render, Datum.quoted]

/-- A range holds a dash, so it is never the unknown place. -/
theorem ne_unknown_of_range? {first last : Datum} {location : String}
    (h : range? first last = some location) : location ≠ unknown := by
  obtain ⟨-, -, hlocation⟩ := range?_eq_some_iff.mp h
  intro hunknown
  have hmem : '-' ∈ unknown.toList := by rw [← hunknown, hlocation]; simp
  exact absurd hmem (by decide)

theorem line_range {first : Nat} {last : Datum} {v : Violation}
    (h : range? (.int first) last = some v.location) : v.line = .ok (first : Int) := by
  obtain ⟨hfirst, rest, hlocation⟩ := range?_int h
  rw [Text.Numeral.toList_write_natCast] at hlocation
  have hshort : first < Text.Numeral.bound := by rwa [Int.natAbs_natCast] at hfirst
  have htake : (v.location.toList.takeWhile (· != '-')) = Nat.toDigits 10 first := by
    rw [hlocation, Text.takeWhile_append_cons (Text.Numeral.dash_not_mem_toDigits first)]
  rw [line, if_neg (ne_unknown_of_range? h), htake, Text.Numeral.read_toDigits hshort]

/-- A line below zero cannot be read back, since its sign is taken for the dash of the range. -/
theorem line_of_negative {first : Int} (hfirst : first < 0) {last : Datum} {v : Violation}
    (h : range? (.int first) last = some v.location) :
    v.line = .error (.numeral (.malformed [])) := by
  obtain ⟨n, rfl⟩ := Int.eq_negSucc_of_lt_zero hfirst
  obtain ⟨-, rest, hlocation⟩ := range?_int h
  rw [Text.Numeral.toList_write_negSucc, List.cons_append] at hlocation
  have htake : v.location.toList.takeWhile (· != '-') = [] := by
    rw [hlocation]
    rfl
  rw [line, if_neg (ne_unknown_of_range? h), htake]
  rfl

end Violation

namespace Finding

/-- The lines of a finding can be written. -/
def HasWritableLines : Finding → Prop
  | .rule f => f.firstLine.isWritable = true ∧ f.endLine.isWritable = true
  | _ => True

end Finding

theorem RuleFinding.toViolation_eq_ok_iff {f : RuleFinding} {v : Violation} :
    f.toViolation = .ok v ↔ ∃ location, Violation.range? f.firstLine f.endLine = some location ∧
      v = ⟨f.rule, f.file, location, f.description⟩ := by
  rw [toViolation]
  cases Violation.range? f.firstLine f.endLine with
  | none => simp
  | some location => simp [eq_comm]

/-- A rule finding has a violation if its lines can be written. -/
theorem RuleFinding.exists_toViolation_iff {f : RuleFinding} :
    (∃ v, f.toViolation = .ok v) ↔ (Finding.rule f).HasWritableLines := by
  simp only [toViolation_eq_ok_iff, Violation.range?_eq_some_iff, Finding.HasWritableLines]
  constructor
  · rintro ⟨_, _, ⟨hfirst, hlast, -⟩, -⟩
    exact ⟨hfirst, hlast⟩
  · rintro ⟨hfirst, hlast⟩
    exact ⟨_, _, ⟨hfirst, hlast, rfl⟩, rfl⟩

theorem RuleFinding.toViolation_eq_error_iff {f : RuleFinding} {fault : Fault} :
    f.toViolation = .error fault ↔ ¬ (Finding.rule f).HasWritableLines ∧ fault = .unwritable := by
  rw [← exists_toViolation_iff, toViolation]
  cases Violation.range? f.firstLine f.endLine with
  | none => simp [eq_comm]
  | some location => simp

namespace Finding

theorem exists_toViolation_of_key? {f : Finding} {k : Key} (hk : f.key? = some k)
    (hlines : f.HasWritableLines) : ∃ v, f.toViolation = .ok v := by
  cases f with
  | rule f => exact RuleFinding.exists_toViolation_iff.mpr hlines
  | processing f =>
    cases hm : f.message with
    | text message => exact ⟨_, by rw [toViolation, ProcessingFailure.toViolation, hm]; rfl⟩
    | _ => simp [key?, hm] at hk
  | config f => exact ⟨_, rfl⟩
  | foreign typeName => cases hk

theorem exists_toViolation_iff_isSome_key? {f : Finding} (hregular : f.IsRegular)
    (hlines : f.HasWritableLines) : (∃ v, f.toViolation = .ok v) ↔ f.key?.isSome = true := by
  constructor
  · rintro ⟨v, hv⟩
    cases f with
    | rule f =>
      obtain ⟨⟨n, hn⟩, -⟩ := hregular
      rw [key?_rule hn]
      rfl
    | processing f =>
      simp only [toViolation, ProcessingFailure.toViolation, map_eq_ok_iff] at hv
      obtain ⟨description, hdescription, -⟩ := hv
      rw [key?]
      cases hm : f.message with
      | text message => rfl
      | _ =>
        rw [hm] at hdescription
        cases hdescription
    | config f => rfl
    | foreign typeName => cases hv
  · intro hkey
    obtain ⟨k, hk⟩ := Option.isSome_iff_exists.mp hkey
    exact exists_toViolation_of_key? hk hlines

theorem exists_toViolation {f : Finding} (htexts : f.HasTexts) (hlines : f.HasWritableLines) :
    ∃ v, f.toViolation = .ok v := by
  cases f with
  | rule f => exact RuleFinding.exists_toViolation_iff.mpr hlines
  | processing f =>
    obtain ⟨-, message, hmessage⟩ := htexts
    exact exists_toViolation_of_key? (by rw [key?, hmessage]) hlines
  | config f => exact ⟨_, rfl⟩
  | foreign typeName => exact htexts.elim

/-- The key that is read back from a violation is the one that its finding said itself, if its line
is not below zero. -/
theorem key_of_toViolation {f : Finding} {v : Violation} {k : Key} (hv : f.toViolation = .ok v)
    (hk : f.key? = some k) (hline : 0 ≤ k.line) : v.key = .ok k := by
  cases f with
  | rule f =>
    obtain ⟨line, text⟩ := k
    obtain ⟨hfirst, rfl⟩ := key?_rule_eq_some_iff.mp hk
    obtain ⟨first, rfl⟩ := Int.eq_ofNat_of_zero_le hline
    obtain ⟨location, hrange, rfl⟩ := RuleFinding.toViolation_eq_ok_iff.mp hv
    rw [hfirst] at hrange
    rw [Violation.key, Violation.line_range hrange]
    rfl
  | processing f =>
    simp only [toViolation, ProcessingFailure.toViolation, map_eq_ok_iff] at hv
    obtain ⟨description, hdescription, rfl⟩ := hv
    cases hm : f.message with
    | text message =>
      simp only [key?, hm, Option.some.injEq] at hk
      rw [hm] at hdescription
      cases hdescription
      rw [← hk]
      rfl
    | _ => rw [hm] at hdescription; cases hdescription
  | config f =>
    cases hv
    cases hk
    rfl
  | foreign typeName => cases hv

theorem exists_key? {f : Finding} {v : Violation} (hv : f.toViolation = .ok v)
    (hf : f.IsRegular) : ∃ k, f.key? = some k ∧ 0 ≤ k.line ∧ k.hasText = true := by
  cases f with
  | rule f =>
    obtain ⟨⟨n, hn⟩, s, hs⟩ := hf
    exact ⟨⟨n, f.description⟩, key?_rule hn, Int.natCast_nonneg n, by simp [Key.hasText, hs]⟩
  | processing f =>
    simp only [toViolation, ProcessingFailure.toViolation, map_eq_ok_iff] at hv
    obtain ⟨description, hdescription, -⟩ := hv
    cases hm : f.message with
    | text message =>
      exact ⟨⟨0, .text (message ++ f.detail)⟩, by simp [key?, hm], Int.le_refl 0, rfl⟩
    | _ => rw [hm] at hdescription; cases hdescription
  | config f => exact ⟨⟨0, .text f.issue⟩, rfl, Int.le_refl 0, rfl⟩
  | foreign typeName => cases hv

theorem key_toViolation {f : Finding} {v : Violation} (hv : f.toViolation = .ok v)
    (hf : f.IsRegular) :
    ∃ k, f.key? = some k ∧ v.key = .ok k ∧ 0 ≤ k.line ∧ k.hasText = true := by
  obtain ⟨k, hk, hline, htext⟩ := exists_key? hv hf
  exact ⟨k, hk, key_of_toViolation hv hk hline, hline, htext⟩

end Finding

namespace Collector

/-- A collector that heard these findings and refused none of them. -/
def Holds (c : Collector) (fs : List Finding) : Prop :=
  List.Forall₂ (fun f v => f.toViolation = .ok v) fs c.violations ∧ c.invocations = fs.length

theorem empty_holds : empty.Holds [] := ⟨.nil, rfl⟩

theorem Holds.record {c : Collector} {fs : List Finding} (h : c.Holds fs) {f : Finding}
    {c' : Collector} (hc : c.record f = (c', none)) : c'.Holds (fs ++ [f]) := by
  obtain ⟨hviolations, hinvocations⟩ := h
  simp only [Collector.record] at hc
  cases hv : f.toViolation with
  | error fault => rw [hv] at hc; cases hc
  | ok v =>
    rw [hv] at hc
    cases hc
    refine ⟨List.rel_append hviolations (.cons hv .nil), ?_⟩
    simp [hinvocations]

theorem Holds.toViolation {c : Collector} {fs : List Finding} (h : c.Holds fs) {f : Finding}
    (hf : f ∈ fs) : ∃ v, f.toViolation = .ok v := by
  obtain ⟨hviolations, -⟩ := h
  generalize c.violations = vs at hviolations
  induction hviolations with
  | nil => cases hf
  | @cons g v _ _ hv _ ih =>
    rcases List.mem_cons.mp hf with rfl | hf
    · exact ⟨v, hv⟩
    · exact ih hf

/-- The keys of a collector are those that the findings said themselves. Its summary writes them
one after the other. -/
theorem Holds.keys_eq {c : Collector} {fs : List Finding} {ks : List Key} (h : c.Holds fs)
    (hks : List.Forall₂ (fun f k => f.key? = some k) fs ks) (hlines : ∀ k ∈ ks, 0 ≤ k.line) :
    c.keys = .ok ks ∧ c.summary = .ok (delimiter.intercalate (ks.map Key.render)) := by
  obtain ⟨hviolations, -⟩ := h
  have hvs : List.Forall₂ (fun v k => v.key = .ok k) c.violations ks := by
    generalize c.violations = vs at hviolations
    induction hks generalizing vs with
    | nil =>
      cases hviolations
      exact .nil
    | cons hk _ ih =>
      cases hviolations with
      | cons hv hviolations =>
        rw [List.forall_mem_cons] at hlines
        exact .cons (Finding.key_of_toViolation hv hk hlines.1) (ih hlines.2 _ hviolations)
  refine ⟨mapM_eq_ok_iff.mpr hvs, ?_⟩
  have hrender : List.Forall₂ (fun v s => v.render = .ok s) c.violations (ks.map Key.render) := by
    rw [List.forall₂_map_right_iff]
    exact hvs.imp fun v k hk => by rw [Violation.render, hk]; rfl
  rw [summary, mapM_eq_ok_iff.mpr hrender]
  rfl

theorem Holds.keys {c : Collector} {fs : List Finding} (h : c.Holds fs)
    (hfs : ∀ f ∈ fs, f.IsRegular) :
    ∃ ks, fs.mapM Finding.key? = some ks ∧ c.keys = .ok ks ∧
      (∀ k ∈ ks, 0 ≤ k.line ∧ k.hasText = true) ∧
      c.summary = .ok (delimiter.intercalate (ks.map Key.render)) ∧ c.invocations = ks.length := by
  obtain ⟨ks, hks⟩ := exists_forall₂_iff.mpr fun f hf => by
    obtain ⟨v, hv⟩ := h.toViolation hf
    exact Finding.exists_key? hv (hfs f hf)
  have hfindings : List.Forall₂ (fun f k => f.key? = some k) fs ks := hks.imp fun _ _ hk => hk.1
  have hall : ∀ k ∈ ks, 0 ≤ k.line ∧ k.hasText = true := fun k hk => by
    obtain ⟨f, -, hfk⟩ := exists_mem_of_forall₂ hks hk
    exact hfk.2
  obtain ⟨hkeys, hsummary⟩ := h.keys_eq hfindings fun k hk => (hall k hk).1
  exact ⟨ks, mapM_eq_some_iff.mpr hfindings, hkeys, hall, hsummary,
    h.2.trans hfindings.length_eq⟩

end Collector

end LintGate
