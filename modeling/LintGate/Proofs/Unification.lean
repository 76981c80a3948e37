import LintGate.Proofs.LineProjection

/-! # What unification merges

Two findings have the same violation just in case nothing tells them apart that a violation keeps.
Of a rule finding it keeps the rule, the file, the description and both lines, since a range can be
read in one way only, also where minus signs stand beside its dash. Of a failure it keeps what the
failure is about and its text as a whole, so that message and detail may be divided differently, and
a failure of a file called `unknown` may be one of the configuration. No range is the unknown place,
so a rule finding is never merged with a failure.
-/

namespace LintGate

namespace Text.Numeral

/-- The dash behind a numeral is the first one that is not its sign. -/
theorem write_append_dash_inj {m n : Int} {rest rest' : List Char}
    (h : (write m).toList ++ '-' :: rest = (write n).toList ++ '-' :: rest') :
    m = n ∧ rest = rest' := by
  cases m with
  | ofNat m =>
    cases n with
    | ofNat n =>
      obtain ⟨hdigits, hrest⟩ := Text.append_cons_inj (dash_not_mem_toDigits m)
        (dash_not_mem_toDigits n) (by simpa using h)
      exact ⟨congrArg Int.ofNat (toDigits_injective hdigits), hrest⟩
    | negSucc n => exact absurd (by simpa using h) (toDigits_append_ne_dash_cons m _ _)
  | negSucc m =>
    cases n with
    | ofNat n => exact absurd (by simpa using h.symm) (toDigits_append_ne_dash_cons n _ _)
    | negSucc n =>
      obtain ⟨hdigits, hrest⟩ := Text.append_cons_inj (dash_not_mem_toDigits (m + 1))
        (dash_not_mem_toDigits (n + 1)) (by simpa using h)
      have hsucc := toDigits_injective hdigits
      exact ⟨by rw [show m = n by omega], hrest⟩

end Text.Numeral

theorem Violation.range?_inj {first first' last last' : Int} {location : String}
    (h : range? (.int first) (.int last) = some location)
    (h' : range? (.int first') (.int last') = some location) : first = first' ∧ last = last' := by
  obtain ⟨-, -, rfl⟩ := range?_eq_some_iff.mp h
  obtain ⟨-, -, htext⟩ := range?_eq_some_iff.mp h'
  have hlists := congrArg String.toList htext
  simp only [String.toList_append, List.append_assoc] at hlists
  obtain ⟨hfirst, hlast⟩ := Text.Numeral.write_append_dash_inj hlists
  exact ⟨hfirst, Text.Numeral.write_injective (String.toList_injective hlast)⟩

namespace Finding

/-- The finding is a failure that is about a subject and says a text. -/
inductive Reports : Finding → Datum → String → Prop
  | processing (file : Datum) (message detail : String) :
    Reports (.processing ⟨file, .text message, detail⟩) file (message ++ detail)
  | config (issue : String) : Reports (.config ⟨issue⟩) (.text Violation.unknown) issue

/-- Two findings agree on all that a violation keeps. -/
inductive Alike : Finding → Finding → Prop
  | rule {f g : RuleFinding} (rule : f.rule = g.rule) (file : f.file = g.file)
      (description : f.description = g.description) (firstLine : f.firstLine = g.firstLine)
      (endLine : f.endLine = g.endLine) :
    Alike (.rule f) (.rule g)
  | failure {f g : Finding} {subject : Datum} {text : String} (left : f.Reports subject text)
      (right : g.Reports subject text) : Alike f g

variable {f g : Finding} {subject subject' : Datum} {text text' : String}

theorem Reports.toViolation (h : f.Reports subject text) :
    f.toViolation =
      .ok ⟨Violation.processingError, subject, Violation.unknown, .text text⟩ := by
  cases h with
  | processing file message detail => rfl
  | config issue => rfl

theorem rule_or_reports (h : f.HasTexts) :
    (∃ r, f = .rule r) ∨ ∃ subject text, f.Reports subject text := by
  cases f with
  | rule r => exact .inl ⟨r, rfl⟩
  | processing p =>
    obtain ⟨file, message, detail⟩ := p
    obtain ⟨-, text, htext⟩ := h
    cases htext
    exact .inr ⟨file, _, .processing file text detail⟩
  | config c => exact .inr ⟨_, c.issue, .config c.issue⟩
  | foreign typeName => exact h.elim

theorem alike_iff_of_reports (hf : f.Reports subject text) (hg : g.Reports subject' text') :
    f.Alike g ↔ subject = subject' ∧ text = text' := by
  constructor
  · intro h
    cases h with
    | rule => cases hf
    | failure left right =>
      have hleft := hf.toViolation.symm.trans left.toViolation
      have hright := hg.toViolation.symm.trans right.toViolation
      have hboth := hleft.trans hright.symm
      simp only [Except.ok.injEq, Violation.mk.injEq, Datum.text.injEq] at hboth
      exact ⟨hboth.2.1, hboth.2.2.2⟩
  · rintro ⟨rfl, rfl⟩
    exact .failure hf hg

end Finding

namespace RuleFinding

variable {f g : RuleFinding} {v : Violation}

theorem exists_endLine (h : (Finding.rule f).HasIntegerLines) :
    ∃ first last : Int, f.firstLine = .int first ∧ f.endLine = .int last := by
  obtain ⟨⟨first, hfirst⟩, hlast⟩ := h
  rw [endLine]
  rcases hlast with hnull | ⟨last, hlast⟩
  · exact ⟨first, first, hfirst, by rw [if_pos hnull, hfirst]⟩
  · exact ⟨first, last, hfirst, by simp [hlast]⟩

/-- The range of a violation gives both lines of its rule finding away. -/
theorem alike_of_toViolation (hf : f.toViolation = .ok v) (hg : g.toViolation = .ok v)
    (hlines : (Finding.rule f).HasIntegerLines) (hlines' : (Finding.rule g).HasIntegerLines) :
    (Finding.rule f).Alike (.rule g) := by
  obtain ⟨location, hlocation, rfl⟩ := toViolation_eq_ok_iff.mp hf
  obtain ⟨location', hlocation', hv⟩ := toViolation_eq_ok_iff.mp hg
  simp only [Violation.mk.injEq] at hv
  obtain ⟨hrule, hfile, rfl, hdescription⟩ := hv
  obtain ⟨first, last, hfirst, hlast⟩ := exists_endLine hlines
  obtain ⟨first', last', hfirst', hlast'⟩ := exists_endLine hlines'
  rw [hfirst, hlast] at hlocation
  rw [hfirst', hlast'] at hlocation'
  obtain ⟨rfl, rfl⟩ := Violation.range?_inj hlocation hlocation'
  exact .rule hrule hfile hdescription (hfirst.trans hfirst'.symm) (hlast.trans hlast'.symm)

theorem toViolation_of_alike (h : (Finding.rule f).Alike (.rule g)) :
    f.toViolation = g.toViolation := by
  cases h with
  | rule hrule hfile hdescription hfirst hlast =>
    rw [toViolation, toViolation, hfirst, hlast, hrule, hfile, hdescription]
  | failure left right => cases left

theorem toViolation_ne_of_reports {h : Finding} {subject : Datum} {text : String}
    (hh : h.Reports subject text) : f.toViolation ≠ h.toViolation := by
  intro heq
  rw [hh.toViolation] at heq
  obtain ⟨location, hlocation, hv⟩ := toViolation_eq_ok_iff.mp heq
  simp only [Violation.mk.injEq] at hv
  exact Violation.ne_unknown_of_range? hlocation hv.2.2.1.symm

end RuleFinding

namespace Finding

/-- A finding with texts and integer lines that can be written has a violation, and another one has
the same violation just in case the two agree on the rule, the file, the description and both lines,
or on what a failure is about and says. The one that cannot be written has none. A rule finding and
a failure never have the same. -/
theorem toViolation_eq_iff_alike {f g : Finding} (hf : f.HasTexts) (hg : g.HasTexts)
    (hlines : f.HasIntegerLines) (hlines' : g.HasIntegerLines) :
    (f.HasWritableLines →
      (∃ v, f.toViolation = .ok v) ∧ (f.toViolation = g.toViolation ↔ f.Alike g)) ∧
    (¬ f.HasWritableLines → f.toViolation = .error .unwritable) ∧
    ∀ r : RuleFinding, f = .rule r → (∀ r', g ≠ .rule r') → f.toViolation ≠ g.toViolation := by
  refine ⟨fun hwritable => ?_, fun hwritable => ?_, ?_⟩
  · obtain ⟨v, hv⟩ := exists_toViolation hf hwritable
    refine ⟨⟨v, hv⟩, ?_⟩
    rcases rule_or_reports hf with ⟨r, rfl⟩ | ⟨subject, text, hreports⟩
    · rcases rule_or_reports hg with ⟨r', rfl⟩ | ⟨subject', text', hreports'⟩
      · refine ⟨fun heq => ?_, RuleFinding.toViolation_of_alike⟩
        exact RuleFinding.alike_of_toViolation hv (heq.symm.trans hv) hlines hlines'
      · refine iff_of_false (RuleFinding.toViolation_ne_of_reports hreports') ?_
        rintro (_ | ⟨left, -⟩)
        · cases hreports'
        · cases left
    · rcases rule_or_reports hg with ⟨r', rfl⟩ | ⟨subject', text', hreports'⟩
      · refine iff_of_false (RuleFinding.toViolation_ne_of_reports hreports).symm ?_
        rintro (_ | ⟨-, right⟩)
        · cases hreports
        · cases right
      · rw [alike_iff_of_reports hreports hreports', hreports.toViolation, hreports'.toViolation]
        simp
  · cases f with
    | rule r => exact RuleFinding.toViolation_eq_error_iff.mpr ⟨hwritable, rfl⟩
    | processing p => exact absurd trivial hwritable
    | config c => exact absurd trivial hwritable
    | foreign typeName => exact hf.elim
  · rintro r rfl hfailure
    rcases rule_or_reports hg with ⟨r', rfl⟩ | ⟨subject, text, hreports⟩
    · exact absurd rfl (hfailure r')
    · exact RuleFinding.toViolation_ne_of_reports hreports

/-- Lines below zero that are told apart by where the minus signs stand, and a failure of a file
called `unknown` that is merged with one of the configuration. -/
theorem toViolation_eq_iff_alike_negative :
    (Finding.rule ⟨"F401", .text "a.py", .int (-1), .null, .text "unused"⟩).toViolation =
      (Finding.rule ⟨"F401", .text "a.py", .int (-1), .int (-1), .text "unused"⟩).toViolation ∧
    (Finding.rule ⟨"F401", .text "a.py", .int (-1), .int 2, .text "unused"⟩).toViolation ≠
      (Finding.rule ⟨"F401", .text "a.py", .int 1, .int (-2), .text "unused"⟩).toViolation ∧
    (Finding.processing ⟨.text "unknown", .text "no ", "parse"⟩).toViolation =
      (Finding.config ⟨"no parse"⟩).toViolation := by
  have htexts : ∀ first last, (Finding.rule
      ⟨"F401", .text "a.py", first, last, .text "unused"⟩).HasTexts :=
    fun _ _ => ⟨⟨_, rfl⟩, _, rfl⟩
  have hlines : ∀ first last : Int, (Finding.rule
      ⟨"F401", .text "a.py", .int first, .int last, .text "unused"⟩).HasIntegerLines :=
    fun _ _ => ⟨⟨_, rfl⟩, .inr ⟨_, rfl⟩⟩
  refine ⟨?_, ?_, ?_⟩
  · refine (((toViolation_eq_iff_alike (htexts _ .null) (htexts _ _) ⟨⟨-1, rfl⟩, .inl rfl⟩
      (hlines (-1) (-1))).1 ⟨by decide +kernel, by decide +kernel⟩).2).mpr ?_
    exact .rule rfl rfl rfl rfl rfl
  · rw [Ne, ((toViolation_eq_iff_alike (htexts _ _) (htexts _ _) (hlines (-1) 2)
      (hlines 1 (-2))).1 ⟨by decide +kernel, by decide +kernel⟩).2]
    rintro (⟨-, -, -, hfirst, -⟩ | ⟨left, -⟩)
    · cases hfirst
    · cases left
  · have htexts' : (Finding.processing ⟨.text "unknown", .text "no ", "parse"⟩).HasTexts :=
      ⟨⟨_, rfl⟩, _, rfl⟩
    refine (((toViolation_eq_iff_alike htexts' (g := .config ⟨"no parse"⟩) trivial trivial
      trivial).1 trivial).2).mpr ?_
    exact .failure (.processing (.text "unknown") "no " "parse") (.config "no parse")

/-- A finding at an integer without a numeral has no violation at all, not even its own, and lines
that are the same number are told apart where one of them is a truth value. -/
theorem alike_unmerged :
    let finding (line : Datum) : Finding :=
      .rule ⟨"F401", .text "a.py", line, .null, .text "unused"⟩
    (finding (.int Text.Numeral.bound)).HasTexts ∧
      (finding (.int Text.Numeral.bound)).HasIntegerLines ∧
      (finding (.int Text.Numeral.bound)).Alike (finding (.int Text.Numeral.bound)) ∧
      (∀ v, (finding (.int Text.Numeral.bound)).toViolation ≠ .ok v) ∧
      Datum.canonical (.bool true) = .int 1 ∧
      (finding (.bool true)).toViolation ≠ (finding (.int 1)).toViolation := by
  intro finding
  refine ⟨⟨⟨_, rfl⟩, _, rfl⟩, ⟨⟨_, rfl⟩, .inl rfl⟩, .rule rfl rfl rfl rfl rfl, ?_, rfl,
    by decide +kernel⟩
  intro v hv
  have hlines := RuleFinding.exists_toViolation_iff.mp ⟨v, hv⟩
  exact Datum.not_isWritable_bound hlines.1

end Finding

end LintGate
