import LintGate.Proofs.ExpectationGrammar
import LintGate.Proofs.NewlineConvention
import LintGate.Proofs.WrittenDown

/-! # A normal form of expectations

Whatever is read from a text can be written, one expectation to a line, and is read back from what
was written. Blanks, blank lines, leading zeros and the ways to break a line are gone by then, so
this text is a normal form: texts say the same just in case their normal forms are equal.
-/

namespace LintGate.Expectation

variable {text : List Char} {source : Option String} {es : List Expectation}

theorem Reads.line_lt {line : List Char} {e : Expectation} (h : Reads line e) :
    e.line < Text.Numeral.bound := by
  obtain ⟨hsplit, hnumber⟩ := h
  obtain ⟨rest, ⟨-, -, hdigits, -⟩, -⟩ := split?_eq_some_iff.mp hsplit
  exact Text.Numeral.readDigits_lt hdigits hnumber

theorem isWritable_of_parse (h : parse text source = .ok es) : ∀ e ∈ es, e.IsWritable := by
  intro e he
  have hlines := parse_eq_ok_iff.mp h
  obtain ⟨line, -, hreads⟩ := exists_mem_of_forall₂ hlines he
  exact ⟨hreads.line_lt, isClean_message hlines he⟩

theorem parse_renderAll (h : ∀ e ∈ es, e.IsWritable) (source : Option String) :
    parse (renderAll es).toList source = .ok es := by
  rw [← parse_unifyNewlines]
  exact parse_eq_ok_iff.mpr (reads_renderAll h)

theorem renderAll_inj {es' : List Expectation} (h : ∀ e ∈ es, e.IsWritable)
    (h' : ∀ e ∈ es', e.IsWritable) : renderAll es = renderAll es' ↔ es = es' := by
  constructor
  · intro htexts
    have hback := parse_renderAll h none
    rw [htexts, parse_renderAll h' none, Except.ok.injEq] at hback
    exact hback.symm
  · intro heq
    rw [heq]

/-- The expectations of a text, one to a line, are its normal form. They are read back from it in
their order; each has a line number that can be written, and a message on one line that has no
blanks at its ends; and two texts have the same expectations just in case they have the same normal
form. -/
theorem parse_normal_form {text text' : List Char} {source source' : Option String}
    {es es' : List Expectation} (h : parse text source = .ok es)
    (h' : parse text' source' = .ok es') :
    (∀ reader, parse (renderAll es).toList reader = .ok es) ∧
      (∀ e ∈ es, 0 ≤ e.key.line ∧ e.line < Text.Numeral.bound ∧ e.message.stripped = e.message ∧
        ∀ c ∈ e.message.toList, c ∉ Text.lineBreaks) ∧
      (es = es' ↔ renderAll es = renderAll es') := by
  have hwritable := isWritable_of_parse h
  refine ⟨parse_renderAll hwritable, fun e he => ?_,
    (renderAll_inj hwritable (isWritable_of_parse h')).symm⟩
  obtain ⟨hline, hstrip, hbreaks⟩ := hwritable e he
  exact ⟨Int.natCast_nonneg e.line, hline, hstrip, hbreaks⟩

/-- Two texts that differ in blanks, zeros and line breaks only. -/
theorem parse_normal_form_colons :
    let es : List Expectation := [⟨7, "a:1"⟩, ⟨7, "a:1"⟩, ⟨12, ""⟩]
    parse " 007 : a:1 \r\n\n7:a:1\u202812:".toList none = .ok es ∧
      parse "7:a:1\n7 : a:1\n\n12:\x0b".toList (some "violations.txt") = .ok es ∧
      renderAll es = "7:a:1\n7:a:1\n12:" ∧
      parse "7:a:1\n7:a:1\n12:".toList (some "violations.txt") = .ok es := by
  intro es
  have hfirst : parse " 007 : a:1 \r\n\n7:a:1\u202812:".toList none = .ok es := by decide +kernel
  have hsecond : parse "7:a:1\n7 : a:1\n\n12:\x0b".toList (some "violations.txt") = .ok es := by
    decide +kernel
  have hshown : renderAll es = "7:a:1\n7:a:1\n12:" := by decide +kernel
  obtain ⟨hback, -, -⟩ := parse_normal_form hfirst hsecond
  refine ⟨hfirst, hsecond, hshown, ?_⟩
  rw [← hshown]
  exact hback (some "violations.txt")

end LintGate.Expectation
