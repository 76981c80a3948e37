import LintGate.Proofs.ExpectationText
import Mathlib.Data.Nat.Digits.Defs

/-! # The grammar of expectations

A line of expectations is a row of digits between blanks, a colon, and a message. The texts that
are read are those whose lines are all blank or of this form, with a number that is not too long;
what is read of such a text is what its lines say, one after the other. Any other text is refused
with the first line that is neither, under its number in the text.
-/

namespace LintGate

namespace Text

theorem stripStart_append {before : List Char} (h : allBlank before = true) (s : List Char) :
    stripStart (before ++ s) = stripStart s :=
  List.dropWhile_append_of_pos (List.all_eq_true.mp h)

theorem stripEnd_append {behind : List Char} (h : allBlank behind = true) (s : List Char) :
    stripEnd (s ++ behind) = stripEnd s := by
  have hback : ∀ c ∈ behind.reverse, isBlank c = true := by
    simpa [allBlank] using h
  rw [stripEnd, List.reverse_append, List.dropWhile_append_of_pos hback, stripEnd]

theorem strip_between {before s behind : List Char} (hbefore : allBlank before = true)
    (hs : IsStripped s) (hne : s ≠ []) (hbehind : allBlank behind = true) :
    strip (before ++ s ++ behind) = s := by
  have hstart : stripStart (s ++ behind) = s ++ behind := by
    apply stripStart_eq_self
    rw [List.head?_append_of_ne_nil _ hne]
    exact hs.1
  rw [strip, List.append_assoc, stripStart_append hbefore, hstart, stripEnd_append hbehind,
    stripEnd_eq_self hs.2]

theorem exists_eq_strip_between (s : List Char) :
    ∃ before behind, s = before ++ strip s ++ behind ∧ allBlank before = true ∧
      allBlank behind = true := by
  have hback : strip s ++ ((stripStart s).reverse.takeWhile isBlank).reverse = stripStart s :=
    stripEnd_append_blanks (stripStart s)
  refine ⟨s.takeWhile isBlank, ((stripStart s).reverse.takeWhile isBlank).reverse, ?_, ?_, ?_⟩
  · rw [List.append_assoc, hback, stripStart, List.takeWhile_append_dropWhile]
  · exact List.all_takeWhile
  · rw [allBlank, List.all_reverse]
    exact List.all_takeWhile

namespace Numeral

theorem value_eq_ofDigits (digits : List Char) :
    value digits = Nat.ofDigits 10 (digits.reverse.map fun c => c.toNat - '0'.toNat) := by
  induction digits using List.reverseRecOn with
  | nil => rfl
  | append_singleton digits c ih =>
    rw [value_append_singleton, ih, List.reverse_append, List.map_append]
    simp [Nat.ofDigits_cons, Nat.add_comm]

end Numeral

end Text

namespace Expectation

/-- A line of the form of an expectation: blanks, a row of digits `0` to `9`, blanks, a colon, and
whatever stands behind it. -/
inductive HasForm : (line digits rest : List Char) → Prop
  | intro {before digits behind rest : List Char} (before_blank : Text.allBlank before = true)
      (digits_ne_nil : digits ≠ []) (isDigit_digits : ∀ c ∈ digits, Text.isDigit c = true)
      (behind_blank : Text.allBlank behind = true) :
      HasForm (before ++ digits ++ behind ++ ':' :: rest) digits rest

/-- What a line of that form says: the number that its digits write, if they are not too many, and
what stands behind the colon without the blanks at its ends. -/
inductive Means (line : List Char) : Expectation → Prop
  | intro {digits rest : List Char} (form : HasForm line digits rest)
      (short : digits.length ≤ Text.Numeral.limit) :
      Means line ⟨Nat.ofDigits 10 (digits.reverse.map fun c => c.toNat - '0'.toNat),
        String.ofList (Text.strip rest)⟩

inductive Refused (line : List Char) (number : Int) (source : Option String) : Fault → Prop
  | form (other : ∀ digits rest, ¬ HasForm line digits rest) :
      Refused line number source (.malformedExpectation number (String.ofList line) source)
  | length {digits rest : List Char} (form : HasForm line digits rest)
      (long : Text.Numeral.limit < digits.length) :
      Refused line number source (.numeral (.tooLong digits.length))

variable {line digits rest message : List Char} {number : Int} {source : Option String}

/-- A line is split into its digits and its message just in case it has the form. -/
theorem split?_eq_some_iff :
    split? line = some (digits, message) ↔
      ∃ rest, HasForm line digits rest ∧ message = Text.strip rest := by
  constructor
  · intro h
    rw [split?] at h
    cases hcut : cutAtColon? line with
    | none => simp [hcut] at h
    | some parts =>
      obtain ⟨position, rest⟩ := parts
      simp only [hcut] at h
      split_ifs at h with hdigits
      simp only [Option.some.injEq, Prod.mk.injEq] at h
      obtain ⟨rfl, rfl⟩ := h
      simp only [Bool.and_eq_true, Bool.not_eq_true', List.isEmpty_eq_false_iff,
        List.all_eq_true] at hdigits
      obtain ⟨before, behind, hposition, hbefore, hbehind⟩ := Text.exists_eq_strip_between position
      refine ⟨rest, ?_, rfl⟩
      have hform : HasForm (before ++ Text.strip position ++ behind ++ ':' :: rest)
          (Text.strip position) rest := .intro hbefore hdigits.1 hdigits.2 hbehind
      rwa [← hposition, ← cutAtColon?_eq_some hcut] at hform
  · rintro ⟨rest, @⟨before, _, behind, _, hbefore, hne, hdigits, hbehind⟩, rfl⟩
    -- Neither blanks nor digits hold a colon, so the first colon is the one of the form.
    have hblank : ∀ s : List Char, Text.allBlank s = true → ':' ∉ s := fun s hs hmem =>
      absurd (List.all_eq_true.mp hs ':' hmem) (by decide)
    have hcolon : ':' ∉ before ++ digits ++ behind := by
      simp only [List.mem_append, not_or]
      exact ⟨⟨hblank before hbefore, fun hmem => absurd (hdigits ':' hmem) (by decide)⟩,
        hblank behind hbehind⟩
    have hstripped : Text.IsStripped digits :=
      Text.isStripped_of_not_blank fun c hc => Text.isBlank_of_isDigit (hdigits c hc)
    rw [split?, cutAtColon?_append hcolon]
    simp only [Text.strip_between hbefore hstripped hne hbehind]
    rw [if_pos]
    simpa [hne] using hdigits

theorem split?_eq_none_iff : split? line = none ↔ ∀ digits rest, ¬ HasForm line digits rest := by
  rw [Option.eq_none_iff_forall_not_mem]
  simp only [Prod.forall, Option.mem_def, split?_eq_some_iff]
  constructor
  · intro h digits rest hform
    exact h digits _ ⟨rest, hform, rfl⟩
  · rintro h digits _ ⟨rest, hform, rfl⟩
    exact h digits rest hform

/-- A line has its digits from one form only. -/
theorem HasForm.digits_eq {digits' rest rest' : List Char} (h : HasForm line digits rest)
    (h' : HasForm line digits' rest') : digits = digits' := by
  have hsplit := split?_eq_some_iff.mpr ⟨rest, h, rfl⟩
  rw [split?_eq_some_iff.mpr ⟨rest', h', rfl⟩, Option.some.injEq] at hsplit
  exact (congrArg Prod.fst hsplit).symm

theorem reads_iff_means {e : Expectation} : Reads line e ↔ Means line e := by
  constructor
  · rintro ⟨hsplit, hnumber⟩
    obtain ⟨rest, hform, rfl⟩ := split?_eq_some_iff.mp hsplit
    rw [Text.Numeral.readDigits] at hnumber
    split_ifs at hnumber with hshort
    cases hnumber
    rw [Text.Numeral.value_eq_ofDigits]
    exact .intro hform hshort
  · rintro ⟨hform, hshort⟩
    refine .intro (split?_eq_some_iff.mpr ⟨_, hform, rfl⟩) ?_
    rw [Text.Numeral.readDigits, if_pos hshort, Text.Numeral.value_eq_ofDigits]

theorem parseLine_eq_error_iff {fault : Fault} :
    parseLine line number source = .error fault ↔ Refused line number source fault := by
  rw [parseLine]
  cases hsplit : split? line with
  | none =>
    have hother := split?_eq_none_iff.mp hsplit
    simp only [Except.error.injEq]
    constructor
    · rintro rfl
      exact .form hother
    · rintro (_ | ⟨hform, -⟩)
      · rfl
      · exact absurd hform (hother _ _)
  | some parts =>
    obtain ⟨digits, message⟩ := parts
    obtain ⟨rest, hform, -⟩ := split?_eq_some_iff.mp hsplit
    by_cases hshort : digits.length ≤ Text.Numeral.limit
    · simp only [Text.Numeral.readDigits, if_pos hshort, reduceCtorEq, false_iff]
      rintro (hother | ⟨hform', hlong⟩)
      · exact hother _ _ hform
      · rw [hform'.digits_eq hform] at hlong
        omega
    · simp only [Text.Numeral.readDigits, if_neg hshort, Except.error.injEq]
      constructor
      · rintro rfl
        exact .length hform (by omega)
      · rintro (hother | ⟨hform', -⟩)
        · exact absurd hform (hother _ _)
        · rw [hform'.digits_eq hform]

theorem Refused.kind_eq_value_iff {fault : Fault} (h : Refused line number source fault) :
    fault.kind = .value ↔ ∃ digits rest, HasForm line digits rest := by
  cases h with
  | form other => simpa [Fault.kind] using other
  | length form long => simpa [Fault.kind] using ⟨_, _, form⟩

/-- Lines are refused with the first of them that is neither blank nor read. -/
theorem parseLines_eq_error_iff {start : Nat} {lines : List (List Char)} {fault : Fault} :
    parseLines source start lines = .error fault ↔
      ∃ before line behind, lines = before ++ line :: behind ∧
        (∀ l ∈ before, Text.allBlank l = true ∨ ∃ e, Reads l e) ∧
        Text.allBlank line = false ∧ Refused line (start + before.length : Nat) source fault := by
  induction lines generalizing start with
  | nil => simp [parseLines]
  | cons first rest ih =>
    have hrest := @ih (start + 1)
    simp only [Nat.add_assoc, Nat.add_comm 1] at hrest
    rw [exists_first_cons_iff
      (Q := fun line n => Text.allBlank line = false ∧ Refused line (start + n : Nat) source fault),
      ← hrest, parseLines]
    by_cases hblank : Text.allBlank first = true
    · simp [hblank]
    · cases hline : parseLine first start source with
      | error fault' =>
        have hnone : ¬ ∃ e, Reads first e := by
          rintro ⟨e, he⟩
          rw [parseLine_eq_ok_iff.mpr he] at hline
          cases hline
        simp [hblank, hnone, ← parseLine_eq_error_iff, hline]
      | ok e =>
        have hreads : ∃ e, Reads first e := ⟨e, parseLine_eq_ok_iff.mp hline⟩
        simp [hblank, hreads, ← parseLine_eq_error_iff, hline, map_eq_error_iff]

/-- A text is read just in case each of its lines is blank or says something, and then it is read
as what they say. Otherwise the first line that is neither is refused under its number: for its
form, as it is, or with a fault of its value if it has too many digits. -/
theorem parse_iff_grammar (text : List Char) (source : Option String) :
    (∀ es, parse text source = .ok es ↔ List.Forall₂ Means (Text.nonblankLines text) es) ∧
      ((∃ es, parse text source = .ok es) ↔
        ∀ line ∈ Text.splitLines text, Text.allBlank line = true ∨ ∃ e, Means line e) ∧
      ∀ fault, parse text source = .error fault ↔
        ∃ before line behind, Text.splitLines text = before ++ line :: behind ∧
          (∀ l ∈ before, Text.allBlank l = true ∨ ∃ e, Means l e) ∧ Text.allBlank line = false ∧
          Refused line (before.length + 1) source fault ∧
          (fault.kind = .value ↔ ∃ digits rest, HasForm line digits rest) := by
  have hmeans : @Means = @Reads := by
    funext line e
    exact propext reads_iff_means.symm
  rw [hmeans]
  refine ⟨fun es => parse_eq_ok_iff, ?_, fun fault => ?_⟩
  · simp only [parse_eq_ok_iff, exists_forall₂_iff, Text.nonblankLines, List.mem_filter,
      Bool.not_eq_true', and_imp]
    refine forall₂_congr fun line _ => ?_
    cases Text.allBlank line <;> simp
  · have hnumber : ∀ n : Nat, ((1 + n : Nat) : Int) = n + 1 := fun n => by omega
    rw [parse, parseLines_eq_error_iff]
    simp only [hnumber]
    constructor
    · rintro ⟨before, line, behind, hlines, hbefore, hblank, hrefused⟩
      exact ⟨before, line, behind, hlines, hbefore, hblank, hrefused, hrefused.kind_eq_value_iff⟩
    · rintro ⟨before, line, behind, hlines, hbefore, hblank, hrefused, -⟩
      exact ⟨before, line, behind, hlines, hbefore, hblank, hrefused⟩

/-- Blank lines count for the number of a line, and a sign is no digit. -/
example : parse "3: unused\n\n+1: unused".toList (some "violations.txt") =
    .error (.malformedExpectation 3 "+1: unused" (some "violations.txt")) := by decide +kernel

end Expectation

end LintGate
