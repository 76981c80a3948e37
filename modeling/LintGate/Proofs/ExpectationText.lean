import LintGate.Proofs.Fallible
import LintGate.Proofs.Lines
import LintGate.Proofs.Lookup
import LintGate.Proofs.Numeral

/-! # Texts of expectations

A text of expectations is read line by line, and the blank lines do not count. What a line is read
as is a matter of that line alone: its place in the text only goes into a fault. So the lines of
a text may be put into any order, and their expectations come in that order.
-/

namespace LintGate

namespace Text

def nonblankLines (text : List Char) : List (List Char) :=
  (splitLines text).filter (! allBlank ·)

theorem mem_of_mem_strip {s : List Char} {c : Char} (h : c ∈ strip s) : c ∈ s := by
  rw [strip, stripEnd, List.mem_reverse] at h
  have hback := (List.dropWhile_sublist isBlank).subset h
  rw [List.mem_reverse] at hback
  exact (List.dropWhile_sublist isBlank).subset hback

theorem isStripped_of_not_blank {s : List Char} (h : ∀ c ∈ s, isBlank c = false) :
    IsStripped s := by
  constructor
  · cases hhead : s.head? with
    | none => rfl
    | some c => simp [h c (List.mem_of_mem_head? hhead)]
  · cases hlast : s.getLast? with
    | none => rfl
    | some c => simp [h c (List.mem_of_getLast? hlast)]

theorem isBlank_of_isDigit {c : Char} (h : isDigit c = true) : isBlank c = false := by
  have bounds := Numeral.toNat_of_isDigit h
  simp only [isBlank, Bool.or_eq_false_iff, Bool.and_eq_false_iff, decide_eq_false_iff_not,
    beq_eq_false_iff_ne]
  omega

end Text

namespace Expectation

theorem cutAtColon?_eq_some {line position rest : List Char}
    (h : cutAtColon? line = some (position, rest)) : line = position ++ ':' :: rest := by
  rw [cutAtColon?] at h
  cases hdrop : line.dropWhile (· != ':') with
  | nil => simp [hdrop] at h
  | cons c behind =>
    simp only [hdrop, Option.some.injEq, Prod.mk.injEq] at h
    obtain ⟨rfl, rfl⟩ := h
    have hcolon : c = ':' := by
      have hhead := List.head?_dropWhile_not (· != ':') line
      rw [hdrop] at hhead
      simpa using hhead
    rw [hcolon] at hdrop
    rw [← hdrop, List.takeWhile_append_dropWhile]

theorem cutAtColon?_append {position : List Char} (h : ':' ∉ position) (rest : List Char) :
    cutAtColon? (position ++ ':' :: rest) = some (position, rest) := by
  rw [cutAtColon?, Text.dropWhile_append_cons h, Text.takeWhile_append_cons h]

/-- A line that is read as an expectation. -/
inductive Reads (line : List Char) : Expectation → Prop
  | intro {digits message : List Char} {n : Nat} (split : split? line = some (digits, message))
      (number : Text.Numeral.readDigits digits = .ok n) : Reads line ⟨n, String.ofList message⟩

theorem parseLine_eq_ok_iff {line : List Char} {number : Int} {source : Option String}
    {e : Expectation} : parseLine line number source = .ok e ↔ Reads line e := by
  rw [parseLine]
  constructor
  · intro h
    cases hsplit : split? line with
    | none => simp [hsplit] at h
    | some parts =>
      obtain ⟨digits, message⟩ := parts
      simp only [hsplit] at h
      cases hread : Text.Numeral.readDigits digits with
      | error fault => simp [hread] at h
      | ok n =>
        rw [hread] at h
        cases h
        exact .intro hsplit hread
  · rintro ⟨hsplit, hread⟩
    simp only [hsplit, hread]

theorem parseLines_eq_ok_iff {source : Option String} {number : Nat} {lines : List (List Char)}
    {es : List Expectation} :
    parseLines source number lines = .ok es ↔
      List.Forall₂ Reads (lines.filter (! Text.allBlank ·)) es := by
  induction lines generalizing number es with
  | nil => cases es <;> simp [parseLines]
  | cons line rest ih =>
    rw [parseLines]
    by_cases hblank : Text.allBlank line = true
    · rw [if_pos hblank, List.filter_cons_of_neg (by simp [hblank]), ih]
    · rw [if_neg hblank, List.filter_cons_of_pos (by simp [hblank]), List.forall₂_cons_left_iff]
      cases hline : parseLine line number source with
      | error fault =>
        have hnone : ∀ e, ¬ Reads line e := by
          intro e he
          rw [parseLine_eq_ok_iff.mpr he] at hline
          cases hline
        simp [hnone]
      | ok e =>
        have hreads : ∀ e', Reads line e' ↔ e = e' := by
          intro e'
          rw [← parseLine_eq_ok_iff, hline, Except.ok.injEq]
        simp only [map_eq_ok_iff, ih, hreads]
        constructor
        · rintro ⟨rest', hrest, rfl⟩
          exact ⟨e, rest', rfl, hrest, rfl⟩
        · rintro ⟨_, rest', rfl, hrest, rfl⟩
          exact ⟨rest', hrest, rfl⟩

theorem Reads.message {line : List Char} {e : Expectation} (h : Reads line e) :
    Text.IsStripped e.message.toList ∧ ∀ c ∈ e.message.toList, c ∈ line := by
  obtain ⟨hsplit, -⟩ := h
  rw [String.toList_ofList]
  rw [split?] at hsplit
  cases hcut : cutAtColon? line with
  | none => simp [hcut] at hsplit
  | some parts =>
    obtain ⟨position, rest⟩ := parts
    simp only [hcut] at hsplit
    split_ifs at hsplit
    simp only [Option.some.injEq, Prod.mk.injEq] at hsplit
    obtain ⟨-, rfl⟩ := hsplit
    refine ⟨Text.isStripped_strip rest, fun c hc => ?_⟩
    rw [cutAtColon?_eq_some hcut]
    simp [Text.mem_of_mem_strip hc]

/-- The text of a key is read back as an expectation with this key, if its line can be written and
its text has no blanks at its ends. -/
theorem reads_render {n : Nat} (hn : n < Text.Numeral.bound) {d : String}
    (hd : Text.IsStripped d.toList) : Reads (Key.render ⟨n, .text d⟩).toList ⟨n, d⟩ := by
  have hdigits : ∀ c ∈ Nat.toDigits 10 n, Text.isDigit c = true :=
    fun c hc => Text.Numeral.isDigit_of_mem_toDigits hc
  have hcolon : ':' ∉ Nat.toDigits 10 n := fun hc => absurd (hdigits ':' hc) (by decide)
  have hstrip : Text.strip (Nat.toDigits 10 n) = Nat.toDigits 10 n :=
    Text.strip_eq_self_iff.mpr
      (Text.isStripped_of_not_blank fun c hc => Text.isBlank_of_isDigit (hdigits c hc))
  have hline : (Key.render ⟨n, .text d⟩).toList = Nat.toDigits 10 n ++ ':' :: d.toList := by
    simp [Key.render]
  have hsplit : split? (Key.render ⟨n, .text d⟩).toList = some (Nat.toDigits 10 n, d.toList) := by
    rw [hline, split?, cutAtColon?_append hcolon]
    simp only [hstrip, Text.strip_eq_self_iff.mpr hd]
    rw [if_pos]
    simpa [Nat.toDigits_ne_nil] using hdigits
  have hreads := Reads.intro hsplit (Text.Numeral.readDigits_toDigits hn)
  rwa [String.ofList_toList] at hreads

theorem parse_eq_ok_iff {text : List Char} {source : Option String} {es : List Expectation} :
    parse text source = .ok es ↔ List.Forall₂ Reads (Text.nonblankLines text) es :=
  parseLines_eq_ok_iff

end Expectation

namespace Fixture

def expectationsText (f : Fixture) (t : FileTree) : Except Fault (List Char) := do
  let path := f.expectationsPath
  t.requireFile path (.noExpectations f.name path)
  match t.read path.toString with
  | .error fault => .error (.file fault)
  | .ok bytes =>
    match Text.Utf8.decode bytes with
    | .error fault => .error (.undecodable fault)
    | .ok text => .ok (Text.unifyNewlines text)

theorem expectations_eq_bind (f : Fixture) (t : FileTree) :
    f.expectations t = f.expectationsText t >>= fun text =>
      Expectation.parse text (some f.expectationsPath.toString) := by
  simp only [expectations, expectationsText, bind_assoc]
  congr 1
  funext _
  cases t.read f.expectationsPath.toString with
  | error fault => rfl
  | ok bytes =>
    simp only
    cases Text.Utf8.decode bytes <;> rfl

end Fixture

end LintGate
