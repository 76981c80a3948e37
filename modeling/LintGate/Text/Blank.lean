/-!
# Blank characters

Which characters count as blank, and the text that is left when the blanks at its two ends are
dropped. `isStripped_strip` says that the result neither starts nor ends with a blank, and
`strip_eq_self_iff` that such texts are the ones that stripping leaves alone.
-/

namespace LintGate.Text

/-- A blank is a character of bidirectional type white space, block or segment separator, or a
space separator. -/
def isBlank (c : Char) : Bool :=
  let n := c.toNat
  (0x09 ≤ n && n ≤ 0x0D) || (0x1C ≤ n && n ≤ 0x20) || n == 0x85 || n == 0xA0 || n == 0x1680 ||
    (0x2000 ≤ n && n ≤ 0x200A) || n == 0x2028 || n == 0x2029 || n == 0x202F || n == 0x205F ||
    n == 0x3000

def stripStart (s : List Char) : List Char := s.dropWhile isBlank

def stripEnd (s : List Char) : List Char := (s.reverse.dropWhile isBlank).reverse

def strip (s : List Char) : List Char := stripEnd (stripStart s)

def allBlank (s : List Char) : Bool := s.all isBlank

def IsStripped (s : List Char) : Prop :=
  s.head?.all (! isBlank ·) = true ∧ s.getLast?.all (! isBlank ·) = true

instance (s : List Char) : Decidable (IsStripped s) := inferInstanceAs (Decidable (_ ∧ _))

theorem stripStart_eq_self {s : List Char} (h : s.head?.all (! isBlank ·) = true) :
    stripStart s = s := by
  cases s with
  | nil => rfl
  | cons c s => simp_all [stripStart]

theorem head?_stripStart (s : List Char) : (stripStart s).head?.all (! isBlank ·) = true := by
  induction s with
  | nil => rfl
  | cons c s ih =>
    by_cases h : isBlank c = true
    · simpa [stripStart, h] using ih
    · simp_all [stripStart]

theorem stripEnd_eq_self {s : List Char} (h : s.getLast?.all (! isBlank ·) = true) :
    stripEnd s = s := by
  have back : s.reverse.head?.all (! isBlank ·) = true := by simpa [List.head?_reverse] using h
  simpa [stripEnd, stripStart] using congrArg List.reverse (stripStart_eq_self back)

theorem getLast?_stripEnd (s : List Char) : (stripEnd s).getLast?.all (! isBlank ·) = true := by
  simpa [stripEnd, stripStart, List.getLast?_reverse] using head?_stripStart s.reverse

theorem stripEnd_append_blanks (s : List Char) :
    stripEnd s ++ (s.reverse.takeWhile isBlank).reverse = s := by
  rw [stripEnd, ← List.reverse_append, List.takeWhile_append_dropWhile, List.reverse_reverse]

/-- Dropping blanks at the end keeps the first character, unless nothing is left. -/
theorem head?_stripEnd {s : List Char} (h : s.head?.all (! isBlank ·) = true) :
    (stripEnd s).head?.all (! isBlank ·) = true := by
  have whole := stripEnd_append_blanks s
  cases front : stripEnd s with
  | nil => rfl
  | cons c t => rw [front] at whole; rw [← whole] at h; simpa using h

theorem isStripped_strip (s : List Char) : IsStripped (strip s) :=
  ⟨head?_stripEnd (head?_stripStart s), getLast?_stripEnd _⟩

theorem strip_eq_self_iff {s : List Char} : strip s = s ↔ IsStripped s := by
  constructor
  · intro h; rw [← h]; exact isStripped_strip s
  · intro h; rw [strip, stripStart_eq_self h.1, stripEnd_eq_self h.2]

end LintGate.Text

namespace String

def stripped (s : String) : String := ofList (LintGate.Text.strip s.toList)

end String
