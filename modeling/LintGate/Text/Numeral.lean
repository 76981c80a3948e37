import LintGate.Text.Blank
import LintGate.Text.Digit

/-!
# Numerals

Integers written in decimal digits. Digits of every script are read; blanks may stand around the
numeral, one sign in front of it, and single underscores between its digits. A numeral of more
than `Numeral.limit` digits is refused, whatever its value, and none is written.
-/

namespace LintGate.Text.Numeral

inductive Fault
  | malformed (text : List Char)
  | tooLong (digits : Nat)
  deriving DecidableEq, Repr

def limit : Nat := 4300

/-- The least number whose numeral is too long. -/
def bound : Nat := Nat.pow 10 limit

def value (digits : List Char) : Nat := digits.foldl (fun v c => 10 * v + (c.toNat - 48)) 0

def readDigits (digits : List Char) : Except Fault Nat :=
  if digits.length ≤ limit then .ok (value digits) else .error (.tooLong digits.length)

/-- A digit of another script becomes the digit of `0` to `9` with its value. -/
def plainDigit (c : Char) : Char := ((digitValue? c).map fun d => Char.ofNat (48 + d)).getD c

/-- The blanks that may stand around a numeral: all but the four information separators. -/
def isPadding (c : Char) : Bool := isBlank c && !(0x1C ≤ c.toNat && c.toNat ≤ 0x1F)

/-- Digits with single underscores between them, and none at the ends. -/
def wellGrouped : List Char → Bool
  | [] => false
  | [c] => c != '_'
  | c :: d :: rest => c != '_' && (if d = '_' then wellGrouped rest else wellGrouped (d :: rest))

def readGroups (text body : List Char) : Except Fault Nat :=
  let inNumeral (c : Char) : Bool := isDigit c || c == '_'
  let groups := body.takeWhile inNumeral
  if wellGrouped groups then
    match readDigits (groups.filter isDigit) with
    | .error fault => .error fault
    | .ok n => if (body.dropWhile inNumeral).all isPadding then .ok n else .error (.malformed text)
  else .error (.malformed text)

def read (text : List Char) : Except Fault Int :=
  match (text.dropWhile isPadding).map plainDigit with
  | '-' :: body => (readGroups text body).map fun n => -(n : Int)
  | '+' :: body => (readGroups text body).map Int.ofNat
  | body => (readGroups text body).map Int.ofNat

/-- The decimal numeral of an integer. -/
def write (n : Int) : String :=
  match n with
  | .ofNat m => m.repr
  | .negSucc m => "-" ++ (m + 1).repr

/-- The decimal numeral of an integer, unless it is too long. -/
def write? (n : Int) : Option String :=
  if n.natAbs < bound then some (write n) else none

theorem write?_eq_some_iff {n : Int} {s : String} :
    write? n = some s ↔ n.natAbs < bound ∧ write n = s := by
  by_cases h : n.natAbs < bound
  · rw [write?, if_pos h]
    simp only [Option.some.injEq, h, true_and]
  · rw [write?, if_neg h]
    simp only [h, false_and, reduceCtorEq]

-- The bound is a number of more than four thousand digits, which no proof should compute.
attribute [irreducible] write?

theorem value_append_singleton (digits : List Char) (c : Char) :
    value (digits ++ [c]) = 10 * value digits + (c.toNat - 48) := by
  simp [value, List.foldl_append]

end LintGate.Text.Numeral
