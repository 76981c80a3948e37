/-!
# Positions in a text

A reader that fails knows how much text is left. `Position.ofLeft` turns that into the offset
from the start, the line counted from one and the column counted from one.
-/

namespace LintGate.Text

structure Position where
  offset : Nat
  line : Nat
  column : Nat
  deriving DecidableEq, Repr

/-- The position before the last `left` characters of a text. -/
def Position.ofLeft (text : List Char) (left : Nat) : Position :=
  let before := text.take (text.length - left)
  ⟨before.length, before.count '\n' + 1, (before.reverse.takeWhile (· != '\n')).length + 1⟩

def hexValue? (c : Char) : Option Nat :=
  if '0' ≤ c && c ≤ '9' then some (c.toNat - 48)
  else if 'a' ≤ c && c ≤ 'f' then some (c.toNat - 87)
  else if 'A' ≤ c && c ≤ 'F' then some (c.toNat - 55)
  else none

def hexNumber? (digits : List Char) : Option Nat :=
  digits.foldlM (fun v c => (hexValue? c).map (16 * v + ·)) 0

end LintGate.Text
