import LintGate.Text.Numeral

/-!
# Counts

Numbers of things as people type them: digits from `0` to `9`, perhaps with blanks around them, a
plus sign in front and a fraction of zeros behind. A count is written out in full: what is read is
limited like a numeral, but zeros in front and the fraction are free. There is no minus sign.
-/

namespace LintGate.Text.Count

def trim (text : List Char) : List Char :=
  match ((text.dropWhile Numeral.isPadding).reverse.dropWhile Numeral.isPadding).reverse with
  | '+' :: body => body
  | body => body

def isFiller (c : Char) : Bool := c == '0' || c == '_'

/-- Drops the zeros in front, up to the first other digit; in front of a fraction or of nothing,
what stands last is kept. -/
def dropZeros? : List Char → Option (List Char)
  | '0' :: rest =>
    let last := ((rest.takeWhile isFiller).getLast?).getD '0'
    match rest.dropWhile isFiller with
    | [] => some [last]
    | '.' :: fraction => some (last :: '.' :: fraction)
    | c :: more => if isDigit c then some (c :: more) else none
  | c :: rest => if isDigit c then some (c :: rest) else none
  | [] => none

/-- Drops a fraction of zeros, with its point. A point alone is no fraction. -/
def dropFraction (body : List Char) : List Char :=
  match body.dropWhile (· != '.') with
  | _ :: '0' :: fraction => if fraction.all (· == '0') then body.takeWhile (· != '.') else body
  | _ => body

def isGrouped (body : List Char) : Bool :=
  Numeral.wellGrouped body && body.all fun c => isDigit c || c == '_'

def read? (text : List Char) : Option Nat := do
  let body := dropFraction (← dropZeros? (trim text))
  if isGrouped body then (Numeral.readDigits (body.filter isDigit)).toOption else none

end LintGate.Text.Count
