import LintGate.Datum.Basic
import LintGate.Json.Fault

/-!
# JSON texts and numbers

The two kinds of JSON token that take more than a comparison. Each reader gives what it read and
the text after it; a failure names the problem and how much text was left there.
-/

namespace LintGate.Json

inductive Stop
  | problem (p : Problem) (left : Nat)
  | numeral (fault : Text.Numeral.Fault)
  deriving DecidableEq, Repr

def isSpace (c : Char) : Bool := c == ' ' || c == '\t' || c == '\n' || c == '\r'

def skipSpace (s : List Char) : List Char := s.dropWhile isSpace

def escaped? (c : Char) : Option Char :=
  match c with
  | '"' | '\\' | '/' => some c
  | 'b' => some '\x08'
  | 'f' => some '\x0c'
  | 'n' => some '\n'
  | 'r' => some '\r'
  | 't' => some '\t'
  | _ => none

def isHighSurrogate (n : Nat) : Bool := 0xD800 ≤ n && n ≤ 0xDBFF

def isLowSurrogate (n : Nat) : Bool := 0xDC00 ≤ n && n ≤ 0xDFFF

/-- The character of a code unit; a surrogate that stands alone has none and is replaced. -/
def ofCodeUnit (n : Nat) : Char :=
  if isHighSurrogate n || isLowSurrogate n then '\uFFFD' else Char.ofNat n

/-- The character beyond the basic plane that two surrogates stand for. -/
def ofSurrogates (high low : Nat) : Char :=
  Char.ofNat (0x10000 + 0x400 * (high - 0xD800) + (low - 0xDC00))

/-- Reads what follows `\u`: four digits, and a second escape where the first one is the high
half of a pair. At least one character has to follow the digits. -/
def readUnicode (s : List Char) : Except Stop (Char × List Char) :=
  if s.length ≤ 4 then .error (.problem .unicodeEscape (s.length + 1))
  else
    match Text.hexNumber? (s.take 4) with
    | none => .error (.problem .unicodeEscape (s.length + 1))
    | some unit =>
      let rest := s.drop 4
      if isHighSurrogate unit && 6 < rest.length && rest.take 2 == ['\\', 'u'] then
        match Text.hexNumber? ((rest.drop 2).take 4) with
        | none => .error (.problem .unicodeEscape (rest.length - 1))
        | some low =>
          if isLowSurrogate low then .ok (ofSurrogates unit low, rest.drop 6)
          else .ok (ofCodeUnit unit, rest)
      else .ok (ofCodeUnit unit, rest)

theorem length_of_readUnicode {s rest : List Char} {c : Char}
    (h : readUnicode s = .ok (c, rest)) : rest.length ≤ s.length := by
  unfold readUnicode at h
  split at h
  · simp at h
  split at h
  · simp at h
  dsimp only at h
  split at h
  · split at h
    · simp at h
    split at h <;> simp at h <;> obtain ⟨_, rfl⟩ := h <;> simp
  · simp at h; obtain ⟨_, rfl⟩ := h; simp

/-- Reads what follows the opening mark of a text, at which `opened` characters were left. -/
def readText (opened : Nat) : List Char → Except Stop (List Char × List Char)
  | [] => .error (.problem .unterminatedText opened)
  | '"' :: rest => .ok ([], rest)
  | ['\\'] => .error (.problem .unterminatedText opened)
  | '\\' :: 'u' :: rest =>
    match h : readUnicode rest with
    | .error stop => .error stop
    | .ok (c, after) =>
      have := length_of_readUnicode h
      (readText opened after).map fun (cs, r) => (c :: cs, r)
  | '\\' :: e :: rest =>
    match escaped? e with
    | none => .error (.problem .escape (rest.length + 2))
    | some c => (readText opened rest).map fun (cs, r) => (c :: cs, r)
  | c :: rest =>
    if c < ' ' then .error (.problem .controlCharacter (rest.length + 1))
    else (readText opened rest).map fun (cs, r) => (c :: cs, r)
termination_by s => s.length
decreasing_by all_goals simp only [List.length_cons]; omega

def takeDigits (s : List Char) : List Char × List Char :=
  (s.takeWhile Text.isDigit, s.dropWhile Text.isDigit)

/-- The whole part of a number: a single zero, or digits that do not start with one. -/
def takeWhole : List Char → Option (List Char × List Char)
  | '0' :: rest => some (['0'], rest)
  | s => if (takeDigits s).1.isEmpty then none else some (takeDigits s)

def takeFraction (s : List Char) : List Char × List Char :=
  match s with
  | '.' :: rest => if (takeDigits rest).1.isEmpty then ([], s) else takeDigits rest
  | _ => ([], s)

/-- The power of ten behind `e`; without digits, the `e` is not part of the number. -/
def takeExponent (s : List Char) : Option Int × List Char :=
  match s with
  | e :: rest =>
    if e = 'e' || e = 'E' then
      let (negative, rest) := match rest with
        | '-' :: rest => (true, rest)
        | '+' :: rest => (false, rest)
        | rest => (false, rest)
      let (digits, rest) := takeDigits rest
      if digits.isEmpty then (none, s)
      else
        let n : Int := Text.Numeral.value digits
        (some (if negative then -n else n), rest)
    else (none, s)
  | [] => (none, [])

/-- Reads a number: an integer, unless it has a fraction or a power of ten. `none` when no
number starts here. -/
def readNumber? (s : List Char) : Option (Except Stop Datum × List Char) :=
  let (negative, body) := match s with
    | '-' :: rest => (true, rest)
    | rest => (false, rest)
  match takeWhole body with
  | none => none
  | some (whole, rest) =>
    let (fraction, rest) := takeFraction rest
    let (exponent, rest) := takeExponent rest
    if fraction.isEmpty && exponent.isNone then
      match Text.Numeral.readDigits whole with
      | .error fault => some (.error (.numeral fault), rest)
      | .ok n => some (.ok (.int (if negative then -(n : Int) else n)), rest)
    else
      let digits := Text.Numeral.value (whole ++ fraction)
      let power := exponent.getD 0 - (fraction.length : Int)
      some (.ok (.float (Number.Double.ofDecimal negative digits power)), rest)

end LintGate.Json
