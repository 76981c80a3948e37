import LintGate.Datum.Basic
import LintGate.Toml.Fault

/-!
# TOML keys, texts, numbers and times

The parts of a TOML document that hold no other values. Each reader gives what it read and the
text after it; a failure names the problem and how much text was left there.
-/

namespace LintGate.Toml

inductive Stop
  | problem (p : Problem) (left : Nat)
  | numeral (fault : Text.Numeral.Fault)
  deriving DecidableEq, Repr

def isSpace (c : Char) : Bool := c == ' ' || c == '\t'

def isSpaceOrNewline (c : Char) : Bool := isSpace c || c == '\n'

def skipSpace (s : List Char) : List Char := s.dropWhile isSpace

def skipSpaceAndNewlines (s : List Char) : List Char := s.dropWhile isSpaceOrNewline

theorem length_dropWhile_le (p : Char → Bool) (s : List Char) :
    (s.dropWhile p).length ≤ s.length :=
  (List.dropWhile_sublist p).length_le

def isControl (c : Char) : Bool := (c < ' ' && c != '\t') || c == '\x7f'

def isControlInLines (c : Char) : Bool := isControl c && c != '\n'

def skipComment (s : List Char) : Except Stop (List Char) :=
  match s with
  | '#' :: rest =>
    let body := rest.takeWhile (· != '\n')
    match body.dropWhile (! isControl ·) with
    | [] => .ok (rest.dropWhile (· != '\n'))
    | c :: after =>
      .error (.problem (.invalidCharacter c)
        (after.length + 1 + (rest.dropWhile (· != '\n')).length))
  | s => .ok s

/-- The text before the first occurrence of a mark, and the text after it. -/
def cutAt? (mark : List Char) : List Char → Option (List Char × List Char)
  | [] => if mark.isEmpty then some ([], []) else none
  | c :: rest =>
    if mark.isPrefixOf (c :: rest) then some ([], (c :: rest).drop mark.length)
    else (cutAt? mark rest).map fun (before, after) => (c :: before, after)

def readLiteral (mark : List Char) (illegal : Char → Bool) (s : List Char) :
    Except Stop (String × List Char) :=
  match cutAt? mark s with
  | none => .error (.problem (.closingMark (String.ofList mark)) 0)
  | some (body, after) =>
    match body.dropWhile (! illegal ·) with
    | [] => .ok (String.ofList body, after)
    | c :: more =>
      .error (.problem (.invalidCharacter c) (more.length + 1 + mark.length + after.length))

def escaped? (c : Char) : Option Char :=
  match c with
  | 'b' => some '\x08'
  | 't' => some '\t'
  | 'n' => some '\n'
  | 'f' => some '\x0c'
  | 'r' => some '\r'
  | '"' => some '"'
  | '\\' => some '\\'
  | _ => none

def readScalar (width : Nat) (s : List Char) : Except Stop (Char × List Char) :=
  let digits := s.take width
  match if digits.length = width then Text.hexNumber? digits else none with
  | none => .error (.problem .hexDigits s.length)
  | some n =>
    if n ≤ 0xD7FF || (0xE000 ≤ n && n ≤ 0x10FFFF) then .ok (Char.ofNat n, s.drop width)
    else .error (.problem .notScalar (s.drop width).length)

/-- Skips what follows a backslash at the end of a line: the rest of the line, which must be
blank, and all space and newlines after it. -/
def skipLineEnd (s : List Char) : Except Stop (List Char) :=
  match skipSpace s with
  | [] => .ok []
  | '\n' :: rest => .ok (skipSpaceAndNewlines rest)
  | other => .error (.problem .backslash other.length)

theorem length_of_readScalar {width : Nat} {s rest : List Char} {c : Char}
    (h : readScalar width s = .ok (c, rest)) : rest.length ≤ s.length := by
  unfold readScalar at h
  dsimp only at h
  split at h
  · simp at h
  split at h <;> simp at h
  obtain ⟨_, rfl⟩ := h
  simp

theorem length_of_skipLineEnd {s rest : List Char} (h : skipLineEnd s = .ok rest) :
    rest.length ≤ s.length := by
  unfold skipLineEnd at h
  split at h
  · cases h
    exact Nat.zero_le _
  · next after line =>
    cases h
    have first := length_dropWhile_le isSpace s
    have second := length_dropWhile_le isSpaceOrNewline after
    rw [skipSpace] at line
    rw [line, List.length_cons] at first
    exact Nat.le_trans second (Nat.le_of_succ_le first)
  · cases h

/-- Reads a text with escapes up to its closing mark: one double mark, or three of them in a text
of several lines. -/
def readEscaped (lines : Bool) : List Char → Except Stop (List Char × List Char)
  | [] => .error (.problem .unterminatedText 0)
  | '"' :: rest =>
    if !lines then .ok ([], rest)
    else if ['"', '"'].isPrefixOf rest then .ok ([], rest.drop 2)
    else (readEscaped lines rest).map fun (cs, r) => ('"' :: cs, r)
  | ['\\'] => .error (.problem .backslash 0)
  | '\\' :: e :: rest =>
    if lines && isSpaceOrNewline e then
      match h : skipLineEnd (e :: rest) with
      | .error stop => .error stop
      | .ok after =>
        have := length_of_skipLineEnd h
        readEscaped lines after
    else if e = 'u' || e = 'U' then
      match h : readScalar (if e = 'u' then 4 else 8) rest with
      | .error stop => .error stop
      | .ok (c, after) =>
        have := length_of_readScalar h
        (readEscaped lines after).map fun (cs, r) => (c :: cs, r)
    else
      match escaped? e with
      | none => .error (.problem .backslash rest.length)
      | some c => (readEscaped lines rest).map fun (cs, r) => (c :: cs, r)
  | c :: rest =>
    if if lines then isControlInLines c else isControl c then
      .error (.problem (.illegalCharacter c) (rest.length + 1))
    else (readEscaped lines rest).map fun (cs, r) => (c :: cs, r)
termination_by s => s.length
decreasing_by all_goals simp only [List.length_cons] at *; omega

/-- Up to two marks that follow a closing mark of three still belong to the text. -/
def takeExtraMarks (mark : Char) (body : String) (rest : List Char) : String × List Char :=
  let extra := (rest.take 2).takeWhile (· == mark)
  (body ++ String.ofList extra, rest.drop extra.length)

/-- Drops the newline right behind an opening mark of three. -/
def dropFirstNewline : List Char → List Char
  | '\n' :: rest => rest
  | s => s

def readLiteralText (s : List Char) : Except Stop (String × List Char) :=
  if ['\'', '\''].isPrefixOf s then
    (readLiteral ['\'', '\'', '\''] isControlInLines (dropFirstNewline (s.drop 2))).map
      fun (body, rest) => takeExtraMarks '\'' body rest
  else readLiteral ['\''] isControl s

def readEscapedText (s : List Char) : Except Stop (String × List Char) :=
  if ['"', '"'].isPrefixOf s then
    (readEscaped true (dropFirstNewline (s.drop 2))).map
      fun (body, rest) => takeExtraMarks '"' (String.ofList body) rest
  else (readEscaped false s).map fun (body, rest) => (String.ofList body, rest)

def isBareKeyChar (c : Char) : Bool := c.isAlphanum || c == '-' || c == '_'

def readKeyPart (s : List Char) : Except Stop (String × List Char) :=
  match s with
  | '\'' :: rest => readLiteral ['\''] isControl rest
  | '"' :: rest => (readEscaped false rest).map fun (body, r) => (String.ofList body, r)
  | s =>
    let part := s.takeWhile isBareKeyChar
    if part.isEmpty then .error (.problem .keyStart s.length)
    else .ok (String.ofList part, s.dropWhile isBareKeyChar)

/-- Reads a dotted key and the space behind it; `parts` bounds the number of its parts. -/
def readKeyParts : Nat → List Char → Except Stop (Key × List Char)
  | 0, s => .error (.problem .keyStart s.length)
  | parts + 1, s =>
    match readKeyPart s with
    | .error stop => .error stop
    | .ok (part, rest) =>
      match skipSpace rest with
      | '.' :: more => (readKeyParts parts (skipSpace more)).map fun (key, r) => (part :: key, r)
      | other => .ok ([part], other)

def readKey (s : List Char) : Except Stop (Key × List Char) := readKeyParts (s.length + 1) s

/-- The rest of a row of digits, in which single underscores may stand between digits. -/
def takeMoreDigits (isDigit : Char → Bool) : List Char → List Char × List Char
  | '_' :: d :: rest =>
    if isDigit d then
      let (digits, after) := takeMoreDigits isDigit rest
      (d :: digits, after)
    else ([], '_' :: d :: rest)
  | d :: rest =>
    if isDigit d then
      let (digits, after) := takeMoreDigits isDigit rest
      (d :: digits, after)
    else ([], d :: rest)
  | [] => ([], [])

/-- A row of digits with its underscores dropped; empty where no digit starts it. -/
def takeDigits (isDigit : Char → Bool) (s : List Char) : List Char × List Char :=
  match s with
  | d :: rest =>
    if isDigit d then
      let (digits, after) := takeMoreDigits isDigit rest
      (d :: digits, after)
    else ([], s)
  | [] => ([], [])

def valueIn (base : Nat) (digits : List Char) : Nat :=
  digits.foldl (fun v c => base * v + (Text.hexValue? c).getD 0) 0

def readBased? (s : List Char) : Option (Datum × List Char) :=
  let read (base : Nat) (isDigit : Char → Bool) (rest : List Char) :=
    let (digits, after) := takeDigits isDigit rest
    if digits.isEmpty then none else some (Datum.int (valueIn base digits), after)
  match s with
  | '0' :: 'x' :: rest => read 16 (fun c => (Text.hexValue? c).isSome) rest
  | '0' :: 'b' :: rest => read 2 (fun c => c == '0' || c == '1') rest
  | '0' :: 'o' :: rest => read 8 (fun c => '0' ≤ c && c ≤ '7') rest
  | _ => none

def takeSign : List Char → Bool × List Char
  | '-' :: rest => (true, rest)
  | '+' :: rest => (false, rest)
  | s => (false, s)

/-- The digits behind a point; without any, the point is not part of the number. -/
def takeFraction (s : List Char) : List Char × List Char :=
  match s with
  | '.' :: rest =>
    let (digits, after) := takeDigits Text.isDigit rest
    if digits.isEmpty then ([], s) else (digits, after)
  | _ => ([], s)

/-- The power of ten behind `e`; without digits, the `e` is not part of the number. -/
def takeExponent (s : List Char) : Option Int × List Char :=
  match s with
  | e :: rest =>
    if e = 'e' || e = 'E' then
      let (negative, body) := takeSign rest
      let (digits, after) := takeDigits Text.isDigit body
      if digits.isEmpty then (none, s)
      else
        let n : Int := Text.Numeral.value digits
        (some (if negative then -n else n), after)
    else (none, s)
  | [] => (none, [])

def readDecimal? (s : List Char) : Option (Except Stop Datum × List Char) :=
  let (negative, body) := takeSign s
  let (whole, rest) := match body with
    | '0' :: rest => (['0'], rest)
    | body => takeDigits Text.isDigit body
  if whole.isEmpty then none
  else
    let (fraction, rest) := takeFraction rest
    let (exponent, rest) := takeExponent rest
    if fraction.isEmpty && exponent.isNone then
      match Text.Numeral.readDigits whole with
      | .error fault => some (.error (.numeral fault), rest)
      | .ok n => some (.ok (.int (if negative then -(n : Int) else n)), rest)
    else
      let digits := Text.Numeral.value (whole ++ fraction)
      let power := exponent.getD 0 - (fraction.length : Int)
      some (.ok (.float (Number.Double.ofDecimal negative digits power)), rest)

/-- A number of exactly `width` digits that lies within bounds. -/
def takeField? (width low high : Nat) (s : List Char) : Option (Nat × List Char) :=
  let digits := s.take width
  let n := Text.Numeral.value digits
  if digits.length = width && digits.all Text.isDigit && low ≤ n && n ≤ high then
    some (n, s.drop width)
  else none

def takeChar? (c : Char) (s : List Char) : Option (List Char) :=
  match s with
  | d :: rest => if d = c then some rest else none
  | [] => none

def takeDate? (s : List Char) : Option (Date × List Char) := do
  let (year, s) ← takeField? 4 0 9999 s
  let s ← takeChar? '-' s
  let (month, s) ← takeField? 2 1 12 s
  let s ← takeChar? '-' s
  let (day, s) ← takeField? 2 1 31 s
  return (⟨year, month, day⟩, s)

/-- Millionths of a second behind a point; digits beyond the sixth are dropped. -/
def takeMicros (s : List Char) : Nat × List Char :=
  match s with
  | '.' :: rest =>
    let digits := rest.takeWhile Text.isDigit
    if digits.isEmpty then (0, s)
    else
      (Text.Numeral.value ((digits ++ List.replicate 6 '0').take 6), rest.dropWhile Text.isDigit)
  | _ => (0, s)

def takeTime? (s : List Char) : Option (TimeOfDay × List Char) := do
  let (hour, s) ← takeField? 2 0 23 s
  let s ← takeChar? ':' s
  let (minute, s) ← takeField? 2 0 59 s
  let s ← takeChar? ':' s
  let (second, s) ← takeField? 2 0 59 s
  let (micro, s) := takeMicros s
  return (⟨hour, minute, second, micro⟩, s)

/-- An offset from universal time in minutes. -/
def takeOffset? (s : List Char) : Option (Int × List Char) :=
  match s with
  | 'Z' :: rest | 'z' :: rest => some (0, rest)
  | '+' :: rest => hoursAndMinutes 1 rest
  | '-' :: rest => hoursAndMinutes (-1) rest
  | _ => none
where
  hoursAndMinutes (sign : Int) (s : List Char) : Option (Int × List Char) := do
    let (hour, s) ← takeField? 2 0 23 s
    let s ← takeChar? ':' s
    let (minute, s) ← takeField? 2 0 59 s
    return (sign * (60 * hour + minute : Nat), s)

def takeTimeOfDate? (s : List Char) : Option ((TimeOfDay × Option Int) × List Char) :=
  match s with
  | c :: rest =>
    if c = 'T' || c = 't' || c = ' ' then
      (takeTime? rest).map fun (time, rest) =>
        match takeOffset? rest with
        | some (offset, rest) => ((time, some offset), rest)
        | none => ((time, none), rest)
    else none
  | [] => none

def readMoment? (s : List Char) : Option (Except Stop Datum × List Char) :=
  match takeDate? s with
  | some (date, rest) =>
    let (moment, rest) := match takeTimeOfDate? rest with
      | some ((time, offset), rest) => (Moment.both date time offset, rest)
      | none => (.date date, rest)
    if date.IsValid then some (.ok (.moment moment), rest)
    else some (.error (.problem .date s.length), rest)
  | none => (takeTime? s).map fun (time, rest) => (.ok (.moment (.time time)), rest)

def words : List (String × Datum) :=
  [("true", .bool true), ("false", .bool false), ("inf", .float (.infinite false)),
    ("nan", .float .nan), ("+inf", .float (.infinite false)), ("-inf", .float (.infinite true)),
    ("+nan", .float .nan), ("-nan", .float .nan)]

def readWord? (s : List Char) : Option (Datum × List Char) :=
  words.findSome? fun (word, d) =>
    if word.toList.isPrefixOf s then some (d, s.drop word.length) else none

def readPlain (s : List Char) : Except Stop (Datum × List Char) :=
  match (readMoment? s).orElse fun _ =>
      ((readBased? s).map fun (d, r) => (.ok d, r)).orElse fun _ =>
        (readDecimal? s).orElse fun _ => (readWord? s).map fun (d, r) => (.ok d, r) with
  | some (.ok d, rest) => .ok (d, rest)
  | some (.error stop, _) => .error stop
  | none => .error (.problem .value s.length)

end LintGate.Toml
