import LintGate.Text.Utf8
import LintGate.Toml.Namespace
import LintGate.Toml.Token

/-!
# Reading TOML

`Toml.read` reads a document of version 1.0, `Toml.load` one given as bytes. The readers of
values, arrays and inline tables call one another with a bound on the depth of calls that the
length of the text never exhausts.
-/

namespace LintGate.Toml

/-- Skips space, newlines and comments between the elements of an array. -/
def skipBetween : Nat → List Char → Except Stop (List Char)
  | 0, s => .ok s
  | comments + 1, s =>
    let s := skipSpaceAndNewlines s
    match skipComment s with
    | .error stop => .error stop
    | .ok rest => if rest.length = s.length then .ok s else skipBetween comments rest

mutual

def readValue : Nat → List Char → Except Stop (Datum × List Char)
  | 0, s => .error (.problem .value s.length)
  | depth + 1, s =>
    match s with
    | '"' :: rest => (readEscapedText rest).map fun (t, r) => (.text t, r)
    | '\'' :: rest => (readLiteralText rest).map fun (t, r) => (.text t, r)
    | '[' :: rest =>
      match skipBetween s.length rest with
      | .error stop => .error stop
      | .ok (']' :: after) => .ok (.list [], after)
      | .ok inside => (readElements depth inside).map fun (items, r) => (.list items, r)
    | '{' :: rest =>
      match skipSpace rest with
      | '}' :: after => .ok (.table [], after)
      | inside => (readPairs depth ⟨[], []⟩ inside).map fun (entries, r) => (.table entries, r)
    | s => readPlain s

def readElements : Nat → List Char → Except Stop (List Datum × List Char)
  | 0, s => .error (.problem .value s.length)
  | depth + 1, s =>
    match readValue depth s with
    | .error stop => .error stop
    | .ok (d, rest) =>
      match skipBetween s.length rest with
      | .error stop => .error stop
      | .ok (']' :: after) => .ok ([d], after)
      | .ok (',' :: after) =>
        match skipBetween s.length after with
        | .error stop => .error stop
        | .ok (']' :: after) => .ok ([d], after)
        | .ok inside => (readElements depth inside).map fun (ds, r) => (d :: ds, r)
      | .ok other => .error (.problem .unclosedArray other.length)

/-- Reads the pairs of an inline table up to its closing brace, behind those already read. -/
def readPairs : Nat → InlineTable → List Char → Except Stop (Entries × List Char)
  | 0, _, s => .error (.problem .keyStart s.length)
  | depth + 1, t, s =>
    match readPair depth s with
    | .error stop => .error stop
    | .ok ((key, d), rest) =>
      match t.assign key d with
      | .error p => .error (.problem p rest.length)
      | .ok t =>
        match skipSpace rest with
        | '}' :: after => .ok (t.entries, after)
        | ',' :: after => readPairs depth t (skipSpace after)
        | other => .error (.problem .unclosedTable other.length)

def readPair : Nat → List Char → Except Stop ((Key × Datum) × List Char)
  | 0, s => .error (.problem .keyStart s.length)
  | depth + 1, s =>
    match readKey s with
    | .error stop => .error stop
    | .ok (key, '=' :: rest) =>
      (readValue depth (skipSpace rest)).map fun (d, r) => ((key, d), r)
    | .ok (_, other) => .error (.problem .equalsSign other.length)

end

def readHeader (n : Namespace) (s : List Char) : Except Stop ((Namespace × Key) × List Char) :=
  match readKey (skipSpace s) with
  | .error stop => .error stop
  | .ok (key, rest) =>
    match n.openTable key with
    | .error p => .error (.problem p rest.length)
    | .ok n =>
      match rest with
      | ']' :: after => .ok ((n, key), after)
      | _ => .error (.problem .tableEnd rest.length)

def readListedHeader (n : Namespace) (s : List Char) :
    Except Stop ((Namespace × Key) × List Char) :=
  match readKey (skipSpace s) with
  | .error stop => .error stop
  | .ok (key, rest) =>
    match n.openListed key with
    | .error p => .error (.problem p rest.length)
    | .ok n =>
      match rest with
      | ']' :: ']' :: after => .ok ((n, key), after)
      | _ => .error (.problem .arrayOfTablesEnd rest.length)

def startsKey (c : Char) : Bool := isBareKeyChar c || c == '"' || c == '\''

/-- Reads one statement, if the line holds one: a pair or a header. -/
def readStatement (n : Namespace) (header : Key) (s : List Char) :
    Except Stop ((Namespace × Key) × List Char) :=
  match s with
  | '[' :: '[' :: rest => readListedHeader n.turn rest
  | '[' :: rest => readHeader n.turn rest
  | '#' :: _ => .ok ((n, header), s)
  | c :: _ =>
    if startsKey c then
      match readPair (2 * s.length + 3) s with
      | .error stop => .error stop
      | .ok ((key, d), rest) =>
        match n.assign header key d with
        | .error p => .error (.problem p rest.length)
        | .ok n => .ok ((n, header), rest)
    else .error (.problem .statement s.length)
  | [] => .ok ((n, header), [])

/-- Reads the lines of a document; `lines` bounds their number. -/
def readLines : Nat → Namespace → Key → List Char → Except Stop Namespace
  | 0, n, _, _ => .ok n
  | lines + 1, n, header, s =>
    match skipSpace s with
    | [] => .ok n
    | '\n' :: rest => readLines lines n header rest
    | line =>
      match readStatement n header line with
      | .error stop => .error stop
      | .ok ((n, header), rest) =>
        match skipComment (skipSpace rest) with
        | .error stop => .error stop
        | .ok [] => .ok n
        | .ok ('\n' :: rest) => readLines lines n header rest
        | .ok other => .error (.problem .statementEnd other.length)

/-- A carriage return with the line feed after it counts as a line feed. -/
def joinReturns : List Char → List Char
  | '\r' :: '\n' :: rest => '\n' :: joinReturns rest
  | c :: rest => c :: joinReturns rest
  | [] => []

inductive Refusal
  | undecodable (fault : Text.Utf8.Fault)
  | malformed (fault : Fault)
  | numeral (fault : Text.Numeral.Fault)
  deriving DecidableEq, Repr

def read (text : List Char) : Except Refusal Entries :=
  let s := joinReturns text
  match readLines (s.length + 1) .empty [] s with
  | .ok n => .ok n.entries
  | .error (.numeral fault) => .error (.numeral fault)
  | .error (.problem p left) =>
    .error (.malformed ⟨p, if left = 0 then none else some (Text.Position.ofLeft s left)⟩)

def load (bytes : List UInt8) : Except Refusal Entries :=
  match Text.Utf8.decode bytes with
  | .error fault => .error (.undecodable fault)
  | .ok text => read text

end LintGate.Toml
