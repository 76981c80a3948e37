import LintGate.Json.Token

/-!
# Reading JSON

`Json.read` reads one JSON value with nothing but space around it. Beyond the standard it knows
`NaN`, `Infinity` and `-Infinity`. Of several entries with one key the last one counts, in the
place of the first. The readers of values, list elements and table entries call one another with
a bound on the depth of calls that the length of the text never exhausts.
-/

namespace LintGate.Json

def words : List (String × Datum) :=
  [("null", .null), ("true", .bool true), ("false", .bool false), ("NaN", .float .nan),
    ("Infinity", .float (.infinite false)), ("-Infinity", .float (.infinite true))]

def readWord? (s : List Char) : Option (Datum × List Char) :=
  words.findSome? fun (word, d) =>
    if word.toList.isPrefixOf s then some (d, s.drop word.length) else none

def readScalar (s : List Char) : Except Stop (Datum × List Char) :=
  match readWord? s with
  | some result => .ok result
  | none =>
    match readNumber? s with
    | none => .error (.problem .value s.length)
    | some (.error stop, _) => .error stop
    | some (.ok d, rest) => .ok (d, rest)

mutual

def readValue : Nat → List Char → Except Stop (Datum × List Char)
  | 0, s => .error (.problem .value s.length)
  | depth + 1, s =>
    match s with
    | '"' :: rest => (readText s.length rest).map fun (t, r) => (.text (String.ofList t), r)
    | '{' :: rest =>
      match skipSpace rest with
      | '}' :: after => .ok (.table [], after)
      | inside => (readEntries depth [] inside).map fun (entries, r) => (.table entries, r)
    | '[' :: rest =>
      match skipSpace rest with
      | ']' :: after => .ok (.list [], after)
      | inside => (readElements depth inside).map fun (items, r) => (.list items, r)
    | s => readScalar s

def readElements : Nat → List Char → Except Stop (List Datum × List Char)
  | 0, s => .error (.problem .value s.length)
  | depth + 1, s =>
    match readValue depth s with
    | .error stop => .error stop
    | .ok (d, rest) =>
      match skipSpace rest with
      | ']' :: after => .ok ([d], after)
      | ',' :: after => (readElements depth (skipSpace after)).map fun (ds, r) => (d :: ds, r)
      | other => .error (.problem .comma other.length)

/-- Reads the entries of a table up to its closing brace, behind those already read. -/
def readEntries : Nat → List (String × Datum) → List Char →
    Except Stop (List (String × Datum) × List Char)
  | 0, _, s => .error (.problem .value s.length)
  | depth + 1, entries, s =>
    match s with
    | '"' :: rest =>
      match readText s.length rest with
      | .error stop => .error stop
      | .ok (key, rest) =>
        match skipSpace rest with
        | ':' :: rest =>
          match readValue depth (skipSpace rest) with
          | .error stop => .error stop
          | .ok (d, rest) =>
            let entries := Datum.insert (String.ofList key) d entries
            match skipSpace rest with
            | '}' :: after => .ok (entries, after)
            | ',' :: after => readEntries depth entries (skipSpace after)
            | other => .error (.problem .comma other.length)
        | other => .error (.problem .colon other.length)
    | s => .error (.problem .propertyName s.length)

end

/-- Reads a whole text, failing by what is left. -/
def readWhole (s : List Char) : Except Stop Datum :=
  if s.head? = some '\uFEFF' then .error (.problem .byteOrderMark s.length)
  else
    match readValue (2 * s.length + 2) (skipSpace s) with
    | .error stop => .error stop
    | .ok (d, rest) =>
      match skipSpace rest with
      | [] => .ok d
      | more => .error (.problem .extraData more.length)

def read (s : List Char) : Except Refusal Datum :=
  match readWhole s with
  | .ok d => .ok d
  | .error (.problem p left) => .error (.malformed ⟨p, Text.Position.ofLeft s left⟩)
  | .error (.numeral fault) => .error (.numeral fault)

end LintGate.Json
