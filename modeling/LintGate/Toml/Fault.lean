import LintGate.Text.Numeral
import LintGate.Text.Position
import LintGate.Text.Quoted

/-!
# What is wrong with a TOML document

A syntax fault says what is wrong and at which line and column, or that the document ended there.
-/

namespace LintGate.Toml

abbrev Key := List String

def Key.message (key : Key) : String :=
  match key with
  | [part] => "(" ++ part.quoted ++ ",)"
  | parts => "(" ++ ", ".intercalate (parts.map String.quoted) ++ ")"

inductive Problem
  | statement
  | statementEnd
  | value
  | keyStart
  | equalsSign
  | tableEnd
  | arrayOfTablesEnd
  | declaredTwice (key : Key)
  | immutable (key : Key)
  | redefined (key : Key)
  | overwritten
  | duplicateKey (part : String)
  | unclosedArray
  | unclosedTable
  | unterminatedText
  | closingMark (mark : String)
  | invalidCharacter (c : Char)
  | illegalCharacter (c : Char)
  | backslash
  | hexDigits
  | notScalar
  | date
  deriving DecidableEq, Repr

/-- A problem and its place; no place is the end of the document. -/
structure Fault where
  problem : Problem
  position : Option Text.Position
  deriving DecidableEq, Repr

def Problem.message : Problem → String
  | .statement => "Invalid statement"
  | .statementEnd => "Expected newline or end of document after a statement"
  | .value => "Invalid value"
  | .keyStart => "Invalid initial character for a key part"
  | .equalsSign => "Expected '=' after a key in a key/value pair"
  | .tableEnd => "Expected ']' at the end of a table declaration"
  | .arrayOfTablesEnd => "Expected ']]' at the end of an array declaration"
  | .declaredTwice key => s!"Cannot declare {Key.message key} twice"
  | .immutable key => s!"Cannot mutate immutable namespace {Key.message key}"
  | .redefined key => s!"Cannot redefine namespace {Key.message key}"
  | .overwritten => "Cannot overwrite a value"
  | .duplicateKey part => s!"Duplicate inline table key {part.quoted}"
  | .unclosedArray => "Unclosed array"
  | .unclosedTable => "Unclosed inline table"
  | .unterminatedText => "Unterminated string"
  | .closingMark mark => s!"Expected {mark.quoted}"
  | .invalidCharacter c => s!"Found invalid character {c.toString.quoted}"
  | .illegalCharacter c => s!"Illegal character {c.toString.quoted}"
  | .backslash => "Unescaped '\\' in a string"
  | .hexDigits => "Invalid hex value"
  | .notScalar => "Escaped character is not a Unicode scalar value"
  | .date => "Invalid date or datetime"

def Fault.message (f : Fault) : String :=
  let place := match f.position with
    | some p => s!"line {p.line}, column {p.column}"
    | none => "end of document"
  s!"{f.problem.message} (at {place})"

end LintGate.Toml
