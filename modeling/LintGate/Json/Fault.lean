import LintGate.Text.Numeral
import LintGate.Text.Position

/-!
# What is wrong with a JSON text

A syntax fault says what was expected or found and where. A text may also hold a numeral that is
too long to be read, which is a fault of its own.
-/

namespace LintGate.Json

inductive Problem
  | value
  | propertyName
  | colon
  | comma
  | extraData
  | unterminatedText
  | controlCharacter
  | escape
  | unicodeEscape
  | byteOrderMark
  deriving DecidableEq, Repr

structure Fault where
  problem : Problem
  position : Text.Position
  deriving DecidableEq, Repr

inductive Refusal
  | malformed (fault : Fault)
  | numeral (fault : Text.Numeral.Fault)
  deriving DecidableEq, Repr

def Problem.message : Problem → String
  | .value => "Expecting value"
  | .propertyName => "Expecting property name enclosed in double quotes"
  | .colon => "Expecting ':' delimiter"
  | .comma => "Expecting ',' delimiter"
  | .extraData => "Extra data"
  | .unterminatedText => "Unterminated string starting at"
  | .controlCharacter => "Invalid control character at"
  | .escape => "Invalid \\escape"
  | .unicodeEscape => "Invalid \\uXXXX escape"
  | .byteOrderMark => "Unexpected UTF-8 BOM (decode using utf-8-sig)"

def Fault.message (f : Fault) : String :=
  let p := f.position
  s!"{f.problem.message}: line {p.line} column {p.column} (char {p.offset})"

end LintGate.Json
