import LintGate.Datum.Convert
import LintGate.Finding

/-!
# Violations

The one form that findings of all engines are brought into, and the key by which a violation is
compared with an expectation: the first line of its location and its description.
-/

namespace LintGate

/-- What an expectation and a violation agree on: a line, zero where it is unknown, and a text. -/
structure Key where
  line : Int
  text : Datum
  deriving DecidableEq, Repr

def Key.render (k : Key) : String := Text.Numeral.write k.line ++ ":" ++ k.text.render

structure Violation where
  category : String
  subject : Datum
  location : String
  description : Datum
  deriving DecidableEq, Repr

namespace Violation

def unknown : String := "unknown"

def processingError : String := "ProcessingError"

/-- A location from one line to another: always a range, for a single line as well. There is none
where one of the lines cannot be written. -/
def range? (firstLine endLine : Datum) : Option String := do
  let first ← firstLine.render?
  let last ← endLine.render?
  return first ++ "-" ++ last

/-- The first line of the location: what stands in front of the first dash. -/
def line (v : Violation) : Except Fault Int :=
  if v.location = unknown then .ok 0
  else
    match Text.Numeral.read (v.location.toList.takeWhile (· != '-')) with
    | .ok n => .ok n
    | .error fault => .error (.numeral fault)

def key (v : Violation) : Except Fault Key := v.line.map fun n => ⟨n, v.description⟩

def render (v : Violation) : Except Fault String := v.key.map Key.render

end Violation

def RuleFinding.toViolation (f : RuleFinding) : Except Fault Violation :=
  match Violation.range? f.firstLine f.endLine with
  | some location => .ok ⟨f.rule, f.file, location, f.description⟩
  | none => .error .unwritable

/-- Message and detail stand next to each other as they are. -/
def ProcessingFailure.toViolation (f : ProcessingFailure) : Except Fault Violation :=
  (f.message.append f.detail).map fun description =>
    ⟨Violation.processingError, f.file, Violation.unknown, description⟩

def ConfigFailure.toViolation (f : ConfigFailure) : Violation :=
  ⟨Violation.processingError, .text Violation.unknown, Violation.unknown, .text f.issue⟩

def Finding.toViolation : Finding → Except Fault Violation
  | .rule f => f.toViolation
  | .processing f => f.toViolation
  | .config f => .ok f.toViolation
  | .foreign typeName => .error (.foreignFinding typeName)

end LintGate
