import LintGate.Datum.Basic

/-!
# Findings

What an engine reports while it runs. A finding has one of three shapes; whatever else reaches a
listener is foreign to the gate. Texts and lines that engines report are kept as the data they came
as.
-/

namespace LintGate

structure RuleFinding where
  rule : String
  file : Datum
  firstLine : Datum
  /-- Null where there is only one line. -/
  lastLine : Datum
  description : Datum
  deriving DecidableEq, Repr

structure ProcessingFailure where
  file : Datum
  message : Datum
  detail : String
  deriving DecidableEq, Repr

/-- The engine refused part of its configuration. -/
structure ConfigFailure where
  issue : String
  deriving DecidableEq, Repr

inductive Finding
  | rule (f : RuleFinding)
  | processing (f : ProcessingFailure)
  | config (f : ConfigFailure)
  | foreign (typeName : String)
  deriving DecidableEq, Repr

/-- The line that a rule finding ends at. -/
def RuleFinding.endLine (f : RuleFinding) : Datum :=
  if f.lastLine = .null then f.firstLine else f.lastLine

/-- A finding of one of the three shapes whose texts are texts. -/
def Finding.HasTexts : Finding → Prop
  | .rule f => (∃ s, f.file = .text s) ∧ ∃ s, f.description = .text s
  | .processing f => (∃ s, f.file = .text s) ∧ ∃ s, f.message = .text s
  | .config _ => True
  | .foreign _ => False

def Finding.HasIntegerLines : Finding → Prop
  | .rule f => (∃ n, f.firstLine = .int n) ∧ (f.lastLine = .null ∨ ∃ n, f.lastLine = .int n)
  | _ => True

end LintGate
