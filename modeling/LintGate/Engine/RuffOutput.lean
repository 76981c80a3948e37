import LintGate.Datum.Convert
import LintGate.Finding
import LintGate.Json.Reader

/-!
# The output of Ruff

Ruff writes its findings as a JSON list. An entry with a code and a row is a rule finding; an
entry without one of them tells of a file that could not be processed. Nothing is emitted before
the whole output is read.
-/

namespace LintGate.RuffOutput

def row (entry : Datum) (location : String) : Except Fault Datum := do
  let place ← entry.get location .null
  (place.orElse (.table [])).get "row" .null

/-- The finding of one entry; `subject` stands in where it names no file. -/
def finding (subject : String) (entry : Datum) : Except Fault Finding := do
  let file := (← entry.get "filename" .null).orElse (.text subject)
  let message ← entry.get "message" (.text "")
  let first ← row entry "location"
  let last ← row entry "end_location"
  let code ← entry.get "code" .null
  if code.isTruthy && first.isTruthy then
    let firstLine ← first.toInt
    let lastLine ← if last.isTruthy then .int <$> last.toInt else pure .null
    return .rule ⟨code.render, file, .int firstLine, lastLine, message⟩
  else
    return .processing ⟨file, message, if first.isTruthy then s!" at line {first.render}" else ""⟩

/-- The single finding that the output could not be used. -/
def unusable (subject what why : String) : List Finding :=
  [.processing ⟨.text subject, .text what, why⟩]

def read (subject : String) (stdout : String) : Except Fault (List Finding) :=
  if Text.allBlank stdout.toList then .ok []
  else
    match Json.read stdout.toList with
    | .error (.numeral fault) => .error (.numeral fault)
    | .error (.malformed fault) =>
      .ok (unusable subject "Failed to parse Ruff output: " fault.message)
    | .ok (.list entries) => entries.mapM (finding subject)
    | .ok d => .ok (unusable subject "Unexpected Ruff output: " d.typeName)

end LintGate.RuffOutput
