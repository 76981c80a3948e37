import LintGate.Fault

/-!
# Data in other roles

A datum taken as an integer, as a table to look into, or as a text to add to. Each of these is
open to some types only.
-/

namespace LintGate.Datum

/-- A datum as an integer: the whole part of a number, or the value of a numeral. -/
def toInt : Datum → Except Fault Int
  | .bool b => .ok (if b then 1 else 0)
  | .int n => .ok n
  | .float (.finite negative m e) => .ok (Number.Double.truncate negative m e)
  | .float (.infinite _) => .error (.noWholePart true)
  | .float .nan => .error (.noWholePart false)
  | .text s =>
    match Text.Numeral.read s.toList with
    | .ok n => .ok n
    | .error fault => .error (.numeral fault)
  | d => .error (.notANumber d.typeName)

def get (d : Datum) (key : String) (default : Datum) : Except Fault Datum :=
  match d with
  | .table entries => .ok ((lookup key entries).getD default)
  | d => .error (.notATable d.typeName)

def append (d : Datum) (s : String) : Except Fault Datum :=
  match d with
  | .text t => .ok (.text (t ++ s))
  | d => .error (.notAppendable d.typeName)

end LintGate.Datum
