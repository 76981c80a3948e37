import LintGate.Engine

/-!
# Inspecting sources

All engines look at the same files, each with its own configuration and in one session in which
every file has a run of its own. Their violations make up one list: by engine, then by file, then
as they came.
-/

namespace LintGate.Inspection

def runAll (files : List Path) : List (Engine × Path) → Gate (Except Fault (List Violation))
  | [] => return .ok []
  | (engine, config) :: rest => do
    Gate.tell .step s!"Running {engine.name} on {files.length} file(s)..."
    let capture ← (engine.session config (files.map ([·]))).hold
    match capture.fault with
    | some fault => return .error fault
    | none =>
      match ← runAll files rest with
      | .error fault => return .error fault
      | .ok more => return .ok (capture.collector.violations ++ more)

/-- Inspects files with every engine. No files need no engine. -/
def run (engines : List (Engine × Path)) (files : List Path) :
    Gate (Except Fault (List Violation)) := do
  if files.isEmpty then return .ok []
  match ← runAll files engines with
  | .error fault => return .error fault
  | .ok violations =>
    Gate.tell .step s!"Quality gate found {violations.length} violation(s)."
    return .ok violations

end LintGate.Inspection
