import LintGate.Assembly.Parts

/-!
# What a gate consists of

The parts of a gate as they show from outside, each asked for under its name.
-/

namespace LintGate

structure Description where
  engines : List String
  timeout : Int
  executable : String
  /-- Where the raw output of Ruff goes. -/
  log : String
  fixtures : Path
  root : Path
  data : Datum
  telemetry : Telemetry
  /-- Whether checks are verified in the same way one by one and in a suite. -/
  shared : Bool

namespace Parts

def ruff (p : Parts) : Except Fault Ruff :=
  match p.registered.lookup .engines with
  | none => .ok p.assembly.ruff
  | some (.table entries) =>
    match Datum.lookup Ruff.engineName entries with
    | some d => .error (.noSuchPart d.typeName "timeout")
    | none => .error (.noEntry Ruff.engineName)
  | some d => .error (.notKeyed d.typeName)

/-- Describes a gate, up to the first part that cannot be described. -/
def describe (p : Parts) : Except Fault Description := do
  let ruff ← p.ruff
  let rawLog ← p.use .rawLog "path_for" (·.rawLog)
  let fixtures ← p.use .fixtures "root" (·.runner.fixtures)
  let settings ← p.use .settings "project_root" (·.settings)
  let telemetry ← p.use .telemetry "project_name" (·.telemetry)
  let _ ← p.use .suiteVerifier "verifier" (·.runner)
  return {
    engines := p.assembly.runner.engines.map (·.1)
    timeout := ruff.timeout
    executable := ruff.executable
    log := rawLog.pathFor Ruff.engineName
    fixtures := fixtures.root
    root := settings.root
    data := settings.data
    telemetry
    shared := (p.registered.lookup .checkVerifier).isNone }

end Parts

end LintGate
