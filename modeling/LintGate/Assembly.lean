import LintGate.Console.Telemetry
import LintGate.Engine.Pylint
import LintGate.Engine.Ruff
import LintGate.Inspection
import LintGate.Settings.Search
import LintGate.Verification.Suite

/-!
# The gate put together

The parts of a gate for one project: its settings, how it presents itself, the two engines with
the raw log of the first, and the runner of checks. What lies outside is the host, which says how
the engines' runs go and what time it is.
-/

namespace LintGate

/-- The surroundings that engines run in: how their runs go, by configuration and files. -/
structure Host where
  now : Instant
  ruffRun : Path → List Path → Completion
  pylintRun : Path → List Path → PylintRun

structure Assembly where
  settings : Settings
  telemetry : Telemetry
  rawLog : RawLog
  ruff : Ruff
  runner : Runner

namespace Assembly

/-- Writes down the warnings about a setting and gives its value. -/
def advised {α : Type} (setting : Except Fault (Settings.Advised α)) : Gate (Except Fault α) := do
  match setting with
  | .error fault => return .error fault
  | .ok (value, warnings) =>
    warnings.forM fun message => Gate.record (.cautioned message)
    return .ok value

def presentation (verbose : Bool) : Telemetry :=
  ⟨"QUALITY GATE", "green", "Fixture verifier online", verbose⟩

def ofValues (host : Host) (settings : Settings) (verbose : Bool) (logDirectory : Path)
    (timeout : Int) (fixtures : Path) : Assembly :=
  let rawLog : RawLog := ⟨logDirectory.toString⟩
  let ruff : Ruff := ⟨Ruff.engineName, timeout, some rawLog, host.now⟩
  { settings
    telemetry := presentation verbose
    rawLog
    ruff
    runner := {
      engines := [
        (Ruff.engineName, ruff.engine host.ruffRun),
        (Pylint.engineName, Pylint.engine host.pylintRun)]
      fixtures := ⟨fixtures⟩ } }

/-- Puts a gate together for settings. Fixtures that are given make the setting irrelevant. -/
def ofSettings (host : Host) (settings : Settings) (fixtures : Option Path) (verbose : Bool) :
    Gate (Except Fault Assembly) := do
  match ← advised settings.logDirectory with
  | .error fault => return .error fault
  | .ok logDirectory =>
    match ← advised settings.ruffTimeout with
    | .error fault => return .error fault
    | .ok timeout =>
      match fixtures with
      | some root => return .ok (ofValues host settings verbose logDirectory timeout root)
      | none =>
        return (← advised settings.fixturesRoot).map
          (ofValues host settings verbose logDirectory timeout)

def load (host : Host) (fixtures : Option Path) (verbose : Bool) :
    Gate (Except Fault Assembly) := do
  match Settings.load (← Gate.files) with
  | .error fault => return .error fault
  | .ok settings => ofSettings host settings fixtures verbose

end Assembly

end LintGate
