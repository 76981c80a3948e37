import LintGate.Engine
import LintGate.Fixture

/-!
# Running one check

A check is run on one sample of its fixture: the fixture, its configuration, the sample and the
engine have to be there, in this order, before a session is asked for.
-/

namespace LintGate

structure Runner where
  engines : List (String × Engine)
  fixtures : Fixtures

namespace Runner

def engineFor (r : Runner) (check : Check) : Except Fault Engine :=
  match r.engines.lookup check.engine with
  | some engine => .ok engine
  | none => .error (.unknownEngine check)

/-- What a run of a check on a sample needs. -/
structure Target where
  engine : Engine
  config : Path
  sample : Path

/-- Finds the parts of a run, or the first one that is missing. -/
def target (r : Runner) (t : FileTree) (check : Check) (sample : String) : Except Fault Target := do
  let fixture ← r.fixtures.load t check
  let path ← fixture.samplePath t sample
  let engine ← r.engineFor check
  return ⟨engine, fixture.config, path⟩

/-- Runs a check on a sample with a listener of its own. -/
def capture (r : Runner) (check : Check) (sample : String) : Gate Capture := do
  match r.target (← Gate.files) check sample with
  | .error fault => return .refused fault
  | .ok target =>
    Gate.tell .debug s!"Running {check} on {target.sample.name}"
    (target.engine.session target.config [[target.sample]]).hold

end Runner

end LintGate
