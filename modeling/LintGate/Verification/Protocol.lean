import LintGate.Verification.Comparison
import LintGate.Verification.Outcome
import LintGate.Verification.Runner

/-!
# The two protocols of a check

On the invalid sample, the keys of what the engine reports have to be the expected ones, each as
often as expected and in any order. On the valid sample, nothing may be reported at all. A
difference is a failed outcome; what keeps a protocol from being carried out is a fault.
-/

namespace LintGate.Runner

/-- What the captured keys and the expected ones have more of than each other. -/
structure Differences where
  missing : List Key
  unexpected : List Key
  deriving DecidableEq, Repr

def compare (captured expected : List Key) : Except Fault Differences :=
  (Key.checkCountable captured).map fun _ =>
    ⟨Key.surplus expected captured, Key.surplus captured expected⟩

def Differences.isEmpty (d : Differences) : Bool := d.missing.isEmpty && d.unexpected.isEmpty

def violatingOutcome (check : Check) (collector : Collector) (d : Differences) :
    Except Fault Outcome := do
  let summary ← collector.summary
  let missing ← Key.sort d.missing
  let unexpected ← Key.sort d.unexpected
  return {
    check
    sample := Sample.invalid
    passed := d.isEmpty
    summary
    missing := missing.map Key.render
    unexpected := unexpected.map Key.render
    invocations := collector.invocations }

/-- The keys captured on the invalid sample beside those expected there. -/
def differences (r : Runner) (t : FileTree) (check : Check) (collector : Collector) :
    Except Fault Differences := do
  let fixture ← r.fixtures.load t check
  let expected ← fixture.expectations t
  let captured ← collector.keys
  compare captured (expected.map Expectation.key)

def verifyViolating (r : Runner) (check : Check) : Gate (Except Fault Outcome) := do
  let capture ← r.capture check Sample.invalid
  match capture.fault with
  | some fault => return .error fault
  | none =>
    match r.differences (← Gate.files) check capture.collector with
    | .error fault => return .error fault
    | .ok d =>
      unless d.isEmpty do
        Gate.tell .warning s!"{check}: reported violations don't match expectations"
      return violatingOutcome check capture.collector d

def cleanOutcome (check : Check) (collector : Collector) (keys : List Key) (summary : String) :
    Outcome where
  check := check
  sample := Sample.valid
  passed := collector.violations.isEmpty && summary == "" && collector.invocations == 0
  summary := summary
  unexpected := keys.map Key.render
  invocations := collector.invocations

def verifyClean (r : Runner) (check : Check) : Gate (Except Fault Outcome) := do
  let capture ← r.capture check Sample.valid
  match capture.fault with
  | some fault => return .error fault
  | none =>
    match capture.collector.keys, capture.collector.summary with
    | .ok keys, .ok summary =>
      let outcome := cleanOutcome check capture.collector keys summary
      unless outcome.passed do
        Gate.tell .warning s!"{check}: log should be empty for valid files"
      return .ok outcome
    | .error fault, _ => return .error fault
    | _, .error fault => return .error fault

end LintGate.Runner
