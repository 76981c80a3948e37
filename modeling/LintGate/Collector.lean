import LintGate.Violation

/-!
# Collectors

A collector listens to one run. It turns each finding into a violation as it comes and counts how
often it was called, also for a finding that it has to refuse.
-/

namespace LintGate

structure Collector where
  violations : List Violation
  invocations : Nat
  deriving DecidableEq, Repr

namespace Collector

def empty : Collector := ⟨[], 0⟩

/-- Takes one finding. A finding that has no violation is counted and refused. -/
def record (c : Collector) (f : Finding) : Collector × Option Fault :=
  match f.toViolation with
  | .ok v => (⟨c.violations ++ [v], c.invocations + 1⟩, none)
  | .error fault => ({ c with invocations := c.invocations + 1 }, some fault)

def keys (c : Collector) : Except Fault (List Key) := c.violations.mapM Violation.key

def delimiter : String := "; "

def summary (c : Collector) : Except Fault String :=
  (c.violations.mapM Violation.render).map delimiter.intercalate

end Collector

end LintGate
