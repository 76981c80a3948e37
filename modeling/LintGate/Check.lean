/-!
# Checks

A check is a rule of one engine that the gate verifies against a fixture. It runs on two samples:
one that has to be reported and one that must not be.
-/

namespace LintGate

structure Check where
  engine : String
  name : String
  deriving DecidableEq, Repr

def Check.qualifiedName (c : Check) : String := c.engine ++ "/" ++ c.name

instance : ToString Check := ⟨Check.qualifiedName⟩

namespace Sample

/-- The sample whose violations are written down. -/
def invalid : String := "Invalid"

/-- The sample that has none. -/
def valid : String := "Valid"

end Sample

end LintGate
