import LintGate.Fault

/-!
# Registries

The checks that a suite can run, in their order. A check is called by its qualified name or by
its bare name; where several checks answer to a name, the first one does.
-/

namespace LintGate

structure Registry where
  checks : List Check
  deriving DecidableEq, Repr

namespace Registry

def styleChecks : List String :=
  ["UnusedImportCheck", "UnusedVariableCheck", "BareExceptCheck", "LambdaAssignmentCheck"]

def ruleChecks : List String :=
  ["UnusedImportRule", "UnreachableCodeRule", "BareExceptRule", "MissingDocstringRule"]

/-- The checks that come with the gate: those of style first. -/
def default : Registry :=
  ⟨styleChecks.map (⟨"ruff", ·⟩) ++ ruleChecks.map (⟨"pylint", ·⟩)⟩

def names (r : Registry) : List String := r.checks.map Check.qualifiedName

end Registry

def Check.answersTo (c : Check) (name : String) : Bool := name == c.qualifiedName || name == c.name

namespace Registry

def get (r : Registry) (name : String) : Except Fault Check :=
  match r.checks.find? (·.answersTo name) with
  | some check => .ok check
  | none => .error (.unknownCheck name r.names)

/-- Whether a selection by these names is the registry as it is. -/
def keepsAll (names : List String) : Bool := names.isEmpty

/-- Narrows the registry to the checks that the names call, in the order of the registry. No
names at all call every check. -/
def select (r : Registry) (names : List String) : Except Fault Registry :=
  if keepsAll names then .ok r
  else (names.mapM r.get).map fun chosen => ⟨r.checks.filter (chosen.contains ·)⟩

end Registry

end LintGate
