import LintGate.Collector

/-!
# Outcomes

What came of running a check on one of its samples, the diagnostic text of it, and the report on
the outcomes of a suite.
-/

namespace LintGate

structure Outcome where
  check : Check
  sample : String
  passed : Bool
  summary : String
  missing : List String := []
  unexpected : List String := []
  invocations : Int := 0
  error : Option String := none
  deriving DecidableEq, Repr

namespace Outcome

def ofError (check : Check) (sample message : String) : Outcome :=
  { check, sample, passed := false, summary := "", error := some message }

def label (o : Outcome) : String := s!"{o.check} [{o.sample}]"

/-- The lines that say what two lists of keys have more of than each other. -/
def differences (o : Outcome) : List String :=
  let line (name : String) (keys : List String) : List String :=
    if keys.isEmpty then [] else [s!"  {name}: " ++ Collector.delimiter.intercalate keys]
  if o.missing.isEmpty && o.unexpected.isEmpty then
    [s!"  listener fired {Text.Numeral.write o.invocations} time(s)"]
  else line "missing" o.missing ++ line "unexpected" o.unexpected

def describe (o : Outcome) : String :=
  match o.error with
  | some message => s!"{o.label} could not run: {message}"
  | none =>
    if o.passed then s!"{o.label} OK"
    else
      "\n".intercalate (s!"{o.label} reported violations don't match: {o.summary}" :: o.differences)

end Outcome

/-- The outcomes of a suite, two for each check. -/
structure Report where
  outcomes : List Outcome
  deriving DecidableEq, Repr

namespace Report

def passed (r : Report) : Bool := r.outcomes.all (·.passed)

def failures (r : Report) : List Outcome := r.outcomes.filter (! ·.passed)

end Report

end LintGate
