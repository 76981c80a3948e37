import LintGate.Console
import LintGate.Verification.Outcome

/-!
# The report on the console

A table with a row for every outcome, and then the diagnostic of each failure.
-/

namespace LintGate.Report

def verdict (o : Outcome) : String :=
  if o.error.isSome then "[red]ERROR[/]" else if o.passed then "[green]PASS[/]" else "[red]FAIL[/]"

def columns : List Column :=
  [⟨"Check", .left⟩, ⟨"Sample", .left⟩, ⟨"Result", .left⟩, ⟨"Findings", .right⟩]

def row (o : Outcome) : List String :=
  [o.check.qualifiedName, o.sample, verdict o, Text.Numeral.write o.invocations]

def table (r : Report) : Printed := .table "Fixture verification" columns (r.outcomes.map row)

/-- The whole report, its diagnostics escaped. -/
def printed (escape : String → String) (r : Report) : List Printed :=
  r.table :: r.failures.map fun o => .marked (escape o.describe)

def present (c : Console) (r : Report) : List Printed × Option Fault := c.print (r.printed c.escape)

end LintGate.Report
