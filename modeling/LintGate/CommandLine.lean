import LintGate.Assembly
import LintGate.Console.ReportTable

/-!
# The command line

`verify` puts the gate together, presents it, selects the checks, runs the suite and reports. The
exit status is zero when every check matches its fixture, one when some check does not, and two
when a check is not known. A fault that no check can own escapes, and there is no status.
-/

namespace LintGate

/-- What a verification is asked to do otherwise than the settings say. -/
structure VerifyOptions where
  fixtures : Option Path
  checks : List String
  workers : Option Int
  verbose : Bool
  deriving DecidableEq, Repr

/-- How the checks of a suite come to their turns. -/
abbrev Schedule := Runner → Registry → Int → Gate (Except Fault Report)

namespace CommandLine

def passedStatus : Nat := 0

def failedStatus : Nat := 1

def usageStatus : Nat := 2

/-- How a command ends: with a status or with a fault that escapes, and what it printed of the
report. -/
structure Ending where
  result : Except Fault Nat
  reported : List Printed

namespace Ending

def exit (status : Nat) : Ending := ⟨.ok status, []⟩

def escaped (fault : Fault) : Ending := ⟨.error fault, []⟩

def status? (e : Ending) : Option Nat := e.result.toOption

def fault? (e : Ending) : Option Fault :=
  match e.result with
  | .ok _ => none
  | .error fault => some fault

end Ending

/-- The names that narrow the suite: those of the options, else those of the settings. -/
def checkNames (a : Assembly) (options : VerifyOptions) : Gate (Except Fault (List String)) :=
  if options.checks.isEmpty then Assembly.advised a.settings.checks
  else return .ok options.checks

/-- How many checks run at a time: as the options say, else as the settings do. -/
def workers (a : Assembly) (options : VerifyOptions) : Gate (Except Fault Int) :=
  match options.workers.filter (· ≠ 0) with
  | some n => return .ok n
  | none => Assembly.advised a.settings.workers

def conclude (console : Console) (report : Report) : Ending :=
  match report.present console with
  | (shown, some fault) => ⟨.error fault, shown⟩
  | (shown, none) => ⟨.ok (if report.passed then passedStatus else failedStatus), shown⟩

def verifySelected (console : Console) (schedule : Schedule) (a : Assembly)
    (options : VerifyOptions) (registry : Registry) : Gate Ending := do
  match ← workers a options with
  | .error fault => return .escaped fault
  | .ok n =>
    match ← schedule a.runner registry n with
    | .error fault => return .escaped fault
    | .ok report => return conclude console report

def verify (console : Console) (schedule : Schedule) (a : Assembly) (registry : Registry)
    (options : VerifyOptions) : Gate Ending := do
  Gate.record .greeted
  match ← checkNames a options with
  | .error fault => return .escaped fault
  | .ok names =>
    match registry.select names with
    | .error fault =>
      Gate.tell .error fault.message
      return .exit usageStatus
    | .ok selected => verifySelected console schedule a options selected

def run (host : Host) (console : Console) (schedule : Schedule) (registry : Registry)
    (options : VerifyOptions) : Gate Ending := do
  match ← Assembly.load host options.fixtures options.verbose with
  | .error fault => return .escaped fault
  | .ok assembly => verify console schedule assembly registry options

end CommandLine

end LintGate
