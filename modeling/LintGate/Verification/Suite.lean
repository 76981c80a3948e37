import LintGate.Registry
import LintGate.Verification.Protocol

/-!
# Suites

A suite carries out both protocols for every check of a registry. A gate fault becomes an outcome
of its check; any other fault ends the suite. With several workers the checks run in any order,
and their outcomes are put back in the order of the registry.
-/

namespace LintGate.Runner

/-- Turns a gate fault into an outcome, and tells of it. -/
def guarded (check : Check) (sample : String) (protocol : Gate (Except Fault Outcome)) :
    Gate (Except Fault Outcome) := do
  match ← protocol with
  | .ok outcome => return .ok outcome
  | .error fault =>
    if fault.isGate then
      Gate.tell .error s!"{check} [{sample}]: {fault.message}"
      return .ok (.ofError check sample fault.message)
    else return .error fault

def verify (r : Runner) (check : Check) : Gate (Except Fault (List Outcome)) := do
  match ← guarded check Sample.invalid (r.verifyViolating check) with
  | .error fault => return .error fault
  | .ok violating =>
    match ← guarded check Sample.valid (r.verifyClean check) with
    | .error fault => return .error fault
    | .ok clean => return .ok [violating, clean]

/-- Does tasks one after the other, up to the first that fails. -/
def inSequence {α : Type} : List (Gate (Except Fault α)) → Gate (Except Fault (List α))
  | [] => return .ok []
  | task :: rest => do
    match ← task with
    | .error fault => return .error fault
    | .ok a =>
      match ← inSequence rest with
      | .error fault => return .error fault
      | .ok as => return .ok (a :: as)

/-- The results of all tasks, or the fault of the first one that failed. -/
def collect {α : Type} : List (Except Fault α) → Except Fault (List α)
  | [] => .ok []
  | .error fault :: _ => .error fault
  | .ok a :: rest => (collect rest).map (a :: ·)

/-- Does every task, in the order of the given indices, and lists the results by index. -/
def pooled {α : Type} (tasks : List (Gate (Except Fault α))) (order : List Nat) :
    Gate (Except Fault (List α)) := do
  let done ← order.filterMapM fun i =>
    match tasks[i]? with
    | none => return none
    | some task => return some (i, ← task)
  return collect ((List.range tasks.length).filterMap fun i => done.lookup i)

def outcomes (r : Runner) (checks : List Check) (workers : Int) :
    Gate (Except Fault (List (List Outcome))) :=
  if workers ≤ 1 then inSequence (checks.map r.verify)
  else pooled (checks.map r.verify) (List.range checks.length)

def tellResult (report : Report) : Gate Unit :=
  if report.passed then Gate.tell .step "All checks match their fixtures."
  else Gate.tell .error s!"{report.failures.length} protocol run(s) failed."

def verifySuite (r : Runner) (registry : Registry) (workers : Int) :
    Gate (Except Fault Report) := do
  match Text.Numeral.write? workers with
  | none => return .error .unwritable
  | some shown =>
    Gate.tell .step s!"Verifying {registry.checks.length} check(s) with {shown} worker(s)..."
    match ← r.outcomes registry.checks workers with
    | .error fault => return .error fault
    | .ok perCheck =>
      let report : Report := ⟨perCheck.flatten⟩
      tellResult report
      return .ok report

end LintGate.Runner
