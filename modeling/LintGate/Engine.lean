import LintGate.Session

/-!
# Engines

What the gate has to know of an engine: its name, how its sessions are opened and closed for a
configuration, and what a run over some files comes to.
-/

namespace LintGate

structure Engine where
  name : String
  opening : Path → List SessionStep
  closing : Path → List SessionStep
  run : Path → List Path → Gate Emission

namespace Engine

def session (e : Engine) (config : Path) (batches : List (List Path)) : Session where
  engine := e.name
  config := config
  opening := e.opening config
  closing := e.closing config
  runs := batches.map fun files => do
    Gate.record (.processed e.name config files)
    e.run config files

/-- An engine that needs no files of its own and emits what it is told to, by the first file of
a run. It may refuse to be opened. -/
def scripted (name : String) (refusal : Option Fault) (script : Path → Emission) : Engine where
  name := name
  opening := fun _ => (refusal.map SessionStep.refuse).toList
  closing := fun _ => []
  run := fun _ files =>
    match files with
    | [] => return ⟨[], none⟩
    | file :: _ => return script file

end Engine

end LintGate
