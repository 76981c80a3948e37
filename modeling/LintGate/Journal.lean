import LintGate.FileTree
import LintGate.Finding

/-!
# The journal of a run

What a run of the gate does to its surroundings: the file tree it works in, the lock that engines
with state of their own take, and the journal of everything that can be seen from outside, oldest
first. An action of the gate is a function of that state.
-/

namespace LintGate

inductive Level
  | step
  | error
  | warning
  | debug
  deriving DecidableEq, Repr

inductive Event
  /-- The gate presented itself. -/
  | greeted
  /-- A message to the people who watch. -/
  | told (level : Level) (message : String)
  /-- A warning that a setting is not used as it is. -/
  | cautioned (message : String)
  | requested (engine : String) (config : Path)
  | opened (engine : String) (config : Path)
  | processed (engine : String) (config : Path) (files : List Path)
  /-- The listener was called. -/
  | heard (finding : Finding)
  | closed (engine : String) (config : Path)
  | locked
  | cacheCleared
  | unlocked
  /-- A command was run, to be ended after so many seconds. -/
  | spawned (command : List String) (timeout : Int)
  /-- An engine in the same process was run with arguments. -/
  | analyzed (arguments : List String)
  deriving DecidableEq, Repr

structure GateState where
  files : FileTree
  locked : Bool
  journal : List Event
  deriving Repr

/-- An action that reads and changes the state of the gate. -/
abbrev Gate := StateM GateState

namespace GateState

def start (files : FileTree) : GateState := ⟨files, false, []⟩

/-- The state with nothing in its journal. -/
def fresh (s : GateState) : GateState := { s with journal := [] }

end GateState

namespace Gate

def record (e : Event) : Gate Unit := modify fun s => { s with journal := s.journal ++ [e] }

def tell (level : Level) (message : String) : Gate Unit := record (.told level message)

def files : Gate FileTree := return (← get).files

end Gate

def told (journal : List Event) : List (Level × String) :=
  journal.filterMap fun
    | .told level message => some (level, message)
    | _ => none

/-- The findings that the listener heard, in order. -/
def heard (journal : List Event) : List Finding :=
  journal.filterMap fun
    | .heard finding => some finding
    | _ => none

def cautions (journal : List Event) : List String :=
  journal.filterMap fun
    | .cautioned message => some message
    | _ => none

def occurrences (p : Event → Bool) (journal : List Event) : Nat := journal.countP p

end LintGate
