import LintGate.Collector
import LintGate.FileTree.Required
import LintGate.Journal
import LintGate.Toml.Reader

/-!
# Sessions

An engine is used in sessions. A session is opened step by step, unless a step refuses it; then
its runs follow one another, each handing its findings to the listener; and whatever the runs do,
the session is closed. A run that fails, or whose finding is refused, is the last one.
-/

namespace LintGate

/-- What a run of an engine comes to: findings in the order of their emission, and the fault that
ends it, if it does not return. -/
structure Emission where
  findings : List Finding
  failure : Option Fault
  deriving DecidableEq, Repr

namespace Emission

def one (f : Finding) : Emission := ⟨[f], none⟩

def fail (fault : Fault) : Emission := ⟨[], some fault⟩

end Emission

/-- What a listener has heard when a session is over, and the fault that ended it. -/
structure Capture where
  collector : Collector
  fault : Option Fault
  deriving DecidableEq, Repr

def Capture.refused (fault : Fault) : Capture := ⟨.empty, some fault⟩

/-- A step of opening or closing a session. -/
inductive SessionStep
  /-- The engine's configuration has to be a file. -/
  | requireFile (engine : String) (path : Path)
  /-- A configuration in TOML has to be well-formed. -/
  | requireToml (engine : String) (path : Path)
  | refuse (fault : Fault)
  | announce (message : String)
  | lock
  | clearCache
  | unlock
  deriving DecidableEq, Repr

namespace SessionStep

def checkToml (engine : String) (path : Path) (t : FileTree) : Option Fault :=
  match t.read path.toString with
  | .error fault => some (.file fault)
  | .ok bytes =>
    match Toml.load bytes with
    | .ok _ => none
    | .error (.malformed fault) => some (.malformedConfiguration engine path fault)
    | .error (.undecodable fault) => some (.undecodable fault)
    | .error (.numeral fault) => some (.numeral fault)

def run : SessionStep → Gate (Option Fault)
  | .requireFile engine path => do
    match (← Gate.files).requireFile path (.configurationNotFound engine path) with
    | .error fault => return some fault
    | .ok _ => return none
  | .requireToml engine path => return checkToml engine path (← Gate.files)
  | .refuse fault => return some fault
  | .announce message => do Gate.tell .debug message; return none
  | .lock => do
    modify fun s => { s with locked := true }
    Gate.record .locked
    return none
  | .clearCache => do Gate.record .cacheCleared; return none
  | .unlock => do
    modify fun s => { s with locked := false }
    Gate.record .unlocked
    return none

def runAll : List SessionStep → Gate (Option Fault)
  | [] => return none
  | step :: rest => do
    match ← step.run with
    | some fault => return some fault
    | none => runAll rest

end SessionStep

/-- Hands findings to the listener one by one, up to one that it refuses. -/
def Collector.hear (c : Collector) : List Finding → Gate Capture
  | [] => return ⟨c, none⟩
  | f :: rest => do
    Gate.record (.heard f)
    match c.record f with
    | (c, none) => c.hear rest
    | (c, some fault) => return ⟨c, some fault⟩

/-- Hands the findings of a run to the listener; the run's own fault comes after them. -/
def Collector.receive (c : Collector) (e : Emission) : Gate Capture := do
  let heard ← c.hear e.findings
  match heard.fault with
  | some _ => return heard
  | none => return ⟨heard.collector, e.failure⟩

/-- Does the runs of a session one after the other, up to the first that fails. -/
def Collector.follow (c : Collector) : List (Gate Emission) → Gate Capture
  | [] => return ⟨c, none⟩
  | run :: rest => do
    let heard ← c.receive (← run)
    match heard.fault with
    | some _ => return heard
    | none => heard.collector.follow rest

structure Session where
  engine : String
  config : Path
  opening : List SessionStep
  runs : List (Gate Emission)
  closing : List SessionStep

/-- Opens a session, does its runs with a fresh listener, and closes it. -/
def Session.hold (s : Session) : Gate Capture := do
  Gate.record (.requested s.engine s.config)
  match ← SessionStep.runAll s.opening with
  | some fault => return .refused fault
  | none =>
    Gate.record (.opened s.engine s.config)
    let capture ← Collector.empty.follow s.runs
    discard (SessionStep.runAll s.closing)
    Gate.record (.closed s.engine s.config)
    return capture

end LintGate
