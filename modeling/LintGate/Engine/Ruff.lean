import LintGate.Engine
import LintGate.Engine.RuffOutput
import LintGate.RawLog

/-!
# The style engine

Ruff runs as a process of its own for each list of files. Its raw output goes to the log as soon
as it has returned; only then are its findings read and handed on. A status of two or more
is an abnormal end.
-/

namespace LintGate

/-- Statuses of processes are below this, and so are the signals that stand for a status. -/
def ProcessResult.statusBound : Nat := 4294967296

/-- What a returned process left behind. -/
structure ProcessResult where
  status : Int
  stdout : String
  stderr : String
  status_lt : status.natAbs < ProcessResult.statusBound := by decide
  deriving DecidableEq, Repr

/-- How the attempt to run a process ended. -/
inductive Completion
  | returned (result : ProcessResult)
  | notFound
  | timedOut
  | denied
  /-- The process failed to run in another way. -/
  | failed (fault : Fault)
  deriving DecidableEq, Repr

/-- How Ruff is run, and where its raw output goes. -/
structure Ruff where
  executable : String
  timeout : Int
  log : Option RawLog
  now : Instant
  deriving DecidableEq, Repr

namespace Ruff

def engineName : String := "ruff"

/-- The least status of an abnormal end. -/
def abnormalStatus : Int := 2

def command (r : Ruff) (config : Path) (files : List Path) : List String :=
  [r.executable, "check", "--config", config.toString, "--output-format=json", "--no-cache"] ++
    files.map Path.toString

def holds (part : List Char) : List Char → Bool
  | [] => part.isEmpty
  | c :: rest => part.isPrefixOf (c :: rest) || holds part rest

/-- The finding of an abnormal end: it is about the configuration if the process spoke of it. -/
def abnormalEnd (config : Path) (subject : String) (result : ProcessResult) : Finding :=
  let text := result.stderr.stripped
  if holds config.toString.toList text.toList then .config ⟨text⟩
  else
    let detail := if text = "" then "" else ": " ++ text
    let status := Text.Numeral.write result.status
    .processing ⟨.text subject, .text s!"Ruff exited with status {status}", detail⟩

def keep (r : Ruff) (config : Path) (result : ProcessResult) : Gate (Option Fault) := do
  match r.log with
  | none => return none
  | some log =>
    let (files, fault) :=
      log.append (← Gate.files) r.now engineName result.stdout result.stderr config.toString
    modify fun s => { s with files }
    return fault.map Fault.file

/-- What a returned process comes to. -/
def conclude (config : Path) (subject : String) (result : ProcessResult) : Gate Emission := do
  if abnormalStatus ≤ result.status then
    return .one (abnormalEnd config subject result)
  let complaint := result.stderr.stripped
  if complaint ≠ "" then Gate.tell .warning complaint
  match RuffOutput.read subject result.stdout with
  | .ok findings => return ⟨findings, none⟩
  | .error fault => return .fail fault

def run (r : Ruff) (config : Path) (files : List Path) (completion : Completion) :
    Gate Emission := do
  let subject := Path.listing files
  let failure (message detail : String) : Emission :=
    .one (.processing ⟨.text subject, .text message, detail⟩)
  Gate.record (.spawned (r.command config files) r.timeout)
  match completion with
  | .notFound => return failure "Ruff not found." " Install with: pip install ruff"
  | .timedOut =>
    match Text.Numeral.write? r.timeout with
    | some seconds => return failure "Ruff timed out" s!" after {seconds} seconds"
    | none => return .fail .unwritable
  | .denied => return .fail (.file ⟨.denied, r.executable⟩)
  | .failed fault => return .fail fault
  | .returned result =>
    match ← r.keep config result with
    | some fault => return .fail fault
    | none => conclude config subject result

/-- Ruff holds no state between runs; a session only fixes the configuration. -/
def opening (config : Path) : List SessionStep :=
  [.requireFile engineName config, .announce s!"Ruff session opened with {config}"]

def closing (config : Path) : List SessionStep :=
  [.announce s!"Ruff session closed for {config}"]

def session (r : Ruff) (config : Path) (runs : List (List Path × Completion)) : Session where
  engine := engineName
  config := config
  opening := opening config
  closing := closing config
  runs := runs.map fun (files, completion) => do
    Gate.record (.processed engineName config files)
    r.run config files completion

def engine (r : Ruff) (completion : Path → List Path → Completion) : Engine where
  name := engineName
  opening := opening
  closing := closing
  run := fun config files => r.run config files (completion config files)

end Ruff

end LintGate
