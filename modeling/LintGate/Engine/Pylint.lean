import LintGate.Engine

/-!
# The rule engine

Pylint runs in the process of the gate and keeps state there. Its sessions therefore take a lock
and clear its cache before they give the lock back. Each message is handed on as it is emitted; a
run that leaves by an exit status is a failure of its configuration.
-/

namespace LintGate

structure PylintMessage where
  symbol : String
  text : String
  path : String
  absolutePath : String
  line : Datum
  endLine : Datum
  deriving DecidableEq, Repr

/-- How a run ends: it returns, it leaves with a status, or it fails. -/
inductive PylintEnd
  | returned
  | exited (status : Datum)
  | failed (fault : Fault)
  deriving DecidableEq, Repr

structure PylintRun where
  messages : List PylintMessage
  ending : PylintEnd
  deriving DecidableEq, Repr

namespace Pylint

def engineName : String := "pylint"

/-- The symbols of messages about Pylint's own configuration. -/
def configSymbols : List String :=
  ["unrecognized-option", "unrecognized-inline-option", "unknown-option-value",
    "useless-option-value", "bad-option-value", "bad-plugin-value", "bad-configuration-section",
    "config-parse-error"]

/-- The symbols of messages about files that could not be analyzed at all. -/
def processingSymbols : List String :=
  ["syntax-error", "astroid-error", "fatal", "parse-error", "method-check-failed"]

/-- The finding that a message stands for. -/
def finding (m : PylintMessage) : Finding :=
  if configSymbols.contains m.symbol then .config ⟨m.text⟩
  else if processingSymbols.contains m.symbol then
    let file := if m.path = "" then m.absolutePath else m.path
    .processing ⟨.text file, .text m.text, s!" ({m.symbol})"⟩
  else .rule ⟨m.symbol, .text m.path, m.line, m.endLine, .text m.text⟩

def arguments (config : Path) (files : List Path) : List String :=
  [s!"--rcfile={config}", "--persistent=n", "--score=n", "--reports=n"] ++
    files.map Path.toString

/-- What a run comes to. -/
def emission (config : Path) (r : PylintRun) : Emission :=
  ⟨r.messages.map finding,
    match r.ending with
    | .returned => none
    | .exited status =>
      match status.render? with
      | some shown => some (.exited engineName shown config)
      | none => some .unwritable
    | .failed fault => some fault⟩

def run (config : Path) (files : List Path) (r : PylintRun) : Gate Emission := do
  Gate.record (.analyzed (arguments config files))
  return emission config r

/-- A configuration in TOML has to be well-formed: Pylint itself would fall back to its
defaults. -/
def opening (config : Path) : List SessionStep :=
  [.requireFile engineName config] ++
    (if config.suffix = ".toml" then [.requireToml engineName config] else []) ++
    [.lock, .announce s!"Pylint session opened with {config}"]

def closing (config : Path) : List SessionStep :=
  [.clearCache, .announce s!"Pylint session closed for {config}", .unlock]

def engine (runOf : Path → List Path → PylintRun) : Engine where
  name := engineName
  opening := opening
  closing := closing
  run := fun config files => run config files (runOf config files)

end Pylint

end LintGate
