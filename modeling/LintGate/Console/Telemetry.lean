import LintGate.Console.Printed
import LintGate.Journal

/-!
# Telemetry

The events of a run that people watch, as the console shows them and as the log keeps them.
Messages carry file names and what engines say, so they are shown as they are; only what is put
around them is markup.
-/

namespace LintGate

/-- How a gate presents itself. -/
structure Telemetry where
  project : String
  color : String
  welcome : String
  verbose : Bool
  deriving DecidableEq, Repr

inductive LogLevel
  | debug
  | info
  | warning
  | error
  deriving DecidableEq, Repr

namespace Telemetry

def channel : Channel := .error

def art : List String := [
  r"   ____              ___ __           ______      __",
  r"  / __ \__  ______ _/ (_) /___  __   / ____/___ _/ /____",
  r" / / / / / / / __ `/ / / __/ / / /  / / __/ __ `/ __/ _ \",
  r"/ /_/ / /_/ / /_/ / / / /_/ /_/ /  / /_/ / /_/ / /_/  __/",
  r"\___\_\__,_/\__,_/_/_/\__/\__, /   \____/\__,_/\__/\___/",
  r"                         /____/"]

def banner : String := "\x1b[32m\n" ++ "\n".intercalate art ++ "\n\x1b[0m"

variable (escape : String → String)

def welcomeLine (t : Telemetry) : String :=
  let tag := escape ("[" ++ t.project ++ "]")
  s!"[bold {t.color}]{tag}[/] {escape t.welcome}"

/-- A message between what shows its level. -/
def decorated (t : Telemetry) (level : Level) (message : String) : String :=
  match level with
  | .step => s!"[{t.color}]>[/] {escape message}"
  | .warning => s!"[yellow]! {escape message}[/]"
  | .error => s!"[bold red]x {escape message}[/]"
  | .debug => s!"[dim]{escape message}[/]"

def shows (t : Telemetry) (level : Level) : Bool := level != .debug || t.verbose

/-- What the console shows of an event. -/
def printed (t : Telemetry) : Event → List Printed
  | .greeted => [.line banner false false, .line (t.welcomeLine escape) true true]
  | .told level message =>
    if t.shows level then [.marked (t.decorated escape level message)] else []
  | _ => []

def logLevel : Level → LogLevel
  | .step => .info
  | .warning => .warning
  | .error => .error
  | .debug => .debug

/-- What the log keeps of an event. -/
def logged (t : Telemetry) : Event → List (LogLevel × String)
  | .greeted => [(.info, s!"{t.project}: {t.welcome}")]
  | .told level message => [(logLevel level, message)]
  | _ => []

end Telemetry

end LintGate
