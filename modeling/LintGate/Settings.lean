import LintGate.Datum.Convert

/-!
# Settings

The settings of a project, as the data that its configuration holds, and the directory that their
relative paths start from. Each setting is read on its own: a value of another type than the one
that is asked for gives way to the default, with a warning.
-/

namespace LintGate

structure Settings where
  data : Datum
  root : Path
  deriving DecidableEq, Repr

namespace Settings

def defaultFixturesRoot : String := "tests/fixtures/checks"

def defaultLogDirectory : String := ".quality-gate/logs"

def defaultRuffTimeout : Int := 300

def defaultWorkers : Int := 1

abbrev Advised (α : Type) := α × List String

/-- A path of the settings: a relative one lies under the root. -/
def resolve (s : Settings) (raw : String) : Path := s.root / Path.ofString raw

def textSetting (s : Settings) (key default : String) : Except Fault (Advised String) :=
  (s.data.get key (.text default)).map fun
    | .text value => (value, [])
    | _ =>
      (default, [s!"Configuration Warning: '{key}' must be a string, using {default.quoted}."])

def countSetting (s : Settings) (key : String) (default : Int) : Except Fault (Advised Int) :=
  let instead : Advised Int :=
    let shown := Text.Numeral.write default
    (default, [s!"Configuration Warning: '{key}' must be a positive integer, using {shown}."])
  (s.data.get key (.int default)).map fun
    | .int value => if 0 < value then (value, []) else instead
    | _ => instead

def pathSetting (s : Settings) (key default : String) : Except Fault (Advised Path) :=
  (s.textSetting key default).map fun (raw, warnings) => (s.resolve raw, warnings)

def fixturesRoot (s : Settings) : Except Fault (Advised Path) :=
  s.pathSetting "fixtures_root" defaultFixturesRoot

def logDirectory (s : Settings) : Except Fault (Advised Path) :=
  s.pathSetting "log_dir" defaultLogDirectory

def workers (s : Settings) : Except Fault (Advised Int) := s.countSetting "workers" defaultWorkers

/-- After how many seconds a run of Ruff is given up. -/
def ruffTimeout (s : Settings) : Except Fault (Advised Int) :=
  s.countSetting "ruff_timeout" defaultRuffTimeout

def texts (items : List Datum) : List String :=
  items.filterMap fun
    | .text name => some name
    | _ => none

/-- The names of the checks that a suite is narrowed to; none of them means every check. -/
def checks (s : Settings) : Except Fault (Advised (List String)) :=
  (s.data.get "checks" (.list [])).map fun
    | .list items => (texts items, [])
    | _ => ([], ["Configuration Warning: 'checks' must be a list of names, ignoring it."])

/-- The configuration file of an engine, if one is set. -/
def engineConfig (s : Settings) (engine : String) : Except Fault (Option Path) :=
  (s.data.get (engine ++ "_config") .null).map fun
    | .text raw => if raw = "" then none else some (s.resolve raw)
    | _ => none

end Settings

end LintGate
