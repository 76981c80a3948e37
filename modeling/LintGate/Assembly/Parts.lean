import LintGate.Assembly

/-!
# The parts of a gate by name

The parts of an assembled gate can be asked for by name, and a name can be given another value.
Whoever then needs the part finds a value that cannot do what is wanted of it. Only a table can do
a little: it lists its entries, as the engines do.
-/

namespace LintGate

inductive PartName
  | settings
  | telemetry
  | rawLog
  | engines
  | fixtures
  | checkVerifier
  | suiteVerifier
  | other (name : String)
  deriving DecidableEq, Repr

inductive Part
  | settings (s : Settings)
  | telemetry (t : Telemetry)
  | rawLog (l : RawLog)
  | engines (es : List (String × Engine))
  | fixtures (fs : Fixtures)
  | checkVerifier (r : Runner)
  | suiteVerifier (r : Runner)
  /-- A value that was registered under the name. -/
  | value (d : Datum)

/-- What stands under the name of an engine: the engine, or a value. -/
inductive Member
  | engine (e : Engine)
  | value (d : Datum)

def Member.engine? : Member → Except Fault Engine
  | .engine e => .ok e
  | .value d => .error (.noSuchPart d.typeName "name")

/-- An assembled gate, and the values that were registered since, the latest first. -/
structure Parts where
  assembly : Assembly
  registered : List (PartName × Datum)

namespace Parts

def ofAssembly (a : Assembly) : Parts := ⟨a, []⟩

def register (p : Parts) (name : PartName) (d : Datum) : Parts :=
  { p with registered := (name, d) :: p.registered }

def own (a : Assembly) : PartName → Except Fault Part
  | .settings => .ok (.settings a.settings)
  | .telemetry => .ok (.telemetry a.telemetry)
  | .rawLog => .ok (.rawLog a.rawLog)
  | .engines => .ok (.engines a.runner.engines)
  | .fixtures => .ok (.fixtures a.runner.fixtures)
  | .checkVerifier => .ok (.checkVerifier a.runner)
  | .suiteVerifier => .ok (.suiteVerifier a.runner)
  | .other name => .error (.notRegistered name)

def get (p : Parts) (name : PartName) : Except Fault Part :=
  match p.registered.lookup name with
  | some d => .ok (.value d)
  | none => own p.assembly name

/-- A part of the gate, unless a value that cannot do what is wanted has its name. -/
def use {α : Type} (p : Parts) (name : PartName) (wanted : String) (part : Assembly → α) :
    Except Fault α :=
  match p.registered.lookup name with
  | some d => .error (.noSuchPart d.typeName wanted)
  | none => .ok (part p.assembly)

def members (p : Parts) : Except Fault (List (String × Member)) :=
  match p.registered.lookup .engines with
  | none => .ok (p.assembly.runner.engines.map fun (name, engine) => (name, .engine engine))
  | some (.table entries) => .ok (entries.map fun (name, d) => (name, .value d))
  | some d => .error (.noSuchPart d.typeName "items")

/-- The members whose configuration file is set, with that file. Where there are members at all,
there have to be settings. -/
def inspectors (p : Parts) : Except Fault (List (Member × Path)) := do
  (← p.members).filterMapM fun (name, member) => do
    let settings ← p.use .settings "engine_config" (·.settings)
    return (← settings.engineConfig name).map (member, ·)

def engines (members : List (Member × Path)) : Except Fault (List (Engine × Path)) :=
  members.mapM fun (member, config) => member.engine?.map (·, config)

/-- Inspects files. Where there are some, there has to be someone to tell of it, before the engines
are asked for their names. -/
def inspect (p : Parts) (files : List Path) : Gate (Except Fault (List Violation)) := do
  match p.inspectors with
  | .error fault => return .error fault
  | .ok members =>
    if files.isEmpty then return .ok []
    match p.use .telemetry "step" (·.telemetry), engines members with
    | .ok _, .ok engines => Inspection.run engines files
    | .error fault, _ | .ok _, .error fault => return .error fault

def verifyViolating (p : Parts) (check : Check) : Gate (Except Fault Outcome) := do
  match p.use .checkVerifier "verify_violating" (·.runner) with
  | .error fault => return .error fault
  | .ok runner => runner.verifyViolating check

def verifyClean (p : Parts) (check : Check) : Gate (Except Fault Outcome) := do
  match p.use .checkVerifier "verify_clean" (·.runner) with
  | .error fault => return .error fault
  | .ok runner => runner.verifyClean check

def verifySuite (p : Parts) (registry : Registry) : Gate (Except Fault Report) := do
  match p.use .suiteVerifier "execute" (·.runner) with
  | .error fault => return .error fault
  | .ok runner => runner.verifySuite registry 1

end Parts

end LintGate
