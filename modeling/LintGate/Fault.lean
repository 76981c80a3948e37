import LintGate.Check
import LintGate.Datum.Render
import LintGate.FileTree
import LintGate.Text.Utf8
import LintGate.Toml.Fault

/-!
# Faults

Everything that can go wrong below the command line, as its cause. A gate fault is fatal to one
check only, whose outcome records it; any other fault ends the run. `Fault.message` holds the
wording of them all.
-/

namespace LintGate

inductive FaultKind
  | gate
  | fixture
  | expectation
  | unknownEngine
  | unknownCheck
  | configuration
  | runtime
  | value
  | type
  | attribute
  | absentEntry
  | overflow
  | decoding
  | document
  | markup
  | notFound
  | permission
  | alreadyExists
  | notDirectory
  | isDirectory
  | nameTooLong
  deriving DecidableEq, Repr

/-- Whether the faults of a family are fatal to one check only. -/
def FaultKind.isGate : FaultKind → Bool
  | .gate | .fixture | .expectation | .unknownEngine | .unknownCheck | .configuration => true
  | _ => false

inductive Fault
  /-- A check has no fixture directory. -/
  | noFixture (check : Check) (directory : Path)
  /-- A fixture has no engine configuration. -/
  | noConfiguration (check : Check) (path : Path)
  | noSample (fixture : String) (path : Path)
  | noExpectations (fixture : String) (path : Path)
  /-- A line of an expectations file has no position in front of a colon. -/
  | malformedExpectation (number : Int) (line : String) (source : Option String)
  | unknownEngine (check : Check)
  | unknownCheck (name : String) (known : List String)
  /-- An engine's configuration file is not there. -/
  | configurationNotFound (engine : String) (path : Path)
  | malformedConfiguration (engine : String) (path : Path) (fault : Toml.Fault)
  /-- An engine left with a status in the middle of a run. -/
  | exited (engine status : String) (path : Path)
  /-- An engine failed in its own way. -/
  | raised (kind : FaultKind) (message : String)
  /-- The listener was given something that is no finding. -/
  | foreignFinding (typeName : String)
  /-- A text was to be added to something that is no text. -/
  | notAppendable (typeName : String)
  | numeral (fault : Text.Numeral.Fault)
  /-- An integer has too long a numeral to be written. -/
  | unwritable
  /-- A number without a whole part: an infinity, or no number at all. -/
  | noWholePart (infinite : Bool)
  | notANumber (typeName : String)
  /-- An entry was asked of something that is no table. -/
  | notATable (typeName : String)
  | notOrdered (left right : String)
  | notHashable (typeName : String)
  | undecodable (fault : Text.Utf8.Fault)
  | malformedDocument (fault : Toml.Fault)
  | file (fault : FileTree.Fault)
  /-- A part was asked for under a name that nothing is registered under. -/
  | notRegistered (key : String)
  /-- A part was asked for something that it does not have. -/
  | noSuchPart (typeName wanted : String)
  /-- A table has no entry under a name. -/
  | noEntry (name : String)
  /-- An entry was asked by its name of something whose entries have none. -/
  | notKeyed (typeName : String)
  deriving DecidableEq, Repr

namespace Fault

def kind : Fault → FaultKind
  | noFixture .. | noConfiguration .. | noSample .. | noExpectations .. => .fixture
  | malformedExpectation .. => .expectation
  | unknownEngine .. => .unknownEngine
  | unknownCheck .. => .unknownCheck
  | configurationNotFound .. | malformedConfiguration .. | exited .. => .configuration
  | raised kind _ => kind
  | foreignFinding _ | notAppendable _ | notANumber _ | notOrdered .. | notHashable _
  | notKeyed _ => .type
  | noEntry _ => .absentEntry
  | numeral _ | unwritable | notRegistered _ => .value
  | noWholePart infinite => if infinite then .overflow else .value
  | notATable _ | noSuchPart .. => .attribute
  | undecodable _ => .decoding
  | malformedDocument _ => .document
  | file fault =>
    match fault.cause with
    | .notFound => .notFound
    | .alreadyExists => .alreadyExists
    | .notDirectory => .notDirectory
    | .isDirectory => .isDirectory
    | .nameTooLong => .nameTooLong
    | .denied => .permission
    | .holdsNul => .value

def isGate (f : Fault) : Bool := f.kind.isGate

def notKeyedMessage : String → String
  | "str" => "string indices must be integers, not 'str'"
  | "list" => "list indices must be integers or slices, not str"
  | typeName => s!"'{typeName}' object is not iterable"

/-- At most this many characters of a quoted text are shown where a numeral was expected. -/
def shownNumeral : Nat := 200

/-- What is said of a numeral that is too long. -/
def tooLongMessage (detail : String) : String :=
  s!"Exceeds the limit ({Text.Numeral.limit} digits) for integer string conversion{detail}; " ++
    "use sys.set_int_max_str_digits() to increase the limit"

def numeralMessage : Text.Numeral.Fault → String
  | .malformed text =>
    "invalid literal for int() with base 10: " ++
      String.ofList ((Text.quote text).take shownNumeral)
  | .tooLong digits => tooLongMessage s!": value has {digits} digits"

def expectationPlace (number : Int) (source : Option String) : String :=
  match source with
  | none | some "" => "line " ++ Text.Numeral.write number
  | some source => source ++ ":" ++ Text.Numeral.write number

def title (engine : String) : String :=
  match engine.toList with
  | [] => ""
  | c :: rest => String.ofList (c.toUpper :: rest)

def message : Fault → String
  | noFixture check directory => s!"Fixture directory not found for {check}: {directory}"
  | noConfiguration check path => s!"Configuration not found for {check}: {path}"
  | noSample fixture path => s!"Sample not found for {fixture}: {path}"
  | noExpectations fixture path => s!"Expectations not found for {fixture}: {path}"
  | malformedExpectation number line source =>
    s!"Malformed expectation at {expectationPlace number source}: {line.quoted}"
  | unknownEngine check =>
    s!"No analyzer registered for engine '{check.engine}' (check {check.name})"
  | unknownCheck name known =>
    s!"Unknown check '{name}'. Known checks: " ++ ", ".intercalate known
  | configurationNotFound engine path => s!"{title engine} configuration not found: {path}"
  | malformedConfiguration engine path fault =>
    s!"Malformed {engine} configuration {path}: {fault.message}"
  | exited engine status path =>
    s!"{title engine} exited with status {status} using configuration {path}"
  | raised _ message => message
  | foreignFinding typeName => s!"Unsupported finding type: {typeName}"
  | notAppendable typeName =>
    if typeName = "list" then "can only concatenate list (not \"str\") to list"
    else s!"unsupported operand type(s) for +: '{typeName}' and 'str'"
  | numeral fault => numeralMessage fault
  | unwritable => tooLongMessage ""
  | noWholePart infinite =>
    if infinite then "cannot convert float infinity to integer"
    else "cannot convert float NaN to integer"
  | notANumber typeName =>
    "int() argument must be a string, a bytes-like object or a real number, not " ++
      s!"'{typeName}'"
  | notATable typeName => s!"'{typeName}' object has no attribute 'get'"
  | notOrdered left right => s!"'<' not supported between instances of '{left}' and '{right}'"
  | notHashable typeName => s!"unhashable type: '{typeName}'"
  | undecodable fault => fault.message
  | malformedDocument fault => fault.message
  | file fault => fault.message
  | notRegistered key => s!"Dependency '{key}' not registered."
  | noSuchPart typeName wanted => s!"'{typeName}' object has no attribute '{wanted}'"
  | noEntry name => name.quoted
  | notKeyed typeName => notKeyedMessage typeName

end Fault

end LintGate
