import LintGate.Settings
import LintGate.Toml.Reader

/-!
# Finding the settings

The settings stand in a table of the project file in the starting directory, or in the nearest
directory above it that has such a file. A project file that cannot be opened is passed over; one
that cannot be read ends the search.
-/

namespace LintGate.Settings

def projectFile : String := "pyproject.toml"

/-- The table of the settings inside a document: nothing counts as an empty table. -/
def section? (document : Datum) : Except Fault Datum := do
  let tool := (← document.get "tool" (.table [])).orElse (.table [])
  return (← tool.get "quality-gate" (.table [])).orElse (.table [])

/-- Reads the settings out of a project file. -/
def ofDocument (bytes : List UInt8) : Except Fault Datum :=
  match Toml.load bytes with
  | .ok entries => section? (.table entries)
  | .error (.undecodable fault) => .error (.undecodable fault)
  | .error (.malformed fault) => .error (.malformedDocument fault)
  | .error (.numeral fault) => .error (.numeral fault)

/-- The settings in the first of some directories whose project file can be opened, and that
directory. -/
def searchIn (t : FileTree) : List Path → Except Fault (Datum × Option Path)
  | [] => .ok (.table [], none)
  | directory :: rest =>
    match t.look (directory / Path.ofString projectFile).toString with
    | .error fault => .error (.file fault)
    | .ok (some (.file bytes)) => (ofDocument bytes).map (·, some directory)
    | .ok _ => searchIn t rest

def workingDirectory (t : FileTree) : Path := ⟨1, t.working⟩

def absolute (t : FileTree) (start : Path) : Path :=
  ⟨1, Path.collapse (workingDirectory t / start).names⟩

/-- Whether a path can name a place at all: no name holds a NUL. -/
def isNameable (p : Path) : Bool := p.names.all (! ·.toList.contains '\x00')

def search (t : FileTree) (start : Option Path) : Except Fault (Datum × Option Path) :=
  let whole := start.getD (workingDirectory t)
  if isNameable whole then searchIn t (absolute t whole).ancestors
  else .error (.file ⟨.holdsNul, whole.toString⟩)

/-- Settings whose root is the working directory unless another one is known. -/
def rooted (t : FileTree) (data : Datum) (root : Option Path) : Settings :=
  ⟨data, root.getD (workingDirectory t)⟩

def load (t : FileTree) : Except Fault Settings :=
  (search t none).map fun (data, root) => rooted t data root

end LintGate.Settings
