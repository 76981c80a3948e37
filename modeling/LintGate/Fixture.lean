import LintGate.Expectation
import LintGate.FileTree.Required
import LintGate.Text.Utf8

/-!
# Fixtures

The fixture of a check is a directory under the fixture root, at the check's engine and name. It
holds the engine's configuration, the two samples and the expectations. `Fixtures.load` and the
accessors name the first part that is missing. As file trees have no permissions, nothing that is
there is kept from them but by the length of its path.
-/

namespace LintGate

structure Fixtures where
  root : Path
  deriving DecidableEq, Repr

/-- A fixture whose directory and configuration are there. -/
structure Fixture where
  name : String
  directory : Path
  config : Path
  deriving DecidableEq, Repr

namespace Fixture

def configName : String := "config.toml"

def expectationsName : String := "violations.txt"

def sampleSuffix : String := ".py"

def sample (f : Fixture) (stem : String) : Path :=
  f.directory / Path.ofString (stem ++ sampleSuffix)

def expectationsPath (f : Fixture) : Path := f.directory / Path.ofString expectationsName

/-- Where a sample lies, if it is there. -/
def samplePath (f : Fixture) (t : FileTree) (stem : String) : Except Fault Path :=
  let path := f.sample stem
  (t.requireFile path (.noSample f.name path)).map fun _ => path

def expectations (f : Fixture) (t : FileTree) : Except Fault (List Expectation) := do
  let path := f.expectationsPath
  t.requireFile path (.noExpectations f.name path)
  match t.read path.toString with
  | .error fault => .error (.file fault)
  | .ok bytes =>
    match Text.Utf8.decode bytes with
    | .error fault => .error (.undecodable fault)
    | .ok text => Expectation.parse (Text.unifyNewlines text) (some path.toString)

end Fixture

namespace Fixtures

def directory (fs : Fixtures) (check : Check) : Path :=
  fs.root / Path.ofString check.engine / Path.ofString check.name

def load (fs : Fixtures) (t : FileTree) (check : Check) : Except Fault Fixture := do
  let directory := fs.directory check
  let config := directory / Path.ofString Fixture.configName
  t.requireDirectory directory (.noFixture check directory)
  t.requireFile config (.noConfiguration check config)
  return ⟨check.name, directory, config⟩

end Fixtures

end LintGate
