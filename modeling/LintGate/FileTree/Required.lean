import LintGate.Fault

/-!
# What has to be there

A file or a directory that is needed at a path. Its absence is a fault of whoever needs it; that
the path cannot be asked for is a fault of the tree.
-/

namespace LintGate.FileTree

/-- Needs an entry of some kind at a path. -/
def require (t : FileTree) (path : Path) (suits : FileEntry → Bool) (absent : LintGate.Fault) :
    Except LintGate.Fault Unit :=
  match t.look path.toString with
  | .error fault => .error (.file fault)
  | .ok none => .error absent
  | .ok (some entry) => if suits entry then .ok () else .error absent

def requireFile (t : FileTree) (path : Path) (absent : LintGate.Fault) :
    Except LintGate.Fault Unit :=
  t.require path (· != .directory) absent

def requireDirectory (t : FileTree) (path : Path) (absent : LintGate.Fault) :
    Except LintGate.Fault Unit :=
  t.require path (· == .directory) absent

end LintGate.FileTree
