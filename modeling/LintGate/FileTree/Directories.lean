import LintGate.FileTree

/-!
# Making directories along a path

A directory is made together with those above it that are not there, as is the directory of a file
to be written. What was made stays when a later step fails, so the tree is given back with the
fault.
-/

namespace LintGate.FileTree

/-- What stands before the last slash of a path, without slashes at its end unless it has nothing
else, and what stands behind it. -/
def splitLast (path : List Char) : List Char × List Char :=
  let tail := (path.reverse.takeWhile (· != '/')).reverse
  let front := path.reverse.dropWhile (· != '/')
  let head := front.dropWhile (· == '/')
  (if head.isEmpty then front.reverse else head.reverse, tail)

def splitDirectory (path : List Char) : List Char × List Char :=
  if (splitLast path).2.isEmpty then splitLast (splitLast path).1 else splitLast path

theorem length_splitLast (path : List Char) :
    (splitLast path).1.length + (splitLast path).2.length ≤ path.length := by
  have whole : (path.reverse.takeWhile (· != '/')).length +
      (path.reverse.dropWhile (· != '/')).length = path.length := by
    rw [← List.length_append, List.takeWhile_append_dropWhile, List.length_reverse]
  have head : ((path.reverse.dropWhile (· != '/')).dropWhile (· == '/')).length ≤
      (path.reverse.dropWhile (· != '/')).length := (List.dropWhile_sublist _).length_le
  simp only [splitLast, List.length_reverse]
  split
  · rw [List.length_reverse]; omega
  · rw [List.length_reverse]; omega

theorem length_splitDirectory (path : List Char) :
    (splitDirectory path).1.length + (splitDirectory path).2.length ≤ path.length := by
  have outer := length_splitLast path
  have inner := length_splitLast (splitLast path).1
  simp only [splitDirectory]
  split <;> omega

/-- Makes one directory, unless it is already there. -/
def ensureDirectory (t : FileTree) (path : String) : FileTree × Option Fault :=
  match t.makeDirectory path with
  | .ok made => (made, none)
  | .error fault => (t, if t.isDirectory path then none else some fault)

def makeDirectories (t : FileTree) (path : List Char) : FileTree × Option Fault :=
  let head := (splitDirectory path).1
  let tail := (splitDirectory path).2
  if _h : head ≠ [] ∧ tail ≠ [] ∧ !t.contains (String.ofList head) then
    match makeDirectories t head with
    | (made, none) =>
      if tail = ['.'] then (made, none) else made.ensureDirectory (String.ofList path)
    | (made, some fault) =>
      if fault.cause = .alreadyExists then
        if tail = ['.'] then (made, none) else made.ensureDirectory (String.ofList path)
      else (made, some fault)
  else t.ensureDirectory (String.ofList path)
termination_by path.length
decreasing_by
  have bound := length_splitDirectory path
  have named : 0 < (splitDirectory path).2.length := List.length_pos_iff.2 _h.2.1
  omega

/-- Makes a directory and those above it, where the path is in normal form. Only a directory that is
found to be missing is made first. -/
def establish (t : FileTree) (path : Path) : FileTree × Option Fault :=
  match t.makeDirectory path.toString with
  | .ok made => (made, none)
  | .error fault =>
    if _h : fault.cause = .notFound ∧ path.names ≠ [] then
      match establish t path.parent with
      | (made, none) => made.ensureDirectory path.toString
      | failed => failed
    else (t, if t.isDirectory path.toString then none else some fault)
termination_by path.names.length
decreasing_by
  have := List.length_pos_iff.2 _h.2
  simp only [Path.parent, List.length_dropLast]
  omega

def write (t : FileTree) (path : Path) : FileEntry → FileTree × Option Fault
  | .directory => t.establish path
  | .file content =>
    match t.establish path.parent with
    | (made, some fault) => (made, some fault)
    | (made, none) =>
      match made.overwrite path.toString content with
      | .ok written => (written, none)
      | .error fault => (made, some fault)

end LintGate.FileTree
