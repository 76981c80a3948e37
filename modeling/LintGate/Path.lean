import LintGate.Text.Lines

/-!
# Paths

A path is kept in normal form: its root, and its names without empty and `.` segments. The
segment `..` is a name like any other, since only a file tree can tell what it leads to. Two
leading slashes are a root of their own; three or more count as one.
-/

namespace LintGate

structure Path where
  /-- How many slashes the path starts with: none, one or two. -/
  slashes : Nat
  names : List String
  deriving DecidableEq, Repr, Inhabited

namespace Path

def rootSlashes (leading : Nat) : Nat := if leading ≤ 2 then leading else 1

/-- The names in a text between its slashes, the empty ones and `.` left out. -/
def segments (s : List Char) : List String :=
  ((Text.splitAt '/' s).map String.ofList).filter fun name => name != "" && name != "."

def ofString (s : String) : Path :=
  ⟨rootSlashes (s.toList.takeWhile (· == '/')).length, segments s.toList⟩

/-- The path as a text. The path without root and names is written as one point. -/
def toString (p : Path) : String :=
  if p.slashes = 0 && p.names.isEmpty then "."
  else String.ofList (List.replicate p.slashes '/') ++ "/".intercalate p.names

instance : ToString Path := ⟨toString⟩

def isAbsolute (p : Path) : Bool := p.slashes != 0

/-- The second path as seen from the first: an absolute one is taken as it is. -/
def join (p q : Path) : Path := if q.isAbsolute then q else ⟨p.slashes, p.names ++ q.names⟩

instance : HDiv Path Path Path := ⟨join⟩

def parent (p : Path) : Path := ⟨p.slashes, p.names.dropLast⟩

/-- The last name of a path, empty if there is none. -/
def name (p : Path) : String := (p.names.getLast?).getD ""

/-- The last name from its last point on; empty if that point starts or ends the name. -/
def suffix (p : Path) : String :=
  let chars := p.name.toList
  let ending := (chars.reverse.takeWhile (· != '.')).reverse
  if ending.length + 1 < chars.length && !ending.isEmpty then
    String.ofList ('.' :: ending)
  else ""

def listing (paths : List Path) : String := ", ".intercalate (paths.map toString)

/-- The names with every `..` and the name before it cancelled; at the root `..` stays there. -/
def collapse (names : List String) : List String :=
  (names.foldl (fun back name => if name == ".." then back.tail else name :: back) []).reverse

/-- The path itself and the paths above it, deepest first. -/
def ancestors (p : Path) : List Path :=
  (List.range (p.names.length + 1)).map fun n => ⟨p.slashes, p.names.take (p.names.length - n)⟩

end Path

end LintGate
