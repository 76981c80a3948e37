import LintGate.Path
import LintGate.Text.Quoted

/-!
# File trees

A tree of directories and files, held as the list of its places, and the directory that relative
paths start from. Paths are followed name by name through existing directories, so that `..` leads
up only from a directory that is there. The tree has no links and no permissions: whoever asks may
see and open everything in it. Names and paths are limited in length, counted in bytes.
-/

namespace LintGate

inductive FileEntry
  | directory
  | file (content : List UInt8)
  deriving DecidableEq, Repr

/-- A place, as the names on the way from the root. -/
abbrev Place := List String

structure FileTree where
  /-- Everything but the root, which is always a directory. -/
  entries : List (Place × FileEntry)
  /-- Where relative paths start. -/
  working : Place
  deriving Repr

namespace FileTree

inductive Cause
  | notFound
  | alreadyExists
  | notDirectory
  | isDirectory
  | denied
  | nameTooLong
  | holdsNul
  deriving DecidableEq, Repr

structure Fault where
  cause : Cause
  path : String
  deriving DecidableEq, Repr

def Fault.message (f : Fault) : String :=
  let numbered (number : Nat) (what : String) := s!"[Errno {number}] {what}: {f.path.quoted}"
  match f.cause with
  | .notFound => numbered 2 "No such file or directory"
  | .denied => numbered 13 "Permission denied"
  | .alreadyExists => numbered 17 "File exists"
  | .notDirectory => numbered 20 "Not a directory"
  | .isDirectory => numbered 21 "Is a directory"
  | .nameTooLong => numbered 36 "File name too long"
  | .holdsNul => "embedded null byte"

def find? (t : FileTree) : Place → Option FileEntry
  | [] => some .directory
  | place => t.entries.lookup place

/-- Puts an entry at a place, over the one that is there or behind all others. -/
def put (t : FileTree) (place : Place) (entry : FileEntry) : FileTree :=
  let rec go : List (Place × FileEntry) → List (Place × FileEntry)
    | [] => [(place, entry)]
    | (p, e) :: rest => if p = place then (p, entry) :: rest else (p, e) :: go rest
  { t with entries := go t.entries }

/-- Takes a place and all places below it out of the tree. -/
def remove (t : FileTree) (place : Place) : FileTree :=
  { t with entries := t.entries.filter fun (p, _) => !place.isPrefixOf p }

/-- Puts a file or a directory at a place, with the directories above it. -/
def plant (t : FileTree) (place : Place) (entry : FileEntry) : FileTree :=
  let above := (List.range place.length).map (place.take ·)
  let open_ (t : FileTree) (p : Place) := if (t.find? p).isSome then t else t.put p .directory
  (above.foldl open_ t).put place entry

def nameLimit : Nat := 255

def pathLimit : Nat := 4095

/-- Why a path can name nothing, whatever is in the tree. -/
def refusal? (path : String) : Option Cause :=
  if path.toList.contains '\x00' then some .holdsNul
  else if path = "" then some .notFound
  else if pathLimit < path.utf8ByteSize then some .nameTooLong
  else none

/-- Follows names from a place where an entry stands, if any. Every place on the way must be a
directory, and the last one must be there. -/
def followFrom (t : FileTree) : Place → Option FileEntry → List String → Except Cause Place
  | place, _, [] => .ok place
  | place, some .directory, name :: rest =>
    if name = "." then followFrom t place (some .directory) rest
    else if name = ".." then followFrom t place.dropLast (t.find? place.dropLast) rest
    else if nameLimit < name.utf8ByteSize then .error .nameTooLong
    else
      match t.find? (place ++ [name]) with
      | some entry => followFrom t (place ++ [name]) (some entry) rest
      | none => .error .notFound
  | _, some (.file _), _ :: _ => .error .notDirectory
  | _, none, _ :: _ => .error .notFound

def follow (t : FileTree) (place : Place) (names : List String) : Except Cause Place :=
  t.followFrom place (t.find? place) names

/-- Where following a path begins, and the names in it. -/
def route (t : FileTree) (path : String) : Place × List String :=
  let names := ((Text.splitAt '/' path.toList).map String.ofList).filter (· != "")
  (if path.toList.head? = some '/' then [] else t.working, names)

/-- The names of a path, with a last `.` for a slash at the end: both ask for a directory. -/
def steps (path : String) (names : List String) : List String :=
  if path.toList.getLast? = some '/' then names ++ ["."] else names

def resolve (t : FileTree) (path : String) : Except Cause Place :=
  match refusal? path with
  | some cause => .error cause
  | none =>
    let (start, names) := t.route path
    match t.follow start (steps path names) with
    | .error cause => .error cause
    | .ok place => if (t.find? place).isSome then .ok place else .error .notFound

/-- What a path leads to, if anything. -/
def at? (t : FileTree) (path : String) : Option FileEntry :=
  match t.resolve path with
  | .ok place => t.find? place
  | .error _ => none

def contains (t : FileTree) (path : String) : Bool := (t.at? path).isSome

def isDirectory (t : FileTree) (path : String) : Bool := t.at? path == some .directory

/-- What a path leads to, if anything. Other than what is not there, a name that is too long cannot
be asked for. -/
def look (t : FileTree) (path : String) : Except Fault (Option FileEntry) :=
  match t.resolve path with
  | .ok place => .ok (t.find? place)
  | .error .nameTooLong => .error ⟨.nameTooLong, path⟩
  | .error _ => .ok none

def read (t : FileTree) (path : String) : Except Fault (List UInt8) :=
  match t.resolve path with
  | .error cause => .error ⟨cause, path⟩
  | .ok place =>
    match t.find? place with
    | some (.file content) => .ok content
    | some .directory => .error ⟨.isDirectory, path⟩
    | none => .error ⟨.notFound, path⟩

/-- The directory above what a path names, and its last name; `none` for the root itself. -/
def parent (t : FileTree) (path : String) : Except Cause (Option (Place × String)) :=
  match refusal? path with
  | some cause => .error cause
  | none =>
    let (start, names) := t.route path
    match names.getLast? with
    | none => .ok none
    | some last =>
      match t.follow start names.dropLast with
      | .error cause => .error cause
      | .ok place =>
        match t.find? place with
        | some .directory =>
          if nameLimit < last.utf8ByteSize then .error .nameTooLong else .ok (some (place, last))
        | some (.file _) => .error .notDirectory
        | none => .error .notFound

def makeDirectory (t : FileTree) (path : String) : Except Fault FileTree :=
  match t.parent path with
  | .error cause => .error ⟨cause, path⟩
  | .ok none => .error ⟨.alreadyExists, path⟩
  | .ok (some (place, last)) =>
    if last = "." || last = ".." || (t.find? (place ++ [last])).isSome then
      .error ⟨.alreadyExists, path⟩
    else .ok (t.put (place ++ [last]) .directory)

/-- Changes the content of a file, which is made, at first empty, if it is not there. -/
def change (t : FileTree) (path : String) (f : List UInt8 → List UInt8) : Except Fault FileTree :=
  match t.parent path with
  | .error cause => .error ⟨cause, path⟩
  | .ok none => .error ⟨.isDirectory, path⟩
  | .ok (some (place, last)) =>
    if last = "." || last = ".." then .error ⟨.isDirectory, path⟩
    else
      match t.find? (place ++ [last]) with
      | some .directory => .error ⟨.isDirectory, path⟩
      | some (.file content) => .ok (t.put (place ++ [last]) (.file (f content)))
      | none => .ok (t.put (place ++ [last]) (.file (f [])))

def append (t : FileTree) (path : String) (bytes : List UInt8) : Except Fault FileTree :=
  t.change path (· ++ bytes)

/-- Gives a file a content. -/
def overwrite (t : FileTree) (path : String) (bytes : List UInt8) : Except Fault FileTree :=
  t.change path fun _ => bytes

/-- Takes a file out of the tree. A slash at the end asks for a directory, which is none. -/
def delete (t : FileTree) (path : String) : Except Fault FileTree :=
  match t.parent path with
  | .error cause => .error ⟨cause, path⟩
  | .ok none => .error ⟨.isDirectory, path⟩
  | .ok (some (place, last)) =>
    if last = "." || last = ".." then .error ⟨.isDirectory, path⟩
    else
      match t.find? (place ++ [last]) with
      | some .directory => .error ⟨.isDirectory, path⟩
      | some (.file _) =>
        if path.toList.getLast? = some '/' then .error ⟨.notDirectory, path⟩
        else .ok (t.remove (place ++ [last]))
      | none => .error ⟨.notFound, path⟩

end FileTree

end LintGate
