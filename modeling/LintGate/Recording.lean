import LintGate.Assembly
import LintGate.Json.Reader

/-!
# Recordings

A recording holds everything that a run of the gate depends on: the files of the project, the
working directory among them, the time, and how the engines' runs go, each under the list of its
files. It is written as one JSON document:

* `files` gives each path a text, or anything else for a directory;
* `directory` is the working directory;
* `now` is the time in seconds since the start of 1970;
* `ruff` gives lists of files a run with `status`, `stdout` and `stderr`, or with the `ending`
  `not found`, `timed out` or `denied`;
* `pylint` gives lists of files a run with its `messages`, each with `symbol`, `text`, `path`,
  `line` and `endLine`, and the `status` it left with, if it left early.

What is missing is empty, and an engine that has nothing to say is clean.
-/

namespace LintGate

structure Recording where
  files : FileTree
  host : Host

namespace Recording

def part (d : Datum) (key : String) : Datum :=
  match d.get key .null with
  | .ok value => value
  | .error _ => .null

def text (d : Datum) (default : String) : String :=
  match d with
  | .text s => s
  | _ => default

def integer? (d : Datum) : Option Int :=
  match d with
  | .int n => some n
  | _ => none

def entries (d : Datum) : List (String × Datum) :=
  match d with
  | .table es => es
  | _ => []

def items (d : Datum) : List Datum :=
  match d with
  | .list l => l
  | _ => []

def place (path : String) : Place := Path.collapse (Path.ofString path).names

def fileEntry (d : Datum) : FileEntry :=
  match d with
  | .text s => .file (Text.Utf8.encode s.toList)
  | _ => .directory

/-- The files of a recording; the working directory is always there. -/
def fileTree (d : Datum) : FileTree :=
  let working := place (text (part d "directory") "")
  let opened := (⟨[], working⟩ : FileTree)
  let start := if working.isEmpty then opened else opened.plant working .directory
  let plant (t : FileTree) (file : String × Datum) := t.plant (place file.1) (fileEntry file.2)
  (entries (part d "files")).foldl plant start

/-- A run with a status; one that is out of range is an overflow. -/
def returned (status : Int) (stdout stderr : String) : Completion :=
  if h : status.natAbs < ProcessResult.statusBound then .returned ⟨status, stdout, stderr, h⟩
  else .failed (.raised .overflow "The status is out of range.")

def completion (d : Datum) : Completion :=
  match part d "ending" with
  | .text "not found" => .notFound
  | .text "timed out" => .timedOut
  | .text "denied" => .denied
  | _ =>
    returned ((integer? (part d "status")).getD 0) (text (part d "stdout") "")
      (text (part d "stderr") "")

def message (d : Datum) : PylintMessage where
  symbol := text (part d "symbol") ""
  text := text (part d "text") ""
  path := text (part d "path") ""
  absolutePath := text (part d "absolutePath") ""
  line :=
    match part d "line" with
    | .null => .int 1
    | line => line
  endLine := part d "endLine"

def pylintRun (d : Datum) : PylintRun where
  messages := (items (part d "messages")).map message
  ending :=
    match part d "status" with
    | .null => .returned
    | status => .exited status

def ofDatum (d : Datum) : Recording where
  files := fileTree d
  host := {
    now := (integer? (part d "now")).getD 0
    ruffRun := fun _ files => completion (part (part d "ruff") (Path.listing files))
    pylintRun := fun _ files => pylintRun (part (part d "pylint") (Path.listing files)) }

def read (document : String) : Except Json.Refusal Recording :=
  (Json.read document.toList).map ofDatum

end Recording

end LintGate
