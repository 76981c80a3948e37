import LintGate.Calendar
import LintGate.FileTree.Directories
import LintGate.Text.Upper
import LintGate.Text.Utf8

/-!
# Raw logs

Every run of an engine's process is kept as it was: one entry in the log of the engine, a framed
header and then each stream that is not empty, under its name and with a newline at its end.
-/

namespace LintGate

structure RawLog where
  directory : String
  deriving DecidableEq, Repr

namespace RawLog

def pathFor (log : RawLog) (engine : String) : String :=
  let name := "raw_" ++ engine ++ ".log"
  if log.directory = "" || log.directory.toList.getLast? = some '/' then log.directory ++ name
  else log.directory ++ "/" ++ name

def rule : String := String.ofList (List.replicate 60 '=')

def header (now : Instant) (engine : String) (config : String) : String :=
  let title := String.ofList (Text.upper engine.toList)
  s!"[{Instant.stamp now}] {title} raw output" ++
    (if config = "" then "" else s!" (config: {config})")

/-- One stream of a run; nothing where the stream is empty. -/
def stream (label text : String) : String :=
  if text = "" then ""
  else s!"--- {label} ---\n{text}" ++ (if text.toList.getLast? = some '\n' then "" else "\n")

def entry (now : Instant) (engine stdout stderr config : String) : String :=
  s!"\n{rule}\n{header now engine config}\n{rule}\n" ++ stream "stdout" stdout ++
    stream "stderr" stderr

/-- Adds a run to the log of an engine, in a directory that is made if it is not there. -/
def append (log : RawLog) (t : FileTree) (now : Instant) (engine stdout stderr config : String) :
    FileTree × Option FileTree.Fault :=
  match t.makeDirectories log.directory.toList with
  | (made, some fault) => (made, some fault)
  | (made, none) =>
    let bytes := Text.Utf8.encode (entry now engine stdout stderr config).toList
    match made.append (log.pathFor engine) bytes with
    | .ok written => (written, none)
    | .error fault => (made, some fault)

end RawLog

end LintGate
