import LintGate.CommandLine.Usage
import LintGate.Console.Plain
import LintGate.Console.Terminal
import LintGate.Recording

/-!
# The program

Runs the gate over the recording on standard input. Messages go to standard error and the report
to standard output; the exit status is that of the command.
-/

open LintGate

namespace LintGate.Program

partial def readAll (stream : IO.FS.Stream) (before : String) : IO String := do
  let line ← stream.getLine
  if line.isEmpty then return before else readAll stream (before ++ line)

def put (channel : Channel) (lines : List String) : IO Unit :=
  lines.forM fun line =>
    match channel with
    | .output => IO.println line
    | .error => IO.eprintln line

/-- Shows what came of a run, and gives its exit status. -/
def conclude (console : Console) (verbose : Bool) (ending : CommandLine.Ending)
    (state : GateState) : IO UInt32 := do
  let told := state.journal.flatMap ((Assembly.presentation verbose).printed console.escape)
  put .error (cautions state.journal)
  put Telemetry.channel (told.flatMap Printed.plain)
  put .output (ending.reported.flatMap Printed.plain)
  match ending.result with
  | .ok status => return status.toUInt32
  | .error fault =>
    put .error [fault.message]
    return CommandLine.failedStatus.toUInt32

end LintGate.Program

def main (arguments : List String) : IO UInt32 := do
  match Request.read arguments with
  | .error fault =>
    Program.put .error [fault.message]
    return CommandLine.usageStatus.toUInt32
  | .ok .help =>
    Program.put .output Request.usage
    return CommandLine.passedStatus.toUInt32
  | .ok (.verify options) =>
    match Recording.read (← Program.readAll (← IO.getStdin) "") with
    | .error _ =>
      Program.put .error ["The recording is not well-formed."]
      return CommandLine.usageStatus.toUInt32
    | .ok recording =>
      let (ending, state) :=
        (CommandLine.run recording.host .terminal Runner.verifySuite .default options).run
          (.start recording.files)
      Program.conclude .terminal options.verbose ending state
