import Std.Time.DateTime.Timestamp
import LexScript.CommandLine

/-!
# The program

Reads the arguments, the file and the input, and writes reports. All decisions are made by
`LexScript.CommandLine`.
-/

namespace LexScript

/-- The time by the clock of the host, since the start of 1970. -/
def hostClock : IO Clock := do
  let t ← Std.Time.Timestamp.now
  let nanoseconds := t.toNanosecondsSinceUnixEpoch.val
  if nanoseconds < 0 then
    pure (.broken "Clock error: second time provided was later than self")
  else
    pure (.running (nanoseconds.toNat / 1000))

/-- The text of a file. -/
def readContent (file : String) : IO (Except FileFault String) := do
  try
    let bytes ← IO.FS.readBinFile file
    match String.fromUTF8? bytes with
    | some text => pure (.ok text)
    | none => pure (.error .invalidText)
  catch e =>
    match e with
    | .noFileOrDirectory .. => pure (.error .missing)
    | .inappropriateType .. => pure (.error .isDirectory)
    | e => pure (.error (.refused e.toString))

/-- Writes a report. -/
def writeReport (report : Report) : IO Unit := do
  IO.print report.output
  (← IO.getStdout).flush
  IO.eprint report.errors

/-- Asks for lines and runs them until the input ends. -/
partial def promptLoop (s : Session) : IO Unit := do
  IO.print promptText
  (← IO.getStdout).flush
  let raw ← (← IO.getStdin).getLine
  if raw.isEmpty then
    IO.println ""
  else
    let (report, s) := promptLine (String.join (inputLines raw)) s
    writeReport report
    promptLoop s

/-- Runs a command and yields its exit code. -/
def runCommand (command : Command) : IO UInt32 := do
  let clock ← hostClock
  match command with
  | .prompt =>
    promptLoop (.start .unlimited clock)
    pure 0
  | .onFile _ none =>
    writeReport noFileReport
    pure 0
  | .onFile task (some file) =>
    let content ← readContent file
    let report :=
      match content with
      | .ok source => task.report clock source
      | .error fault => fault.report file
    writeReport report
    pure report.exitCode.toUInt32

end LexScript

/-- Runs the command that the arguments stand for. -/
def main (arguments : List String) : IO UInt32 :=
  match LexScript.Command.ofArguments? arguments with
  | some command => LexScript.runCommand command
  | none => do
    IO.eprintln "usage: (tokenize | parse [--json] | run) FILE | repl"
    pure 2
