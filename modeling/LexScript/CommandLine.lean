import LexScript.Session
import LexScript.Program.Printer
import LexScript.Program.Outline

/-!
# The command line

A command names what to do and the file to do it with. What it writes and the code it exits
with depend only on the content of the file, or on the lines it is given, and on the clock;
a file that cannot be read has a report of its own. A command without a file does nothing
and says so. Errors are written apart from the output.

The prompt runs each line in the same session, whatever became of the lines before, and ends
with the input.

## Main definitions

* `Command`, `Command.ofArguments?` : the commands.
* `Report` : output, errors and exit code.
* `Command.report` : what a command does with a source.
* `promptLine`, `promptReport` : what the prompt does with a line and with all lines.
-/

namespace LexScript

/-- What to do with a file. -/
inductive FileTask where
  | tokenize
  | parse
  /-- Parses and writes the tree as data. -/
  | outline
  | run
deriving DecidableEq

/-- What a command line asks for. -/
inductive Command where
  | onFile (task : FileTask) (file : Option String)
  | prompt
deriving DecidableEq

/-- Why a file has no source. -/
inductive FileFault where
  | missing
  | isDirectory
  | invalidText
  /-- Another reason, in the words of the system. -/
  | refused (reason : String)
deriving DecidableEq

/-- What a command writes, and the code it exits with. -/
structure Report where
  exitCode : Nat
  output : String
  errors : String
deriving DecidableEq

/-- The options and the other words among arguments; behind two dashes there are only words. -/
def splitOptions : List String → List String × List String
  | [] => ([], [])
  | argument :: rest =>
    if argument = "--" then ([], rest)
    else
      let (options, words) := splitOptions rest
      if argument = "--log" ∨ argument = "--json" then (argument :: options, words)
      else (options, argument :: words)

/-- The command that arguments stand for; a request for a log changes nothing. -/
def Command.ofArguments? (arguments : List String) : Option Command :=
  let (options, words) := splitOptions arguments
  match words with
  | "tokenize" :: files => some (.onFile .tokenize files.head?)
  | "parse" :: files =>
    some (.onFile (if options.contains "--json" then .outline else .parse) files.head?)
  | "run" :: files => some (.onFile .run files.head?)
  | "repl" :: _ => some .prompt
  | _ => none

/-- What was being done to a file when it failed, and the reason. -/
def FileFault.explanation : FileFault → String × String
  | missing => ("open", "No such file or directory (os error 2)")
  | isDirectory => ("read", "Is a directory (os error 21)")
  | invalidText => ("read", "stream did not contain valid UTF-8")
  | refused reason => ("open", reason)

/-- The report on a file that cannot be read. -/
def FileFault.report (fault : FileFault) (file : String) : Report :=
  let (action, reason) := fault.explanation
  { exitCode := 1
    output := ""
    errors :=
      "Error: Failed to " ++ action ++ " file " ++ Text.quote file ++ "\n\nCaused by:\n    " ++
        reason ++ "\n" }

/-- The report on a command without a file. -/
def noFileReport : Report := ⟨0, "No input filepath was provided. Exiting...\n", ""⟩

/-- Each text on lines of its own. -/
def asLines (texts : List String) : String := String.join (texts.map (· ++ "\n"))

/-- Diagnostics as they are written. -/
def writeDiagnostics (ds : List Diagnostic) : String := asLines (ds.map Diagnostic.display)

/-- Lists the tokens of a source. -/
def tokenizeReport (source : String) : Report :=
  let items := scan source
  let errors := Item.errors items
  { exitCode := if errors.isEmpty then 0 else 65
    output := asLines ((Item.tokens items).map (·.kind.display))
    errors := writeDiagnostics (errors.map .lex) }

/-- Reads a program and shows it. -/
def programReport (shown : List Stmt → String) (source : String) : Report :=
  let reading := readSource 0 source
  if reading.errors.isEmpty then ⟨0, shown reading.program ++ "\n", ""⟩
  else
    let outcome := Outcome.rejected reading.errors
    ⟨outcome.exitCode, "", writeDiagnostics outcome.errors⟩

/-- Runs a source in a session: what it writes, the errors, and how it ends. -/
def runReported (source : String) (s : Session) : Report × Session :=
  let (outcome, s) := s.run Session.defaultTurns source
  let (output, s) := s.takeOutput
  (⟨outcome.exitCode, output, writeDiagnostics outcome.errors⟩, s)

/-- What a task does with a source. -/
def FileTask.report (task : FileTask) (clock : Clock) (source : String) : Report :=
  match task with
  | tokenize => tokenizeReport source
  | parse => programReport printProgram source
  | outline => programReport (fun program ↦ (outlineProgram program).write 0) source
  | run => (runReported source (.start .unlimited clock)).1

/-! ## The prompt -/

/-- What asks for a line. -/
def promptText : String := "> "

/-- The lines of an input without their ends; an end is a newline, perhaps after a carriage
return. -/
def inputLines (input : String) : List String :=
  let rec split : List Char → List (List Char)
    | [] => []
    | c :: cs =>
      if c = '\n' then [] :: split cs
      else
        match split cs with
        | [] => [[c]]
        | line :: lines => (c :: line) :: lines
  (split input.toList).map fun line ↦
    String.ofList (if line.getLast? = some '\r' then line.dropLast else line)

/-- Runs one line at the prompt. -/
def promptLine (line : String) (s : Session) : Report × Session := runReported line s

/-- Runs all lines at the prompt, after what was written before. -/
def promptLines : List String → Report → Session → Report
  | [], before, _ => { before with output := before.output ++ promptText ++ "\n" }
  | line :: lines, before, s =>
    let (report, s) := promptLine line s
    promptLines lines
      { before with
        output := before.output ++ promptText ++ report.output
        errors := before.errors ++ report.errors }
      s

/-- What the prompt does with an input. -/
def promptReport (clock : Clock) (input : String) : Report :=
  promptLines (inputLines input) ⟨0, "", ""⟩ (.start .unlimited clock)

/-- What a command does, given the content of its file and the input. -/
def Command.report (command : Command) (clock : Clock)
    (content : String → Except FileFault String) (input : String) : Report :=
  match command with
  | .onFile _ none => noFileReport
  | .onFile task (some file) =>
    match content file with
    | .ok source => task.report clock source
    | .error fault => fault.report file
  | .prompt => promptReport clock input

end LexScript
