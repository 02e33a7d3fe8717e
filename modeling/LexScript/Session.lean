import LexScript.Evaluation
import LexScript.Program.Parser
import LexScript.Token.Scan

/-!
# Sessions

A session runs one source after another on the same machine, so that a later source sees
what an earlier one has declared. A source with an error that shows without running it is
rejected: all lexical errors and then all errors of the parser are reported, and those of
name resolution only if there are none of these. A rejected source is not run at all.

Ids go on from source to source. What name resolution finds is recorded also for a source
that it rejects; since its ids are never used again, nothing reads these records.

## Main definitions

* `Session`, `Session.run` : the state between sources, and running one.
* `Outcome` : how a run ends.
* `Session.evaluateExpression` : the value of an expression whose names are all global.
-/

namespace LexScript

/-- A source read without running it. -/
structure Reading where
  /-- The errors of all phases up to the parser, in the order in which they are reported. -/
  errors : List Diagnostic
  program : List Stmt
  /-- The next unused id. -/
  nextId : Nat

/-- Scans and parses a source, giving out ids from `firstId` on. -/
def readSource (firstId : Nat) (source : String) : Reading :=
  let items := scan source
  let parsed := parse firstId (Item.tokens items)
  { errors := (Item.errors items).map .lex ++ parsed.errors.map .parse
    program := parsed.statements
    nextId := parsed.nextId }

/-- How a run ends. -/
inductive Outcome where
  | finished
  /-- The source was not run for these errors. -/
  | rejected (errors : List Diagnostic)
  /-- The run was stopped by an error. -/
  | stopped (e : RuntimeError)
  /-- A loop took more turns than it was allowed. -/
  | exhausted
deriving DecidableEq

namespace Outcome

/-- The outcome of a run that ended this way. -/
def ofResult {α : Type} : Except Stop α → Outcome
  | .ok _ => finished
  | .error (.fault e) => stopped e
  | .error .exhausted => exhausted

/-- The errors that an outcome reports. -/
def errors : Outcome → List Diagnostic
  | finished => []
  | rejected errors => errors
  | stopped e => [.runtime e]
  | exhausted => []

/-- The exit code of a command that ends this way. -/
def exitCode : Outcome → Nat
  | finished => 0
  | rejected _ => 65
  | stopped _ => 70
  | exhausted => 75

/-- A summary of what went wrong. -/
def summary : Outcome → String
  | finished => ""
  | rejected errors => errors.length.repr ++ " static error(s)"
  | stopped e => (Diagnostic.runtime e).display
  | exhausted => "A loop took too many turns."

end Outcome

/-- The state between sources. -/
structure Session where
  machine : Machine
  /-- The next unused id. -/
  nextId : Nat

namespace Session

-- A power of natural numbers is the one of the core library, whatever else is imported.
attribute [local instance (high)] instPowNat

/-- A session that has run nothing. -/
def start (sink : Sink) (clock : Clock) : Session := ⟨.initial sink clock, 0⟩

/-- The turns that a loop is allowed if nothing else is asked for: more than any run takes. -/
def defaultTurns : Nat := 10 ^ (18 : Nat)

/-- The result of an action on the machine of a session. -/
def perform {α : Type} (s : Session) (action : Run α) : Except Stop α × Session :=
  match action s.machine with
  | .ok a machine => (.ok a, { s with machine := machine })
  | .error stop machine => (.error stop, { s with machine := machine })

/-- The session after name resolution has recorded what it found. -/
def recordUses (s : Session) (uses : List NameUse) : Session :=
  { s with machine := { s.machine with distances := s.machine.distances.recordAll uses } }

/-- Runs a source, with at most `turns` turns for each loop. -/
def run (turns : Nat) (source : String) (s : Session) : Outcome × Session :=
  let reading := readSource s.nextId source
  let s := { s with nextId := reading.nextId }
  if !reading.errors.isEmpty then (.rejected reading.errors, s)
  else
    let resolution := resolveProgram reading.program
    let s := s.recordUses resolution.uses
    if !resolution.errors.isEmpty then (.rejected (resolution.errors.map .resolve), s)
    else
      let (result, s) := s.perform (executeProgram turns reading.program)
      (.ofResult result, s)

/-- Takes away what the session has written. -/
def takeOutput (s : Session) : String × Session :=
  let (text, sink) := s.machine.sink.take
  (text, { s with machine := { s.machine with sink := sink } })

/-- What evaluating an expression on its own yields. -/
inductive Answer where
  | value (v : Value)
  | failed (d : Diagnostic)
  /-- A loop took more turns than it was allowed. -/
  | exhausted

/-- Parses a single expression and evaluates it. Its names are not resolved, so each is looked
up in the globals. -/
def evaluateExpression (turns : Nat) (tokens : List Token) (s : Session) : Answer × Session :=
  let parsed := parseExpression s.nextId tokens
  let s := { s with nextId := parsed.nextId }
  match parsed.outcome with
  | .error e => (.failed (.parse e), s)
  | .ok e =>
    match s.perform (evaluate turns e) with
    | (.ok v, s) => (.value v, s)
    | (.error (.fault e), s) => (.failed (.runtime e), s)
    | (.error .exhausted, s) => (.exhausted, s)

end Session

end LexScript
