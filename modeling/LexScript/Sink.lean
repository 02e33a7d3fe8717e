import LexScript.Number.Text

/-!
# Output and time

A sink collects what a session writes. It may accept only a number of lines and may refuse
to be flushed; apart from that, the host may refuse whatever it is asked for. All of this is
reported with a reason. A line is written in two parts, its text and the newline, so that a sink
can fill up between them. Writing nothing never fails.

A clock is read by programs. What it tells, reading by reading, is up to the host: a time, or the
reason why none can be told.

## Main definitions

* `Sink`, `Sink.printLine` : writing a line.
* `Clock`, `Clock.read` : reading the time.
-/

namespace LexScript

/-- What the host is asked for. -/
inductive Sink.Request where
  | write (text : String)
  | flush

/-- What a session has written and how much more it may write. -/
structure Sink where
  /-- The number of newlines after which writes are refused, if there is one. -/
  limit : Option Nat
  /-- Whether each flush is refused. -/
  refusesFlush : Bool
  /-- Why the host refuses the latest request, if it does, given all requests, latest first. -/
  refusal : List Sink.Request → Option String
  /-- What the host was asked for, latest first. -/
  requests : List Sink.Request
  /-- The newlines written so far. -/
  lines : Nat
  /-- What was written since it was last taken away. -/
  text : String

namespace Sink

/-- A sink that accepts everything. -/
def unlimited : Sink := ⟨none, false, fun _ ↦ none, [], 0, ""⟩

/-- Whether the sink accepts no more text. -/
def isClosed (s : Sink) : Bool :=
  match s.limit with
  | some limit => decide (limit ≤ s.lines)
  | none => false

/-- The number of newlines in a text. -/
def newlinesIn (text : String) : Nat := text.toList.count '\n'

/-- Asks the host for something; the reason if it refuses. -/
def request (s : Sink) (request : Request) : Option String × Sink :=
  (s.refusal (request :: s.requests), { s with requests := request :: s.requests })

/-- Writes a text; the reason if it is refused. -/
def write (s : Sink) (text : String) : Option String × Sink :=
  if text.isEmpty then (none, s)
  else if s.isClosed then (some "output closed", s)
  else
    match s.request (.write text) with
    | (some reason, s) => (some reason, s)
    | (none, s) => (none, { s with lines := s.lines + newlinesIn text, text := s.text ++ text })

/-- Writes a text and a newline and flushes; the reason for what was refused, if anything. -/
def printLine (s : Sink) (text : String) : Option String × Sink :=
  match s.write text with
  | (some reason, s) => (some reason, s)
  | (none, s) =>
    match s.write "\n" with
    | (some reason, s) => (some reason, s)
    | (none, s) => if s.refusesFlush then (some "flush refused", s) else s.request .flush

/-- Takes away what was written. -/
def take (s : Sink) : String × Sink := (s.text, { s with text := "" })

end Sink

/-- A source of the time. -/
structure Clock where
  /-- What each reading yields: the time in seconds, or the reason why no time can be told. -/
  readings : Nat → Except String Number
  /-- The number of readings so far. -/
  taken : Nat

namespace Clock

/-- A clock at a number of microseconds since some fixed moment in the past. It advances with each
reading, so that a program which waits for a later time comes to an end. -/
def running (microseconds : Nat) : Clock where
  readings n := .ok ((Number.ofNat (microseconds + n)).div (Number.ofNat 1000000))
  taken := 0

/-- A clock that can tell no time, for the given reason. -/
def broken (reason : String) : Clock := ⟨fun _ ↦ .error reason, 0⟩

/-- The next reading, and the clock behind it. -/
def read (c : Clock) : Except String Number × Clock :=
  (c.readings c.taken, { c with taken := c.taken + 1 })

end Clock

end LexScript
