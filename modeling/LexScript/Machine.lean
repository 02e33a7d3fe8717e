import LexScript.Scope.Resolution
import LexScript.Value
import LexScript.Sink

/-!
# Machines

A machine is the state of a session while a program runs: the heap, the frame in scope, the
number of calls in progress, the distances that name resolution has found, the sink and the
clock. A run is an action on machines; it stops with an error of the program, or because it
was not allowed to go on for longer.

The frame in scope and the number of calls are changed only around an action, by
`Run.inFrame` and `Run.inCall`, and are the same afterwards however the action ends.

## Main definitions

* `Distances` : what name resolution has found, by the id of the expression.
* `Machine`, `Run` : states and actions.
* `Run.readName`, `Run.assignName` : access by distance or, without one, to the globals.
-/

namespace LexScript

/-! ## Distances -/

/-- For each id the distance that was recorded for it, if one was. -/
structure Distances where
  entries : Array (Option Nat)

namespace Distances

/-- Nothing is recorded. -/
def empty : Distances := ⟨#[]⟩

/-- The distance recorded for an id. -/
def find? (d : Distances) (id : Nat) : Option Nat := d.entries[id]?.bind (·)

/-- Records a distance for an id. -/
def record (d : Distances) (id distance : Nat) : Distances :=
  let missing := id + 1 - d.entries.size
  ⟨(d.entries ++ Array.replicate missing none).setIfInBounds id (some distance)⟩

/-- Records the distances of uses; a use left to the globals has none. -/
def recordAll (d : Distances) (uses : List NameUse) : Distances :=
  uses.foldl
    (fun d use ↦
      match use.distance with
      | some distance => d.record use.id distance
      | none => d)
    d

end Distances

/-! ## Machines and runs -/

/-- The state of a session while a program runs. -/
structure Machine where
  heap : Heap
  /-- The frame in scope. -/
  current : Nat
  /-- The number of calls of functions and initializers in progress. -/
  depth : Nat
  distances : Distances
  sink : Sink
  clock : Clock

/-- At the start of a session. -/
def Machine.initial (sink : Sink) (clock : Clock) : Machine where
  heap := .initial
  current := Frames.globals
  depth := 0
  distances := .empty
  sink := sink
  clock := clock

/-- Why a run ends before its end. -/
inductive Stop where
  /-- An error of the program. -/
  | fault (e : RuntimeError)
  /-- The run was not allowed to go on for longer. -/
  | exhausted
deriving DecidableEq

/-- An action on machines. -/
abbrev Run := EStateM Stop Machine

namespace Run

/-- Stops with an error of the program. -/
def fail {α : Type} (fault : Fault) (mark : Mark) : Run α := throw (.fault ⟨fault, mark⟩)

/-- The result of an access, or its error. -/
def ofExcept {α : Type} (result : Except RuntimeError α) : Run α :=
  match result with
  | .ok a => pure a
  | .error e => throw (.fault e)

/-- What a question to the heap yields. -/
def ask {α : Type} (question : Heap → α) : Run α := fun m ↦ .ok (question m.heap) m

/-- Changes the heap. -/
def change {α : Type} (step : Heap → α × Heap) : Run α := fun m ↦
  match step m.heap with
  | (a, heap) => .ok a { m with heap := heap }

/-- The frame in scope. -/
def currentFrame : Run Nat := fun m ↦ .ok m.current m

/-- Runs an action in a frame and returns to the frame in scope before. -/
def inFrame {α : Type} (f : Nat) (action : Run α) : Run α := fun m ↦
  let previous := m.current
  match action { m with current := f } with
  | .ok a m => .ok a { m with current := previous }
  | .error e m => .error e { m with current := previous }

/-- The greatest number of calls in progress. -/
def maxCalls : Nat := 3000

/-- Runs an action as one more call in progress; one too many is an error at `mark`. -/
def inCall {α : Type} (mark : Mark) (action : Run α) : Run α := fun m ↦
  if maxCalls ≤ m.depth then .error (.fault ⟨.stackOverflow, mark⟩) m
  else
    match action { m with depth := m.depth + 1 } with
    | .ok a m => .ok a { m with depth := m.depth - 1 }
    | .error e m => .error e { m with depth := m.depth - 1 }

/-! ## Names -/

/-- Binds a name in the frame in scope. -/
def define (x : Name) (v : Value) : Run Unit := fun m ↦
  .ok () { m with heap := m.heap.define m.current x v }

/-- The distance recorded for a use. -/
def distanceOf (id : Nat) : Run (Option Nat) := fun m ↦ .ok (m.distances.find? id) m

/-- Reads a name in the frame at a distance from the one in scope. -/
def readAt (distance : Nat) (x : Name) (line : Nat) : Run Value := fun m ↦
  match m.heap.frames.getAt m.current distance x line with
  | .ok v => .ok v m
  | .error e => .error (.fault e) m

/-- Reads a name from the globals. -/
def readGlobal (x : Name) (line : Nat) : Run Value := fun m ↦
  match m.heap.frames.get Frames.globals x line with
  | .ok v => .ok v m
  | .error e => .error (.fault e) m

/-- Reads a name: at the distance recorded for the use, or else from the globals. -/
def readName (id : Nat) (x : Name) (line : Nat) : Run Value := do
  match ← distanceOf id with
  | some distance => readAt distance x line
  | none => readGlobal x line

/-- The frame that an assignment changes: the one at the distance recorded for the use, or
else the globals; either must bind the name. -/
def assignee (id : Nat) (x : Name) : Run (Option Nat) := fun m ↦
  let frame :=
    match m.distances.find? id with
    | some distance => m.heap.frames.ownerAt? m.current distance x
    | none => m.heap.frames.owner? Frames.globals x
  .ok frame m

/-- Assigns to a name at a use. -/
def assignName (id : Nat) (x : Name) (line : Nat) (v : Value) : Run Unit := do
  match ← assignee id x with
  | some f => change fun h ↦ ((), h.define f x v)
  | none => throw (.fault (undefinedName x line))

/-! ## Output and time -/

/-- Writes the text of a value as a line, on behalf of the `print` on `line`. -/
def printLine (line : Nat) (v : Value) : Run Unit := fun m ↦
  let text := v.text m.heap
  match m.sink.printLine text with
  | (none, sink) => .ok () { m with sink := sink }
  | (some reason, sink) =>
    .error (.fault ⟨.output reason, ⟨"print", line⟩⟩) { m with sink := sink }

/-- Reads the clock, on behalf of a call that ends at `mark`. -/
def readClock (mark : Mark) : Run Value := fun m ↦
  match m.clock.read with
  | (.ok time, clock) => .ok (.number time) { m with clock := clock }
  | (.error reason, clock) => .error (.fault ⟨.native reason, mark⟩) { m with clock := clock }

end Run

end LexScript
