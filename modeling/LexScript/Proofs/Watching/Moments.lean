import LexScript.Proofs.Heap.Classes
import LexScript.Proofs.Scope.Lookups

/-!
# Watched evaluation

Evaluation keeps no record of what it has done. To speak about what happens while a program runs,
evaluation is watched: it does the same to the machine, and beside it keeps a history that it never
reads itself. The history tells which scope of the program each open frame was made for, which
calls are in progress, where functions and classes were created, and which variables still wait for
their initializers. Whenever an expression, a statement or a call begins, or a name is about to be
looked up, the moment is noted with the machine and the history as they are then.

Each definition here has the text of its counterpart in evaluation, apart from what it keeps and
notes.

## Main definitions

* `Activation` : a frame with the scope that it was made for.
* `History`, `Moment`, `Watch` : what is kept beside a machine.
* `Expr.watch`, `Stmt.watch`, `watchCallAt`, `watchProgram` : watched evaluation.
-/

namespace LexScript

/-! ### What is kept -/

/-- A frame that was made for a scope. -/
structure Activation where
  scope : OpenScope
  frame : Nat
  /-- The class whose methods lie inside, if the frame was made to bind `this`. -/
  owner : Option Nat

/-- Where a function was created. -/
structure FunctionOrigin where
  /-- The open frames around the function, innermost first. -/
  display : List Activation
  /-- The instance that a method was bound to. -/
  receiver : Option Nat

/-- The declaration that a class comes from. -/
structure ClassOrigin where
  methods : List FunctionDecl
  /-- The open frames around the scope that binds `this` in methods, innermost first. -/
  display : List Activation

/-- What has happened in a session. -/
structure History where
  /-- The open frames apart from the globals, innermost first. -/
  display : List Activation
  /-- The calls of functions and initializers in progress, latest first. -/
  calls : List Closure
  /-- Where each function in the heap was created. -/
  functions : Array FunctionOrigin
  /-- Where each class in the heap was declared. -/
  classes : Array ClassOrigin
  /-- The variables whose initializers are not complete, with their frames. -/
  unfinished : List (Nat × Name)
  /-- The lookups of all programs that were executed. -/
  lookups : List Lookup

/-- What is about to be done. -/
inductive Task where
  | expr (e : Expr)
  | stmt (s : Stmt)
  /-- To read a name or assign to it, for the expression with this id. -/
  | lookup (id : Nat) (x : Name)
  | call (callee : Value) (arguments : List Value) (line : Nat)

/-- The id and the name, if a task is a lookup. -/
def Task.lookup? : Task → Option (Nat × Name)
  | .lookup id x => some (id, x)
  | .expr _ | .stmt _ | .call _ _ _ => none

theorem Task.eq_lookup_of_lookup? {task : Task} {id : Nat} {x : Name}
    (h : task.lookup? = some (id, x)) : task = .lookup id x := by
  cases task <;> cases h
  rfl

/-- A moment of a run. -/
structure Moment where
  task : Task
  machine : Machine
  history : History

/-- A machine that is watched. -/
structure Watch where
  machine : Machine
  history : History
  /-- The moments of the run so far, latest first. -/
  moments : List Moment

/-- Declares a name in the scope of the innermost frame. -/
def declareInnermost (x : Ident) (role : Role) : List Activation → List Activation
  | [] => []
  | a :: outer =>
    { a with scope := { a.scope with names := a.scope.names.put x.name role } } :: outer

namespace History

/-- Nothing has happened yet. -/
def start : History := ⟨[], [], #[], #[], [], []⟩

/-- The scopes of the open frames. -/
def scopes (h : History) : List OpenScope := h.display.map Activation.scope

/-- A name is declared. -/
def declare (h : History) (x : Ident) (role : Role) : History :=
  { h with display := declareInnermost x role h.display }

/-- The initializer of a variable in a frame begins. -/
def begin (h : History) (f : Nat) (x : Ident) : History :=
  { h.declare x .variable with unfinished := (f, x.name) :: h.unfinished }

/-- The initializer of a variable in a frame is complete. -/
def finish (h : History) (f : Nat) (x : Ident) : History :=
  { h with unfinished := h.unfinished.filter (· ≠ (f, x.name)) }

/-- A function is created. -/
def addFunction (h : History) (origin : FunctionOrigin) : History :=
  { h with functions := h.functions.push origin }

/-- A class is created. -/
def addClass (h : History) (origin : ClassOrigin) : History :=
  { h with classes := h.classes.push origin }

/-- A function is declared. -/
def declareFunction (h : History) (decl : FunctionDecl) : History :=
  let h := h.declare decl.name .function
  h.addFunction ⟨h.display, none⟩

/-- A class is declared. If it has a superclass, `super` is bound in frame `f`. -/
def declareClass (h : History) (f : Nat) (name : Ident) (superclass : Option SuperclassName)
    (methods : List FunctionDecl) : History :=
  let h := h.declare name .className
  let display :=
    match superclass with
    | none => h.display
    | some _ => ⟨superScope methods, f, none⟩ :: h.display
  h.addClass ⟨methods, display⟩

end History

/-- The open frames around the calls of a method of a class, when it is bound next. -/
def Watch.methodDisplay (w : Watch) (c : Nat) (method : String) : List Activation :=
  match w.machine.heap.methodOwner? c method with
  | none => []
  | some owner =>
    match w.history.classes[owner]? with
    | none => []
    | some origin =>
      ⟨thisScope origin.methods, w.machine.heap.frames.size, some owner⟩ :: origin.display

/-- The open frames around the calls of a function. -/
def Watch.functionDisplay (w : Watch) (index : Nat) : List Activation :=
  match w.history.functions[index]? with
  | none => []
  | some origin => origin.display

/-! ### Watched actions -/

/-- An action on watches. -/
abbrev Watched := EStateM Stop Watch

/-- The meaning of calls when evaluation is watched. -/
abbrev WatchedCall := Value → List Value → Nat → Watched Value

namespace Watched

variable {α : Type}

/-- Does to the machine what an action does, and then brings the history up to date. -/
def keep (update : Watch → History) (p : Run α) : Watched α := fun w ↦
  match p w.machine with
  | .ok a m => .ok a { w with machine := m, history := update w }
  | .error e m => .error e { w with machine := m }

/-- Does to the machine what an action does. -/
def lift (p : Run α) : Watched α := keep Watch.history p

/-- What a question to the watch yields. -/
def look (question : Watch → α) : Watched α := fun w ↦ .ok (question w) w

/-- Notes a moment. -/
def note (task : Task) : Watched Unit := fun w ↦
  .ok () { w with moments := ⟨task, w.machine, w.history⟩ :: w.moments }

/-- A watch in an open frame. -/
def enter (w : Watch) (a : Activation) (outer : List Activation) : Watch :=
  { w with
    machine := { w.machine with current := a.frame }
    history := { w.history with display := a :: outer } }

/-- A watch back in the frame where another one is. -/
def leave (w before : Watch) : Watch :=
  { w with
    machine := { w.machine with current := before.machine.current }
    history := { w.history with display := before.history.display } }

/-- Runs an action in an open frame and returns to the frame in scope before. -/
def inFrame (a : Activation) (outer : List Activation) (action : Watched α) : Watched α := fun w ↦
  match action (enter w a outer) with
  | .ok r w' => .ok r (leave w' w)
  | .error e w' => .error e (leave w' w)

/-- A watch with one more call in progress. -/
def call (w : Watch) (c : Closure) : Watch :=
  { w with
    machine := { w.machine with depth := w.machine.depth + 1 }
    history := { w.history with calls := c :: w.history.calls } }

/-- A watch when the latest call is over and those of another one are in progress. -/
def hangUp (w before : Watch) : Watch :=
  { w with
    machine := { w.machine with depth := w.machine.depth - 1 }
    history := { w.history with calls := before.history.calls } }

/-- Runs an action as one more call in progress; one too many is an error at `mark`. -/
def inCall (c : Closure) (mark : Mark) (action : Watched α) : Watched α := fun w ↦
  if Run.maxCalls ≤ w.machine.depth then .error (.fault ⟨.stackOverflow, mark⟩) w
  else
    match action (call w c) with
    | .ok r w' => .ok r (hangUp w' w)
    | .error e w' => .error e (hangUp w' w)

/-! ### Names and properties -/

/-- Reads a name. -/
def readName (id : Nat) (x : Name) (line : Nat) : Watched Value := do
  note (.lookup id x)
  lift (Run.readName id x line)

/-- Assigns to a name. -/
def assignName (id : Nat) (x : Name) (line : Nat) (v : Value) : Watched Unit := do
  note (.lookup id x)
  lift (Run.assignName id x line v)

/-- A method of a class, bound to an instance, as a new function. -/
def boundMethod (c i : Nat) (name : Ident) : Watched Value :=
  keep (fun w ↦ w.history.addFunction ⟨w.methodDisplay c name.text, some i⟩)
    (Run.boundMethod c i name)

/-- The field of an instance, or else its method of this name. -/
def getProperty (object : Value) (name : Ident) : Watched Value := do
  match object with
  | .instanceRef i =>
    match ← lift (Run.ask (·.field? i name.text)) with
    | some v => pure v
    | none =>
      match ← lift (Run.ask (·.classOf? i)) with
      | some c => boundMethod c i name
      | none => lift (Run.fail .notAnInstance name.mark)
  | _ => lift (Run.fail .notAnInstance name.mark)

/-- The method of the superclass, bound to what `this` denotes. -/
def superMethod (id line : Nat) (method : Ident) : Watched Value := do
  note (.lookup id .super)
  match ← lift (Run.distanceOf id) with
  | none => throw (.fault (undefinedName .super line))
  | some distance =>
    match ← lift (Run.readAt distance .super line) with
    | .classRef c =>
      match ← lift (Run.readAt (distance - 1) .this line) with
      | .instanceRef i => boundMethod c i method
      | _ => lift (Run.fail .notAnInstance ⟨Name.super.text, line⟩)
    | _ => lift (Run.fail .invalidSuperclass ⟨Name.super.text, line⟩)

/-! ### Calls -/

section

variable (body : List Stmt → Watched Flow)

/-- Runs the body of a function in a new frame as one more call in progress. -/
def callClosure (c : Closure) (display : List Activation) (arguments : List Value)
    (mark : Mark) : Watched Value :=
  inCall c mark do
    let f ← lift (Run.change (·.newFrame c.frame))
    lift (Run.change fun h ↦ ((), Run.bindParams f c.params arguments h))
    let flow ← inFrame ⟨functionScope c.params c.body, f, none⟩ display (body c.body)
    lift (Run.callResult c flow)

/-- Creates an instance and runs the initializer of its class, if there is one. -/
def callClass (c : Nat) (arguments : List Value) (mark : Mark) : Watched Value := do
  let i ← lift (Run.change (·.newInstance c))
  match ← lift (Run.ask (·.initializer? c)) with
  | some method => do
    let display ← look (·.methodDisplay c "init")
    let bound ← lift (Run.change (·.bindMethod method i))
    let _ ← callClosure body bound display arguments mark
    pure (.instanceRef i)
  | none => pure (.instanceRef i)

/-- Calls a value, given how bodies are run. -/
def callValue : WatchedCall := fun callee arguments line ↦ do
  note (.call callee arguments line)
  let mark : Mark := ⟨Symbol.rightParen.spelling, line⟩
  match callee with
  | .native .clock => do
    lift (Run.checkArity mark Native.clock.arity arguments.length)
    lift (Run.readClock mark)
  | .functionRef index =>
    match ← lift (Run.ask (·.functions[index]?)) with
    | some c => do
      lift (Run.checkArity mark c.arity arguments.length)
      callClosure body c (← look (·.functionDisplay index)) arguments mark
    | none => lift (Run.fail .notCallable mark)
  | .classRef c => do
    lift (Run.checkArity mark (← lift (Run.ask (·.classArity c))) arguments.length)
    callClass body c arguments mark
  | _ => lift (Run.fail .notCallable mark)

end

/-! ### Statements with parts -/

/-- Repeats a body while a condition holds, for at most the given number of turns. -/
def repeatWhile (condition : Watched Value) (body : Watched Flow) : Nat → Watched Flow
  | 0 => throw .exhausted
  | turns + 1 => do
    if (← condition).isTruthy then
      match ← body with
      | .next => repeatWhile condition body turns
      | .returned v => pure (.returned v)
    else
      pure .next

/-- Runs the statements of a block in a new frame inside the frame in scope. -/
def inBlock (body : List Stmt) (action : Watched α) : Watched α := do
  let f ← lift (Run.change (·.newFrame (← lift Run.currentFrame)))
  inFrame ⟨blockScope body, f, none⟩ (← look (·.history.display)) action

/-- Declares a function in the frame in scope. -/
def declareFunction (decl : FunctionDecl) : Watched Unit :=
  keep (fun w ↦ w.history.declareFunction decl) (Run.declareFunction decl)

/-- Notes that the superclass of a class is about to be looked up, if it has one. -/
def noteSuperclass : Option SuperclassName → Watched Unit
  | none => pure ()
  | some s => note (.lookup s.id s.ident.name)

/-- Declares a class in the frame in scope. -/
def declareClass (name : Ident) (superclass : Option SuperclassName)
    (methods : List FunctionDecl) : Watched Unit := do
  noteSuperclass superclass
  keep (fun w ↦ w.history.declareClass w.machine.heap.frames.size name superclass methods)
    (Run.declareClass name superclass methods)

end Watched

open Watched

/-! ### Expressions and statements -/

mutual

/-- Evaluates an expression. -/
def Expr.watch (call : WatchedCall) (turns : Nat) (e : Expr) : Watched Value := do
  note (.expr e)
  match e with
  | .literal _ value => pure value.value
  | .grouping _ inner => inner.watch call turns
  | .unary _ op line operand => do
    let v ← operand.watch call turns
    lift (Run.ofExcept (op.apply line v))
  | .binary _ op line left right => do
    let v ← left.watch call turns
    let w ← right.watch call turns
    lift (Run.ofExcept (op.apply line v w))
  | .logical _ op _ left right => do
    let v ← left.watch call turns
    if op.decides v then pure v else right.watch call turns
  | .read id name => readName id name.name name.line
  | .assign id name value => do
    let v ← value.watch call turns
    assignName id name.name name.line v
    pure v
  | .call _ callee line arguments => do
    let v ← callee.watch call turns
    let vs ← watchExprs call turns arguments
    call v vs line
  | .lambda _ _ params body =>
    keep (fun w ↦ w.history.addFunction ⟨w.history.display, none⟩) do
      let f ← Run.currentFrame
      Run.newFunction ⟨none, params, body, f, false⟩
  | .get _ object name => do
    let v ← object.watch call turns
    getProperty v name
  | .set _ object name value => do
    let i ← lift (Run.requireInstance (← object.watch call turns) name)
    let v ← value.watch call turns
    lift (Run.setProperty i name v)
    pure v
  | .this id line => readName id .this line
  | .super id line method => superMethod id line method

/-- Evaluates expressions from left to right. -/
def watchExprs (call : WatchedCall) (turns : Nat) : List Expr → Watched (List Value)
  | [] => pure []
  | e :: es => do
    let v ← e.watch call turns
    let vs ← watchExprs call turns es
    pure (v :: vs)

/-- Executes a statement. -/
def Stmt.watch (call : WatchedCall) (turns : Nat) (s : Stmt) : Watched Flow := do
  note (.stmt s)
  match s with
  | .expression e => do
    let _ ← e.watch call turns
    pure .next
  | .print line value => do
    let v ← value.watch call turns
    lift (Run.printLine line v)
    pure .next
  | .varDecl name none => do
    keep (fun w ↦ w.history.declare name .variable) (Run.define name.name .nil)
    pure .next
  | .varDecl name (some value) => do
    keep (fun w ↦ w.history.begin w.machine.current name) (pure ())
    let v ← value.watch call turns
    keep (fun w ↦ w.history.finish w.machine.current name) (Run.define name.name v)
    pure .next
  | .block body => inBlock body (watchStmts call turns body)
  | .ifElse condition thenBranch none => do
    let v ← condition.watch call turns
    if v.isTruthy then thenBranch.watch call turns else pure .next
  | .ifElse condition thenBranch (some elseBranch) => do
    let v ← condition.watch call turns
    if v.isTruthy then thenBranch.watch call turns else elseBranch.watch call turns
  | .whileLoop condition body =>
    repeatWhile (condition.watch call turns) (body.watch call turns) turns
  | .funDecl decl => do
    declareFunction decl
    pure .next
  | .returns _ none => pure (.returned .nil)
  | .returns _ (some value) => do
    let v ← value.watch call turns
    pure (.returned v)
  | .classDecl name superclass methods => do
    declareClass name superclass methods
    pure .next

/-- Executes statements in order until one does not fall through. -/
def watchStmts (call : WatchedCall) (turns : Nat) : List Stmt → Watched Flow
  | [] => pure .next
  | s :: ss => do
    match ← s.watch call turns with
    | .next => watchStmts call turns ss
    | .returned v => pure (.returned v)

end

/-- The meaning of calls up to a number of levels. -/
def watchCallAt (turns : Nat) : Nat → WatchedCall
  | 0 => fun _ _ _ => throw .exhausted
  | level + 1 => callValue fun body => watchStmts (watchCallAt turns level) turns body

/-- Executes the statements of a program one after the other. -/
def watchProgram (turns : Nat) : List Stmt → Watched Unit
  | [] => pure ()
  | s :: ss => do
    let _ ← s.watch (watchCallAt turns enoughLevels) turns
    watchProgram turns ss

end LexScript
