import LexScript.Machine

/-!
# Evaluation

Expressions evaluate to values and statements finish with a flow: either the next statement
follows or a value is on its way back to the call in progress. Evaluation follows the
program's structure; what a call does is a parameter, because the body of a function comes
from the heap and not from the expression that calls it. `callAt` ties the two together. A
call consumes one level, and the number of calls in progress is limited, so the levels given
to a run are never used up. The turns of a single loop are bounded by a number that the
session chooses.

Operands are evaluated from left to right. An assignment to a property evaluates the object
first and checks it before it evaluates the value.

## Main definitions

* `UnaryOp.apply`, `BinaryOp.apply` : operators on values.
* `Expr.eval`, `Stmt.exec` : evaluation with a given meaning of calls.
* `callAt` : the meaning of calls, up to a number of levels.
* `evaluate`, `execute` : evaluation with enough levels.
-/

namespace LexScript

/-- How a statement finishes. -/
inductive Flow where
  | next
  | returned (v : Value)
deriving DecidableEq

/-- The meaning of calls: what calling a value with arguments does, the call ending on a
line. -/
abbrev Call := Value → List Value → Nat → Run Value

/-! ## Operators -/

/-- Applies an operator of one operand. -/
def UnaryOp.apply (op : UnaryOp) (line : Nat) (v : Value) : Except RuntimeError Value :=
  match op, v with
  | not, v => .ok (.boolean !v.isTruthy)
  | negate, .number x => .ok (.number x.neg)
  | negate, _ => .error ⟨.operandMustBeNumber, ⟨op.kind.lexeme, line⟩⟩

/-- Applies an operator that takes numbers only. -/
def BinaryOp.applyNumbers (op : BinaryOp) (x y : Number) : Except Fault Value :=
  match op with
  | add => .ok (.number (x.add y))
  | subtract => .ok (.number (x.sub y))
  | multiply => .ok (.number (x.mul y))
  | divide => if y.isZero then .error .divisionByZero else .ok (.number (x.div y))
  | equal => .ok (.boolean (x.equals y))
  | notEqual => .ok (.boolean !(x.equals y))
  | greater => .ok (.boolean (y.less x))
  | greaterEqual => .ok (.boolean (y.atMost x))
  | less => .ok (.boolean (x.less y))
  | lessEqual => .ok (.boolean (x.atMost y))

/-- Applies an operator of two operands, or tells why it cannot be applied. -/
def BinaryOp.applyValues (op : BinaryOp) (v w : Value) : Except Fault Value :=
  match op, v, w with
  | add, .string s, .string t => .ok (.string (s ++ t))
  | equal, v, w => .ok (.boolean (v.equals w))
  | notEqual, v, w => .ok (.boolean !(v.equals w))
  | op, .number x, .number y => op.applyNumbers x y
  | add, _, _ => .error .operandsMustBeNumbersOrStrings
  | _, _, _ => .error .operandsMustBeNumbers

/-- Applies an operator of two operands; an error is anchored at the operator. -/
def BinaryOp.apply (op : BinaryOp) (line : Nat) (v w : Value) : Except RuntimeError Value :=
  match op.applyValues v w with
  | .ok result => .ok result
  | .error fault => .error ⟨fault, ⟨op.kind.lexeme, line⟩⟩

/-- Whether the left operand alone decides. -/
def LogicalOp.decides (op : LogicalOp) (left : Value) : Bool :=
  match op with
  | or => left.isTruthy
  | and => !left.isTruthy

namespace Run

/-! ## Properties -/

/-- Adds a function and yields a reference to it. -/
def newFunction (c : Closure) : Run Value := change (·.newFunction c)

/-- A method of a class, bound to an instance, as a new function. -/
def boundMethod (c i : Nat) (name : Ident) : Run Value := do
  match ← ask (·.findMethod? c name.text) with
  | some method => do
    let bound ← change (·.bindMethod method i)
    newFunction bound
  | none => fail (.undefinedProperty name.text) name.mark

/-- The field of an instance, or else its method of this name. -/
def getProperty (object : Value) (name : Ident) : Run Value := do
  match object with
  | .instanceRef i =>
    match ← ask (·.field? i name.text) with
    | some v => pure v
    | none =>
      match ← ask (·.classOf? i) with
      | some c => boundMethod c i name
      | none => fail .notAnInstance name.mark
  | _ => fail .notAnInstance name.mark

/-- Sets a field of an instance. -/
def setProperty (i : Nat) (name : Ident) (v : Value) : Run Unit :=
  change fun h ↦ ((), h.setField i name.text v)

/-- The instance that an assignment to a property changes. -/
def requireInstance (object : Value) (name : Ident) : Run Nat :=
  match object with
  | .instanceRef i => pure i
  | _ => fail .notAnInstance name.mark

/-- The method of the superclass, bound to what `this` denotes. The frame that binds `this`
is one link nearer than the one that binds `super`. -/
def superMethod (id line : Nat) (method : Ident) : Run Value := do
  match ← distanceOf id with
  | none => throw (.fault (undefinedName .super line))
  | some distance =>
    match ← readAt distance .super line with
    | .classRef c =>
      match ← readAt (distance - 1) .this line with
      | .instanceRef i => boundMethod c i method
      | _ => fail .notAnInstance ⟨Name.super.text, line⟩
    | _ => fail .invalidSuperclass ⟨Name.super.text, line⟩

/-! ## Calls -/

/-- Checks the number of arguments of a call that ends at `mark`. -/
def checkArity (mark : Mark) (expected got : Nat) : Run Unit :=
  if expected = got then pure () else fail (.arityMismatch expected got) mark

/-- Binds parameters to arguments in a frame, in order. -/
def bindParams (f : Nat) (params : List Ident) (arguments : List Value) (h : Heap) : Heap :=
  (params.zip arguments).foldl (fun h (p, v) ↦ h.define f p.name v) h

/-- The value of a finished call: an initializer yields its instance whatever it returns. -/
def callResult (c : Closure) (flow : Flow) : Run Value :=
  if c.isInitializer then
    ask fun h ↦ (h.frames.find? c.frame .this).getD .nil
  else
    match flow with
    | .returned v => pure v
    | .next => pure .nil

/-- Runs the body of a function in a new frame as one more call in progress. -/
def callClosure (body : List Stmt → Run Flow) (c : Closure) (arguments : List Value)
    (mark : Mark) : Run Value :=
  inCall mark do
    let f ← change (·.newFrame c.frame)
    change fun h ↦ ((), bindParams f c.params arguments h)
    let flow ← inFrame f (body c.body)
    callResult c flow

/-- Creates an instance and runs the initializer of its class, if there is one. -/
def callClass (body : List Stmt → Run Flow) (c : Nat) (arguments : List Value)
    (mark : Mark) : Run Value := do
  let i ← change (·.newInstance c)
  match ← ask (·.initializer? c) with
  | some method => do
    let bound ← change (·.bindMethod method i)
    let _ ← callClosure body bound arguments mark
    pure (.instanceRef i)
  | none => pure (.instanceRef i)

/-- Calls a value, given how bodies are run; errors of the call itself are anchored at its
closing parenthesis. -/
def callValue (body : List Stmt → Run Flow) : Call := fun callee arguments line ↦ do
  let mark : Mark := ⟨Symbol.rightParen.spelling, line⟩
  match callee with
  | .native .clock => do
    checkArity mark Native.clock.arity arguments.length
    readClock mark
  | .functionRef index =>
    match ← ask (·.functions[index]?) with
    | some c => do
      checkArity mark c.arity arguments.length
      callClosure body c arguments mark
    | none => fail .notCallable mark
  | .classRef c => do
    checkArity mark (← ask (·.classArity c)) arguments.length
    callClass body c arguments mark
  | _ => fail .notCallable mark

/-! ## Statements with parts -/

/-- Repeats a body while a condition holds, for at most the given number of turns. -/
def repeatWhile (condition : Run Value) (body : Run Flow) : Nat → Run Flow
  | 0 => throw .exhausted
  | turns + 1 => do
    if (← condition).isTruthy then
      match ← body with
      | .next => repeatWhile condition body turns
      | .returned v => pure (.returned v)
    else
      pure .next

/-- Runs an action in a new frame inside the frame in scope. -/
def inBlock {α : Type} (action : Run α) : Run α := do
  let f ← change (·.newFrame (← currentFrame))
  inFrame f action

/-- Declares a function in the frame in scope. -/
def declareFunction (decl : FunctionDecl) : Run Unit := do
  let f ← currentFrame
  let v ← newFunction ⟨some decl.name.text, decl.params, decl.body, f, false⟩
  define decl.name.name v

/-- A table with one more method, inside a frame; the last of a name counts. -/
def addMethod (f : Nat) (table : Bindings String Closure) (m : FunctionDecl) :
    Bindings String Closure :=
  table.put m.name.text ⟨some m.name.text, m.params, m.body, f, m.isInitializer⟩

/-- The methods of a class, each inside a frame. -/
def methodTable (f : Nat) (methods : List FunctionDecl) : Bindings String Closure :=
  methods.foldl (addMethod f) .empty

/-- The class that a class declaration names as its superclass. -/
def readSuperclass (s : SuperclassName) : Run Nat := do
  match ← readName s.id s.ident.name s.ident.line with
  | .classRef c => pure c
  | _ => fail .invalidSuperclass s.ident.mark

/-- The record of a class inside a frame. The methods of a class with a superclass lie in a frame
of their own that binds `super`. -/
def classRecord (outer : Nat) (name : Ident) (superclass : Option SuperclassName)
    (methods : List FunctionDecl) : Run ClassRecord :=
  match superclass with
  | none => pure ⟨name.text, none, methodTable outer methods⟩
  | some s => do
    let c ← readSuperclass s
    let f ← change (·.newFrame outer)
    change fun h ↦ ((), h.define f .super (.classRef c))
    pure ⟨name.text, some c, methodTable f methods⟩

/-- Declares a class in the frame in scope. -/
def declareClass (name : Ident) (superclass : Option SuperclassName)
    (methods : List FunctionDecl) : Run Unit := do
  let record ← classRecord (← currentFrame) name superclass methods
  let v ← change (·.newClass record)
  define name.name v

end Run

open Run

/-! ## Expressions and statements -/

mutual

/-- Evaluates an expression. -/
def Expr.eval (call : Call) (turns : Nat) : Expr → Run Value
  | .literal _ value => pure value.value
  | .grouping _ inner => inner.eval call turns
  | .unary _ op line operand => do
    let v ← operand.eval call turns
    ofExcept (op.apply line v)
  | .binary _ op line left right => do
    let v ← left.eval call turns
    let w ← right.eval call turns
    ofExcept (op.apply line v w)
  | .logical _ op _ left right => do
    let v ← left.eval call turns
    if op.decides v then pure v else right.eval call turns
  | .read id name => readName id name.name name.line
  | .assign id name value => do
    let v ← value.eval call turns
    assignName id name.name name.line v
    pure v
  | .call _ callee line arguments => do
    let v ← callee.eval call turns
    let vs ← evalExprs call turns arguments
    call v vs line
  | .lambda _ _ params body => do
    let f ← currentFrame
    newFunction ⟨none, params, body, f, false⟩
  | .get _ object name => do
    let v ← object.eval call turns
    getProperty v name
  | .set _ object name value => do
    let i ← requireInstance (← object.eval call turns) name
    let v ← value.eval call turns
    setProperty i name v
    pure v
  | .this id line => readName id .this line
  | .super id line method => superMethod id line method

/-- Evaluates expressions from left to right. -/
def evalExprs (call : Call) (turns : Nat) : List Expr → Run (List Value)
  | [] => pure []
  | e :: es => do
    let v ← e.eval call turns
    let vs ← evalExprs call turns es
    pure (v :: vs)

/-- Executes a statement. -/
def Stmt.exec (call : Call) (turns : Nat) : Stmt → Run Flow
  | .expression e => do
    let _ ← e.eval call turns
    pure .next
  | .print line value => do
    let v ← value.eval call turns
    printLine line v
    pure .next
  | .varDecl name none => do
    define name.name .nil
    pure .next
  | .varDecl name (some value) => do
    let v ← value.eval call turns
    define name.name v
    pure .next
  | .block body => inBlock (execStmts call turns body)
  | .ifElse condition thenBranch none => do
    let v ← condition.eval call turns
    if v.isTruthy then thenBranch.exec call turns else pure .next
  | .ifElse condition thenBranch (some elseBranch) => do
    let v ← condition.eval call turns
    if v.isTruthy then thenBranch.exec call turns else elseBranch.exec call turns
  | .whileLoop condition body =>
    repeatWhile (condition.eval call turns) (body.exec call turns) turns
  | .funDecl decl => do
    declareFunction decl
    pure .next
  | .returns _ none => pure (.returned .nil)
  | .returns _ (some value) => do
    let v ← value.eval call turns
    pure (.returned v)
  | .classDecl name superclass methods => do
    declareClass name superclass methods
    pure .next

/-- Executes statements in order until one does not fall through. -/
def execStmts (call : Call) (turns : Nat) : List Stmt → Run Flow
  | [] => pure .next
  | s :: ss => do
    match ← s.exec call turns with
    | .next => execStmts call turns ss
    | .returned v => pure (.returned v)

end

/-- The meaning of calls up to a number of levels: the calls in the body of a function have
one level less. -/
def callAt (turns : Nat) : Nat → Call
  | 0 => fun _ _ _ => throw .exhausted
  | level + 1 => callValue fun body => execStmts (callAt turns level) turns body

/-- Levels enough for the calls that can be in progress and one that is refused. -/
def enoughLevels : Nat := maxCalls + 1

/-- Evaluates an expression, with at most `turns` turns for each loop. -/
def evaluate (turns : Nat) (e : Expr) : Run Value := e.eval (callAt turns enoughLevels) turns

/-- Executes a statement, with at most `turns` turns for each loop. -/
def execute (turns : Nat) (s : Stmt) : Run Flow := s.exec (callAt turns enoughLevels) turns

/-- Executes the statements of a program one after the other. -/
def executeProgram (turns : Nat) : List Stmt → Run Unit
  | [] => pure ()
  | s :: ss => do
    let _ ← execute turns s
    executeProgram turns ss

end LexScript
