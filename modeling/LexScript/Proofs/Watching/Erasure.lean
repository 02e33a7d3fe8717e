import LexScript.Proofs.Actions
import LexScript.Proofs.Watching.Moments

/-!
# Watching changes nothing

Watched evaluation does to the machine what evaluation does and ends in the same way. The history is
written and never read, except for what goes into the history again.

## Main definitions

* `Watched.Erases` : a watched action does to the machine what an action does.

## Main statements

* `Expr.erases_watch`, `Stmt.erases_watch`, `erases_watchProgram` : watching changes nothing.
-/

namespace LexScript

/-- What is left of how a watched action ends when the history is forgotten. -/
def Watch.forget {α : Type} :
    EStateM.Result Stop Watch α → EStateM.Result Stop Machine α
  | .ok a w => .ok a w.machine
  | .error e w => .error e w.machine

/-- The watch that an action ends with. -/
def Watch.atEnd {α : Type} : EStateM.Result Stop Watch α → Watch
  | .ok _ w => w
  | .error _ w => w

namespace Watched

variable {α β : Type}

/-- A watched action does to the machine what an action does, and ends in the same way. -/
def Erases (p : Watched α) (q : Run α) : Prop := ∀ w, Watch.forget (p w) = q w.machine

variable {p : Watched α} {q : Run α}

theorem erases_pure (a : α) : Erases (pure a) (pure a) := fun _ ↦ rfl

theorem erases_throw (e : Stop) : Erases (throw e : Watched α) (throw e) := fun _ ↦ rfl

theorem Erases.bind {f : α → Watched β} {g : α → Run β} (h : Erases p q)
    (hf : ∀ a, Erases (f a) (g a)) : Erases (p >>= f) (q >>= g) := by
  intro w
  have hw := h w
  rw [bind_apply, bind_apply, ← hw]
  cases p w with
  | ok a w' => exact hf a w'
  | error e w' => rfl

theorem erases_keep (update : Watch → History) (q : Run α) : Erases (keep update q) q := by
  intro w
  rw [keep]
  cases q w.machine <;> rfl

theorem erases_lift (q : Run α) : Erases (lift q) q := erases_keep _ q

/-- What is looked up in the history makes no difference to what follows. -/
theorem erases_look_bind (question : Watch → β) {f : β → Watched α} (h : ∀ b, Erases (f b) q) :
    Erases (look question >>= f) q := fun w ↦ h (question w) w

/-- What only adds to the history makes no difference to what follows. -/
theorem Erases.andThen {s : Watched Unit} (hs : Erases s (pure ())) (h : Erases p q) :
    Erases (s >>= fun _ ↦ p) q := hs.bind fun _ ↦ h

theorem erases_note (task : Task) : Erases (note task) (pure ()) := fun _ ↦ rfl

theorem erases_note_bind (task : Task) (h : Erases p q) : Erases (note task >>= fun _ ↦ p) q :=
  (erases_note task).andThen h

theorem Erases.inFrame (h : Erases p q) (a : Activation) (outer : List Activation) :
    Erases (inFrame a outer p) (Run.inFrame a.frame q) := by
  intro w
  have hw : Watch.forget (p (enter w a outer)) = q { w.machine with current := a.frame } := h _
  rw [Watched.inFrame, Run.inFrame, ← hw]
  cases p (enter w a outer) <;> rfl

theorem Erases.inCall (h : Erases p q) (c : Closure) (mark : Mark) :
    Erases (inCall c mark p) (Run.inCall mark q) := by
  intro w
  have hw : Watch.forget (p (call w c)) = q { w.machine with depth := w.machine.depth + 1 } := h _
  rw [Watched.inCall, Run.inCall, ← hw]
  split
  · rfl
  · cases p (call w c) <;> rfl

/-! ### Properties -/

theorem erases_readName (id : Nat) (x : Name) (line : Nat) :
    Erases (readName id x line) (Run.readName id x line) := erases_note_bind _ (erases_lift _)

theorem erases_assignName (id : Nat) (x : Name) (line : Nat) (v : Value) :
    Erases (assignName id x line v) (Run.assignName id x line v) :=
  erases_note_bind _ (erases_lift _)

theorem erases_boundMethod (c i : Nat) (name : Ident) :
    Erases (boundMethod c i name) (Run.boundMethod c i name) := erases_keep _ _

theorem erases_getProperty (object : Value) (name : Ident) :
    Erases (getProperty object name) (Run.getProperty object name) := by
  cases object with
  | instanceRef i =>
    refine (erases_lift _).bind fun field ↦ ?_
    cases field with
    | some v => exact erases_pure v
    | none =>
      refine (erases_lift _).bind fun c ↦ ?_
      cases c with
      | some c => exact erases_boundMethod c i name
      | none => exact erases_lift _
  | _ => exact erases_lift _

theorem erases_superMethod (id line : Nat) (method : Ident) :
    Erases (superMethod id line method) (Run.superMethod id line method) := by
  refine erases_note_bind _ <| (erases_lift _).bind fun distance ↦ ?_
  cases distance with
  | none => exact erases_throw _
  | some distance =>
    refine (erases_lift _).bind fun superclass ↦ ?_
    cases superclass with
    | classRef c =>
      refine (erases_lift _).bind fun receiver ↦ ?_
      cases receiver with
      | instanceRef i => exact erases_boundMethod c i method
      | _ => exact erases_lift _
    | _ => exact erases_lift _

/-! ### Calls -/

section

variable {body : List Stmt → Watched Flow} {body' : List Stmt → Run Flow}
  (hbody : ∀ ss, Erases (body ss) (body' ss))
include hbody

theorem erases_callClosure (c : Closure) (display : List Activation) (arguments : List Value)
    (mark : Mark) :
    Erases (callClosure body c display arguments mark)
      (Run.callClosure body' c arguments mark) :=
  Erases.inCall ((erases_lift _).bind fun _ ↦ (erases_lift _).bind fun _ ↦
    ((hbody c.body).inFrame _ display).bind fun _ ↦ erases_lift _) c mark

theorem erases_callClass (c : Nat) (arguments : List Value) (mark : Mark) :
    Erases (callClass body c arguments mark) (Run.callClass body' c arguments mark) := by
  refine (erases_lift _).bind fun i ↦ (erases_lift _).bind fun method ↦ ?_
  cases method with
  | none => exact erases_pure _
  | some method =>
    exact erases_look_bind _ fun display ↦ (erases_lift _).bind fun bound ↦
      (erases_callClosure hbody bound display arguments mark).bind fun _ ↦ erases_pure _

theorem erases_callValue (v : Value) (vs : List Value) (line : Nat) :
    Erases (callValue body v vs line) (Run.callValue body' v vs line) := by
  refine erases_note_bind _ ?_
  cases v with
  | native f =>
    cases f
    exact (erases_lift _).bind fun _ ↦ erases_lift _
  | functionRef i =>
    refine (erases_lift _).bind fun c ↦ ?_
    cases c with
    | none => exact erases_lift _
    | some c =>
      exact (erases_lift _).bind fun _ ↦ erases_look_bind _ fun display ↦
        erases_callClosure hbody c display vs _
  | classRef c =>
    exact (erases_lift _).bind fun arity ↦ (erases_lift _).bind fun _ ↦
      erases_callClass hbody c vs _
  | _ => exact erases_lift _

end

/-! ### Statements with parts -/

theorem erases_repeatWhile {condition : Watched Value} {condition' : Run Value}
    {body : Watched Flow} {body' : Run Flow} (hcondition : Erases condition condition')
    (hbody : Erases body body') (turns : Nat) :
    Erases (repeatWhile condition body turns) (Run.repeatWhile condition' body' turns) := by
  induction turns with
  | zero => exact erases_throw _
  | succ turns ih =>
    refine hcondition.bind fun v ↦ ?_
    split
    · refine hbody.bind fun flow ↦ ?_
      cases flow with
      | next => exact ih
      | returned v => exact erases_pure _
    · exact erases_pure _

theorem Erases.inBlock (h : Erases p q) (body : List Stmt) :
    Erases (inBlock body p) (Run.inBlock q) :=
  (erases_lift _).bind fun _ ↦ (erases_lift _).bind fun _ ↦ erases_look_bind _ fun outer ↦
    h.inFrame _ outer

theorem erases_declareClass (name : Ident) (superclass : Option SuperclassName)
    (methods : List FunctionDecl) :
    Erases (declareClass name superclass methods) (Run.declareClass name superclass methods) := by
  have hnote : Erases (noteSuperclass superclass) (pure ()) := by
    cases superclass with
    | none => exact erases_pure ()
    | some s => exact erases_note _
  exact hnote.andThen (erases_keep _ _)

end Watched

/-! ### Expressions and statements -/

open Watched

variable {watched : WatchedCall} {call : Call} {turns : Nat}

/-- Watched calls do to the machine what calls do. -/
def CallErases (watched : WatchedCall) (call : Call) : Prop :=
  ∀ v vs line, Erases (watched v vs line) (call v vs line)

mutual

theorem Expr.erases_watch (hcall : CallErases watched call) : ∀ e : Expr,
    Erases (e.watch watched turns) (e.eval call turns)
  | .literal _ _ => by
    rw [Expr.watch, Expr.eval]
    exact erases_note_bind _ (erases_pure _)
  | .grouping _ inner => by
    rw [Expr.watch, Expr.eval]
    exact erases_note_bind _ (inner.erases_watch hcall)
  | .unary _ _ _ operand => by
    rw [Expr.watch, Expr.eval]
    exact erases_note_bind _ <| (operand.erases_watch hcall).bind fun _ ↦ erases_lift _
  | .binary _ _ _ left right => by
    rw [Expr.watch, Expr.eval]
    exact erases_note_bind _ <| (left.erases_watch hcall).bind fun _ ↦
      (right.erases_watch hcall).bind fun _ ↦ erases_lift _
  | .logical _ _ _ left right => by
    rw [Expr.watch, Expr.eval]
    refine erases_note_bind _ <| (left.erases_watch hcall).bind fun v ↦ ?_
    split
    · exact erases_pure v
    · exact right.erases_watch hcall
  | .read id name => by
    rw [Expr.watch, Expr.eval]
    exact erases_note_bind _ (erases_readName id name.name name.line)
  | .assign id name value => by
    rw [Expr.watch, Expr.eval]
    exact erases_note_bind _ <| (value.erases_watch hcall).bind fun v ↦
      (erases_assignName id name.name name.line v).bind fun _ ↦ erases_pure v
  | .call _ callee line arguments => by
    rw [Expr.watch, Expr.eval]
    exact erases_note_bind _ <| (callee.erases_watch hcall).bind fun v ↦
      (erases_watchExprs hcall arguments).bind fun vs ↦ hcall v vs line
  | .lambda _ _ _ _ => by
    rw [Expr.watch, Expr.eval]
    exact erases_note_bind _ (erases_keep _ _)
  | .get _ object name => by
    rw [Expr.watch, Expr.eval]
    exact erases_note_bind _ <| (object.erases_watch hcall).bind fun v ↦ erases_getProperty v name
  | .set _ object name value => by
    rw [Expr.watch, Expr.eval]
    exact erases_note_bind _ <| (object.erases_watch hcall).bind fun _ ↦ (erases_lift _).bind
      fun _ ↦ (value.erases_watch hcall).bind fun v ↦ (erases_lift _).bind fun _ ↦ erases_pure v
  | .this id line => by
    rw [Expr.watch, Expr.eval]
    exact erases_note_bind _ (erases_readName id .this line)
  | .super id line method => by
    rw [Expr.watch, Expr.eval]
    exact erases_note_bind _ (erases_superMethod id line method)

theorem erases_watchExprs (hcall : CallErases watched call) : ∀ es : List Expr,
    Erases (watchExprs watched turns es) (evalExprs call turns es)
  | [] => by
    rw [watchExprs, evalExprs]
    exact erases_pure []
  | e :: es => by
    rw [watchExprs, evalExprs]
    exact (e.erases_watch hcall).bind fun v ↦ (erases_watchExprs hcall es).bind fun vs ↦
      erases_pure (v :: vs)

theorem Stmt.erases_watch (hcall : CallErases watched call) : ∀ s : Stmt,
    Erases (s.watch watched turns) (s.exec call turns)
  | .expression e => by
    rw [Stmt.watch, Stmt.exec]
    exact erases_note_bind _ <| (e.erases_watch hcall).bind fun _ ↦ erases_pure _
  | .print line value => by
    rw [Stmt.watch, Stmt.exec]
    exact erases_note_bind _ <| (value.erases_watch hcall).bind fun v ↦ (erases_lift _).bind
      fun _ ↦ erases_pure _
  | .varDecl name none => by
    rw [Stmt.watch, Stmt.exec]
    exact erases_note_bind _ <| (erases_keep _ _).bind fun _ ↦ erases_pure _
  | .varDecl name (some value) => by
    rw [Stmt.watch, Stmt.exec]
    exact erases_note_bind _ <| (erases_keep _ (pure ())).andThen <|
      (value.erases_watch hcall).bind fun v ↦ (erases_keep _ _).bind fun _ ↦ erases_pure _
  | .block body => by
    rw [Stmt.watch, Stmt.exec]
    exact erases_note_bind _ ((erases_watchStmts hcall body).inBlock body)
  | .ifElse condition thenBranch none => by
    rw [Stmt.watch, Stmt.exec]
    refine erases_note_bind _ <| (condition.erases_watch hcall).bind fun v ↦ ?_
    split
    · exact thenBranch.erases_watch hcall
    · exact erases_pure _
  | .ifElse condition thenBranch (some elseBranch) => by
    rw [Stmt.watch, Stmt.exec]
    refine erases_note_bind _ <| (condition.erases_watch hcall).bind fun v ↦ ?_
    split
    · exact thenBranch.erases_watch hcall
    · exact elseBranch.erases_watch hcall
  | .whileLoop condition body => by
    rw [Stmt.watch, Stmt.exec]
    exact erases_note_bind _ <|
      erases_repeatWhile (condition.erases_watch hcall) (body.erases_watch hcall) turns
  | .funDecl decl => by
    rw [Stmt.watch, Stmt.exec]
    exact erases_note_bind _ <| (erases_keep _ _).bind fun _ ↦ erases_pure _
  | .returns _ none => by
    rw [Stmt.watch, Stmt.exec]
    exact erases_note_bind _ (erases_pure _)
  | .returns _ (some value) => by
    rw [Stmt.watch, Stmt.exec]
    exact erases_note_bind _ <| (value.erases_watch hcall).bind fun v ↦ erases_pure _
  | .classDecl name superclass methods => by
    rw [Stmt.watch, Stmt.exec]
    exact erases_note_bind _ <| (erases_declareClass name superclass methods).bind fun _ ↦
      erases_pure _

theorem erases_watchStmts (hcall : CallErases watched call) : ∀ ss : List Stmt,
    Erases (watchStmts watched turns ss) (execStmts call turns ss)
  | [] => by
    rw [watchStmts, execStmts]
    exact erases_pure _
  | s :: ss => by
    rw [watchStmts, execStmts]
    refine (s.erases_watch hcall).bind fun flow ↦ ?_
    cases flow with
    | next => exact erases_watchStmts hcall ss
    | returned v => exact erases_pure _

end

theorem erases_watchCallAt (turns level : Nat) :
    CallErases (watchCallAt turns level) (callAt turns level) := by
  induction level with
  | zero => exact fun _ _ _ ↦ erases_throw _
  | succ level ih => exact erases_callValue (erases_watchStmts ih)

/-- Watching a program changes nothing. -/
theorem erases_watchProgram (turns : Nat) (program : List Stmt) :
    Erases (watchProgram turns program) (executeProgram turns program) := by
  induction program with
  | nil => exact erases_pure ()
  | cons s ss ih => exact (s.erases_watch (erases_watchCallAt turns enoughLevels)).bind fun _ ↦ ih

end LexScript
