import LexScript.Proofs.Actions
import LexScript.Proofs.Grammar.Phrases
import LexScript.Proofs.Heap.Growth

/-!
# Recursion without end

A function that calls itself before it does anything else is called until as many calls are in
progress as there can be. The next call is refused, and its error ends all the others.

## Main definitions

* `Machine.Recurses` : a global function that begins with a call of itself.
* `endlessRecursion` : a program with such a function.

## Main statements

* `Machine.Recurses.callAt` : a call of the function ends with the error.
* `derives_endlessRecursion` : the program is derived from its tokens.
* `executeProgram_endlessRecursion` : it ends with the error.
-/

namespace LexScript

open Run

/-- The global `f` is a function without parameters, and its body begins with a call of the global.
The use of the name has the id `id`, and the call is on the line of the name. -/
structure Machine.Recurses (m : Machine) (f : Ident) (k id : Nat) (c : Closure) : Prop where
  globals : Frames.globals < m.heap.frames.size
  outermost : m.heap.frames.enclosing? Frames.globals = none
  find : m.heap.frames.find? Frames.globals f.name = some (.functionRef k)
  distance : m.distances.find? id = none
  function : m.heap.functions[k]? = some c
  params : c.params = []
  body : ∃ call rest, c.body = .expression (.call call (.read id f) f.line []) :: rest

variable {m : Machine} {f : Ident} {k id turns level : Nat} {c : Closure}

/-- A global is read from the globals. -/
theorem readName_of_find? (hglobals : Frames.globals < m.heap.frames.size)
    (houtermost : m.heap.frames.enclosing? Frames.globals = none) {x : Name} {v : Value}
    (hfind : m.heap.frames.find? Frames.globals x = some v)
    (hdistance : m.distances.find? id = none) (line : Nat) : readName id x line m = .ok v m := by
  have hbinds : m.heap.frames.binds Frames.globals x = true := by
    rw [Frames.binds, hfind]
    rfl
  simp only [readName, bind_apply, distanceOf, hdistance, readGlobal, Frames.get,
    Frames.owner?_of_enclosing?_eq_none _ hglobals houtermost, hbinds, if_true, Option.bind_some,
    hfind]

/-- A call of a global without arguments. -/
theorem eval_call_of_readName {call : Call} {i : Nat} {v : Value}
    (hread : readName id f.name f.line m = .ok v m) :
    (Expr.call i (.read id f) f.line []).eval call turns m = call v [] f.line m := by
  simp only [Expr.eval, evalExprs, bind_apply, hread, pure_apply]

namespace Machine.Recurses

/-- What recurses also does so one call further. -/
theorem call (h : m.Recurses f k id c) (outer current depth : Nat) :
    Recurses { m with heap := (m.heap.newFrame outer).2, current := current, depth := depth }
      f k id c :=
  { h with
    globals := Nat.lt_of_lt_of_le h.globals (m.heap.growsTo_newFrame outer).frames
    outermost := ((m.heap.growsTo_newFrame outer).enclosing _ h.globals).trans h.outermost
    find := (Frames.find?_push _ _ _ _).trans h.find }

theorem readName (h : m.Recurses f k id c) :
    Run.readName id f.name f.line m = .ok (.functionRef k) m :=
  readName_of_find? h.globals h.outermost h.find h.distance f.line

/-- A call of the function ends with the error of the call that is refused. The induction is on the
number of calls that can still be made. -/
theorem callAt (n : Nat) {m : Machine} (h : m.Recurses f k id c) (hdepth : m.depth + n = maxCalls)
    (hlevel : n ≤ level) :
    ∃ m', LexScript.callAt turns (level + 1) (.functionRef k) [] f.line m =
      .error (.fault ⟨.stackOverflow, ⟨Symbol.rightParen.spelling, f.line⟩⟩) m' := by
  induction n generalizing m level with
  | zero =>
    have hfull : maxCalls ≤ m.depth := Nat.le_of_eq hdepth.symm
    refine ⟨m, ?_⟩
    simp only [LexScript.callAt, callValue, bind_apply, ask, h.function, checkArity, Closure.arity,
      h.params, List.length_nil, if_true, pure_apply, callClosure, inCall, hfull]
  | succ n ih =>
    have hroom : ¬maxCalls ≤ m.depth := by omega
    obtain ⟨level, rfl⟩ := Nat.exists_eq_add_one_of_ne_zero (Nat.ne_zero_of_lt hlevel)
    obtain ⟨call, rest, hbody⟩ := h.body
    have hinner := h.call c.frame m.heap.frames.size (m.depth + 1)
    obtain ⟨m', hm'⟩ := ih hinner (by simp only; omega) (Nat.le_of_succ_le_succ hlevel)
    -- The body runs in a new frame as one more call, and begins with a call of the function.
    have hcall : (Expr.call call (.read id f) f.line []).eval
        (LexScript.callAt turns (level + 1)) turns _ = _ :=
      (eval_call_of_readName hinner.readName).trans hm'
    refine ⟨{ m' with current := m.current, depth := m'.depth - 1 }, ?_⟩
    rw [LexScript.callAt]
    simp only [callValue, bind_apply, ask, h.function, checkArity, Closure.arity, h.params,
      List.length_nil, if_true, pure_apply, callClosure, inCall, hroom, if_false, change,
      Heap.newFrame, bindParams, List.zip_nil_left, List.foldl_nil, inFrame, hbody, execStmts,
      Stmt.exec] at hcall ⊢
    rw [hcall]

end Machine.Recurses

/-- A program that declares a function which calls itself, and calls it on the same line. -/
def endlessRecursion (f : Ident) (i id i' id' : Nat) : List Stmt :=
  [.funDecl (.mk f [] [.expression (.call i (.read id f) f.line [])]),
    .expression (.call i' (.read id' f) f.line [])]

open Grammar in
/-- The program is derived from its tokens. -/
theorem derives_endlessRecursion (f : Ident) (n : Nat) :
    Derives .nearest .declarations
      [word .funWord f.line, named f, sym .leftParen f.line, sym .rightParen f.line,
        sym .leftBrace f.line, named f, sym .leftParen f.line, sym .rightParen f.line,
        sym .semicolon f.line, sym .rightBrace f.line,
        named f, sym .leftParen f.line, sym .rightParen f.line, sym .semicolon f.line] n
      (.stmts (endlessRecursion f (n + 1) n (n + 3) (n + 2))) (n + 4) := by
  have hcall (n : Nat) : Derives .nearest .call
      ([named f] ++ sym .leftParen f.line :: ([] ++ [sym .rightParen f.line])) n
      (.expr (.call (n + 1) (.read n f) f.line [])) (n + 2) :=
    .call (.operand .name) .noArguments
  have hstatement (n : Nat) : Derives .nearest .declarations
      ([named f, sym .leftParen f.line, sym .rightParen f.line] ++ [sym .semicolon f.line] ++ []) n
      (.stmts [.expression (.call (n + 1) (.read n f) f.line [])]) (n + 2) :=
    .declarations (.statement (.expression (.exprStmt (.value (hcall n).toLevels))))
      .noDeclarations
  exact .declarations (.funDecl (.function .noParameters (.block (hstatement n))))
    (hstatement (n + 2))

/-- Endless recursion of a global function ends with the error. -/
theorem executeProgram_endlessRecursion (hcurrent : m.current = Frames.globals)
    (hdepth : m.depth = 0) (hglobals : Frames.globals < m.heap.frames.size)
    (houtermost : m.heap.frames.enclosing? Frames.globals = none) {id' : Nat}
    (hid : m.distances.find? id = none) (hid' : m.distances.find? id' = none) (i i' turns : Nat) :
    ∃ m', executeProgram turns (endlessRecursion f i id i' id') m =
      .error (.fault ⟨.stackOverflow, ⟨Symbol.rightParen.spelling, f.line⟩⟩) m' := by
  let c : Closure :=
    ⟨some f.text, [], [.expression (.call i (.read id f) f.line [])], Frames.globals, false⟩
  let k := m.heap.functions.size
  let h := (m.heap.newFunction c).2.define Frames.globals f.name (.functionRef k)
  have hrecurses : Machine.Recurses { m with heap := h } f k id c :=
    { globals := Nat.lt_of_lt_of_eq hglobals (Frames.size_define ..).symm
      outermost := (Frames.enclosing?_define ..).trans houtermost
      find := (Frames.find?_define ..).trans (if_pos ⟨rfl, rfl, hglobals⟩)
      distance := hid
      function := Array.getElem?_push_size ..
      params := rfl
      body := ⟨i, [], rfl⟩ }
  have hread : readName id' f.name f.line { m with heap := h } = .ok (.functionRef k) _ :=
    readName_of_find? hrecurses.globals hrecurses.outermost hrecurses.find hid' f.line
  obtain ⟨m', hm'⟩ := hrecurses.callAt maxCalls ((congrArg (· + maxCalls) hdepth).trans (by simp))
    (Nat.le_refl maxCalls)
  have hcall : (Expr.call i' (.read id' f) f.line []).eval (callAt turns (maxCalls + 1)) turns
      { m with heap := h } = _ := (eval_call_of_readName hread).trans hm'
  have hdeclare : declareFunction (.mk f [] [.expression (.call i (.read id f) f.line [])]) m =
      .ok () { m with heap := h } := by
    simp only [declareFunction, bind_apply, currentFrame, newFunction, change, Heap.newFunction,
      define, hcurrent]
    rfl
  refine ⟨m', ?_⟩
  simp only [endlessRecursion, executeProgram, execute, Stmt.exec, bind_apply, hdeclare, pure_apply,
    enoughLevels, hcall]

end LexScript
