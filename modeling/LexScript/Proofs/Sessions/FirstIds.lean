import LexScript.Proofs.Relabelling.Programs

/-!
# Parsing from another first id

A parser gives out ids and never looks at one. From a first id further on it takes the same tokens,
records the same errors and gives out ids that are as much further on, also for tokens that form
no program.

## Main definitions

* `Cursor.later` : a cursor with later ids to give out.
* `Parse.Shifts` : a parser that does from later ids on what another one does.

## Main statements

* `parse_add` : parsing from another first id.
-/

namespace LexScript

/-- Ids moved by a distance, and all lines kept. -/
def Relabelling.later (d : Nat) : Relabelling := ⟨(· + d), id⟩

/-- A cursor that is to give out later ids. -/
def Cursor.later (d : Nat) (c : Cursor) : Cursor := { c with nextId := c.nextId + d }

theorem Cursor.token_later (d : Nat) (c : Cursor) : (c.later d).token = c.token := rfl

namespace Parse

variable {α β γ δ : Type} {d : Nat}

/-- How a parser ends, with another result and with later ids. -/
def endLater (d : Nat) (g : α → β) :
    EStateM.Result SyntaxError Cursor α → EStateM.Result SyntaxError Cursor β
  | .ok a c => .ok (g a) (c.later d)
  | .error e c => .error e (c.later d)

/-- From later ids on, the second parser does what the first one does, with a result that is
replaced. -/
def Shifts (d : Nat) (g : α → β) (p : Parse α) (q : Parse β) : Prop :=
  ∀ c : Cursor, q (c.later d) = endLater d g (p c)

variable {g : α → β} {g' : γ → δ}

/-! ### Composed parsers -/

theorem shifts_pure (a : α) : Shifts d g (pure a) (pure (g a)) := fun _ ↦ rfl

theorem shifts_throw (e : SyntaxError) : Shifts d g (throw e) (throw e) := fun _ ↦ rfl

theorem shifts_fail (fault : SyntaxFault) : Shifts d g (fail fault) (fail fault) := fun _ ↦ rfl

theorem Shifts.bind {p : Parse α} {q : Parse β} {f : α → Parse γ} {f' : β → Parse δ}
    (hp : Shifts d g p q) (hf : ∀ a, Shifts d g' (f a) (f' (g a))) :
    Shifts d g' (p >>= f) (q >>= f') := by
  intro c
  rw [bind_apply, bind_apply, hp c]
  cases h : p c with
  | error e c' => rfl
  | ok a c' => exact hf a c'

/-- If the result itself is not replaced, what goes on with it is the same on both sides. -/
theorem Shifts.andThen {p q : Parse α} {f : α → Parse γ} {f' : α → Parse δ}
    (hp : Shifts d id p q) (hf : ∀ a, Shifts d g' (f a) (f' a)) :
    Shifts d g' (p >>= f) (q >>= f') := hp.bind hf

theorem Shifts.map {p : Parse α} {q : Parse β} (hp : Shifts d g p q) {f : α → γ} {f' : β → δ}
    (hf : ∀ a, f' (g a) = g' (f a)) : Shifts d g' (f <$> p) (f' <$> q) := by
  intro c
  rw [map_apply, map_apply, hp c]
  cases h : p c with
  | error e c' => rfl
  | ok a c' =>
    simp only [endLater, hf]

theorem Shifts.some {p : Parse α} {q : Parse β} (hp : Shifts d g p q) :
    Shifts d (Option.map g) (Option.some <$> p) (Option.some <$> q) := hp.map fun _ ↦ rfl

/-- What a parser does next may depend on all of its cursor but the ids. -/
theorem shifts_cursor {f : Cursor → Parse α} {f' : Cursor → Parse β}
    (h : ∀ c : Cursor, Shifts d g (f c) (f' (c.later d))) :
    Shifts d g (cursor >>= f) (cursor >>= f') := fun c ↦ h c c

theorem shifts_cond {p p' : Parse α} {q q' : Parse β} (b : Bool) (h : Shifts d g p q)
    (h' : Shifts d g p' q') : Shifts d g (if b then p else p') (if b then q else q') := by
  cases b
  · exact h'
  · exact h

/-! ### Moving on -/

theorem shifts_record (fault : SyntaxFault) : Shifts d id (record fault) (record fault) :=
  fun _ ↦ rfl

theorem shifts_skip : Shifts d id skip skip := fun _ ↦ rfl

theorem shifts_freshId : Shifts d (· + d) freshId freshId := by
  intro c
  simp only [freshId, Cursor.later, endLater, Nat.add_right_comm]

theorem shifts_accept (kind : TokenKind) : Shifts d id (accept kind) (accept kind) :=
  shifts_cursor fun c ↦ shifts_cond (c.sees kind) (shifts_skip.andThen fun _ ↦ shifts_pure true)
    (shifts_pure false)

theorem shifts_expectSymbol (s : Symbol) (spot : Spot) :
    Shifts d id (expectSymbol s spot) (expectSymbol s spot) :=
  shifts_cursor fun c ↦ shifts_cond (c.token.kind == .symbol s)
    (shifts_skip.andThen fun _ ↦ shifts_pure c.token.line) (shifts_fail _)

theorem shifts_expectName (role : NameRole) :
    Shifts d id (expectName role) (expectName role) := by
  refine shifts_cursor fun c ↦ ?_
  rw [Cursor.token_later]
  split
  · exact shifts_skip.andThen fun _ ↦ shifts_pure _
  · exact shifts_fail _

theorem shifts_ifSees (kind : TokenKind) {p p' : Parse α} {q q' : Parse β} (h : Shifts d g p q)
    (h' : Shifts d g p' q') :
    Shifts d g (do if (← cursor).sees kind then p else p')
      (do if (← cursor).sees kind then q else q') :=
  shifts_cursor fun c ↦ shifts_cond (c.sees kind) h h'

theorem Shifts.recover {p : Parse α} {q : Parse β} (h : Shifts d g p q) :
    Shifts d (Option.map g) (recover p) (recover q) := by
  intro c
  simp only [Parse.recover, h c]
  cases p c with
  | ok a c' => rfl
  | error e c' => rfl

theorem Shifts.commaSeparated {p : Parse α} {q : Parse β} (h : Shifts d g p q)
    (excess : SyntaxFault) (bound count : Nat) :
    Shifts d (List.map g) (commaSeparated excess p bound count)
      (commaSeparated excess q bound count) := by
  induction bound generalizing count with
  | zero => exact shifts_fail _
  | succ bound ih =>
    have hlist : Shifts d (List.map g)
        (do
          let first ← p
          if ← accept (.symbol .comma) then
            let others ← Parse.commaSeparated excess p bound (count + 1)
            pure (first :: others)
          else
            pure [first])
        (do
          let first ← q
          if ← accept (.symbol .comma) then
            let others ← Parse.commaSeparated excess q bound (count + 1)
            pure (first :: others)
          else
            pure [first]) :=
      h.bind fun a ↦ (shifts_accept _).andThen fun b ↦ shifts_cond b
        ((ih (count + 1)).bind fun as ↦ shifts_pure (a :: as)) (shifts_pure [a])
    unfold Parse.commaSeparated
    split
    · exact (shifts_record excess).andThen fun _ ↦ hlist
    · exact (shifts_pure (g := id) ()).andThen fun _ ↦ hlist

theorem Shifts.itemsUntil {p : Parse α} {q : Parse β} (h : Shifts d g p q)
    (stop : Cursor → Bool) (hstop : ∀ c : Cursor, stop (c.later d) = stop c) (bound : Nat) :
    Shifts d (List.map g) (itemsUntil stop p bound) (itemsUntil stop q bound) := by
  induction bound with
  | zero => exact shifts_fail _
  | succ bound ih =>
    have hitems : Shifts d (List.map g)
        (do
          let first ← p
          let others ← Parse.itemsUntil stop p bound
          pure (first :: others))
        (do
          let first ← q
          let others ← Parse.itemsUntil stop q bound
          pure (first :: others)) :=
      h.bind fun a ↦ ih.bind fun as ↦ shifts_pure (a :: as)
    intro c
    change (if stop (c.later d) then pure [] else _ : Parse (List β)) (c.later d) = _
    rw [hstop c]
    exact shifts_cond (stop c) (shifts_pure []) hitems c

end Parse

namespace Rules

open Parse

/-- The rules do from later ids on what they do otherwise. -/
structure Shift (d : Nat) (r : Rules) : Prop where
  expression : Shifts d (Expr.relabel (.later d)) r.expression r.expression
  unary : Shifts d (Expr.relabel (.later d)) r.unary r.unary
  statement : Shifts d (Stmt.relabel (.later d)) r.statement r.statement
  declaration :
    Shifts d (Option.map (Stmt.relabel (.later d))) r.declaration r.declaration

variable {d : Nat} {r : Rules} (hr : r.Shift d) (bound : Nat)

/-- Lines stay as they are, and with them identifiers. -/
theorem map_relabel_later (xs : List Ident) : xs.map (Ident.relabel (.later d)) = xs :=
  List.map_id xs

theorem filterMap_relabel (items : List (Option Stmt)) :
    (items.map (Option.map (Stmt.relabel (.later d)))).filterMap id =
      relabelProgram (.later d) (items.filterMap id) := by
  induction items with
  | nil => rfl
  | cons item items ih =>
    cases item with
    | none => simpa using ih
    | some s => simpa [relabelProgram] using ih

include hr

/-! ### Functions -/

theorem shifts_block :
    Shifts d (relabelProgram (.later d)) (r.block bound) (r.block bound) :=
  (hr.declaration.itemsUntil Cursor.atBlockEnd (fun _ ↦ rfl) bound).bind fun items ↦
    (shifts_expectSymbol _ _).andThen fun _ ↦ by
      rw [filterMap_relabel]
      exact shifts_pure _

theorem shifts_behindParameters (form : FunctionForm) (params : List Ident) :
    Shifts d (Prod.map id (relabelProgram (.later d))) (r.behindParameters bound form params)
      (r.behindParameters bound form params) :=
  (shifts_expectSymbol _ _).andThen fun _ ↦ (shifts_expectSymbol _ _).andThen fun _ ↦
    (shifts_block hr bound).bind fun body ↦ shifts_pure (params, body)

theorem shifts_functionTail (form : FunctionForm) :
    Shifts d (Prod.map id (relabelProgram (.later d))) (r.functionTail bound form)
      (r.functionTail bound form) := by
  have hnames := (shifts_expectName (d := d) .parameter).commaSeparated .tooManyParameters bound 0
  rw [List.map_id_fun] at hnames
  have hrest := shifts_behindParameters hr bound form
  exact shifts_ifSees _ ((shifts_pure []).andThen hrest) (hnames.andThen hrest)

theorem shifts_function (form : FunctionForm) :
    Shifts d (FunctionDecl.relabel (.later d)) (r.function bound form) (r.function bound form) :=
  (shifts_expectName _).andThen fun name ↦ (shifts_expectSymbol _ _).andThen fun _ ↦
    (shifts_functionTail hr bound form).bind fun (params, body) ↦ by
      have hdecl : FunctionDecl.relabel (.later d) (.mk name params body) =
          .mk name params (relabelProgram (.later d) body) := by
        rw [FunctionDecl.relabel, map_relabel_later]
        rfl
      have := shifts_pure (d := d) (g := FunctionDecl.relabel (.later d)) (.mk name params body)
      rwa [hdecl] at this

/-! ### Expressions -/

omit hr in
/-- An expression that is made of a new id. -/
theorem shifts_fresh {make make' : Nat → Expr}
    (hmake : ∀ i, (make i).relabel (.later d) = make' (i + d)) :
    Shifts d (Expr.relabel (.later d)) (do pure (make (← freshId)))
      (do pure (make' (← freshId))) :=
  shifts_freshId.bind fun i ↦ hmake i ▸ shifts_pure (make i)

omit hr in
theorem shifts_leaf {make : Nat → Expr}
    (hmake : ∀ i, (make i).relabel (.later d) = make (i + d)) :
    Shifts d (Expr.relabel (.later d)) (leaf make) (leaf make) :=
  shifts_skip.andThen fun _ ↦ shifts_fresh hmake

theorem shifts_primary :
    Shifts d (Expr.relabel (.later d)) (r.primary bound) (r.primary bound) := by
  refine shifts_cursor fun c ↦ ?_
  simp only [Cursor.token_later]
  split
  case h_8 =>
    exact shifts_skip.andThen fun _ ↦ (shifts_expectSymbol _ _).andThen fun _ ↦
      (shifts_expectName _).andThen fun x ↦ shifts_fresh fun i ↦ by
        rw [Expr.relabel]
        rfl
  case h_9 =>
    exact shifts_skip.andThen fun _ ↦ hr.expression.bind fun e ↦
      (shifts_expectSymbol _ _).andThen fun _ ↦ shifts_fresh fun i ↦ by
        rw [Expr.relabel]
        rfl
  case h_10 =>
    exact shifts_skip.andThen fun _ ↦ (shifts_expectSymbol _ _).andThen fun _ ↦
      (shifts_functionTail hr bound .lambda).bind fun (params, body) ↦ shifts_fresh fun i ↦ by
        rw [Expr.relabel, map_relabel_later]
        rfl
  case h_11 => exact shifts_fail _
  all_goals
    refine shifts_leaf fun i ↦ ?_
    rw [Expr.relabel]
    rfl

theorem shifts_finishCall (callee : Expr) :
    Shifts d (Expr.relabel (.later d)) (r.finishCall bound callee)
      (r.finishCall bound (callee.relabel (.later d))) := by
  have harguments := hr.expression.commaSeparated .tooManyArguments bound 0
  have hrest (es : List Expr) : Shifts d (Expr.relabel (.later d))
      (do
        let line ← expectSymbol .rightParen .afterArguments
        pure (.call (← freshId) callee line es))
      (do
        let line ← expectSymbol .rightParen .afterArguments
        pure (.call (← freshId) (callee.relabel (.later d)) line
          (es.map (Expr.relabel (.later d))))) :=
    (shifts_expectSymbol _ _).andThen fun line ↦ shifts_fresh fun i ↦ by
      rw [Expr.relabel, relabelExprs_eq_map]
      rfl
  exact shifts_ifSees _ ((shifts_pure []).bind hrest) (harguments.bind hrest)

theorem shifts_callTail (turns : Nat) (e : Expr) :
    Shifts d (Expr.relabel (.later d)) (r.callTail bound turns e)
      (r.callTail bound turns (e.relabel (.later d))) := by
  induction turns generalizing e with
  | zero => exact shifts_fail _
  | succ turns ih =>
    refine (shifts_accept _).andThen fun b ↦ shifts_cond b
      ((shifts_finishCall hr bound e).bind ih) ?_
    refine (shifts_accept _).andThen fun b ↦ shifts_cond b ?_ (shifts_pure e)
    refine (shifts_expectName _).andThen fun x ↦ shifts_freshId.bind fun i ↦ ?_
    have hget : (Expr.get i e x).relabel (.later d) = .get (i + d) (e.relabel (.later d)) x := by
      rw [Expr.relabel]
      rfl
    exact hget ▸ ih (.get i e x)

theorem shifts_call : Shifts d (Expr.relabel (.later d)) (r.call bound) (r.call bound) :=
  (shifts_primary hr bound).bind (shifts_callTail hr bound bound)

theorem shifts_unaryLevel :
    Shifts d (Expr.relabel (.later d)) (r.unaryLevel bound) (r.unaryLevel bound) := by
  refine shifts_cursor fun c ↦ ?_
  simp only [Cursor.token_later]
  split
  · exact shifts_skip.andThen fun _ ↦ hr.unary.bind fun e ↦ shifts_fresh fun i ↦ by
      rw [Expr.relabel]
      rfl
  · exact shifts_call hr bound

omit hr in
theorem shifts_level {β : Type} (op? : TokenKind → Option β)
    {join : Nat → β → Nat → Expr → Expr → Expr} {operand : Parse Expr}
    (hjoin : ∀ i op line a b, (join i op line a b).relabel (.later d) =
      join (i + d) op line (a.relabel (.later d)) (b.relabel (.later d)))
    (h : Shifts d (Expr.relabel (.later d)) operand operand) :
    Shifts d (Expr.relabel (.later d)) (level bound op? join operand)
      (level bound op? join operand) := by
  suffices htail : ∀ turns e, Shifts d (Expr.relabel (.later d))
      (operatorTail op? join operand turns e)
      (operatorTail op? join operand turns (e.relabel (.later d))) from h.bind (htail bound)
  intro turns
  induction turns with
  | zero => exact fun _ ↦ shifts_fail _
  | succ turns ih =>
    refine fun e ↦ shifts_cursor fun c ↦ ?_
    simp only [Cursor.token_later]
    split
    · exact shifts_skip.andThen fun _ ↦ h.bind fun e' ↦ shifts_freshId.bind fun i ↦
        hjoin i _ _ e e' ▸ ih _
    · exact shifts_pure e

theorem shifts_logicOr :
    Shifts d (Expr.relabel (.later d)) (r.logicOr bound) (r.logicOr bound) := by
  have hbinary (i : Nat) (op : BinaryOp) (line : Nat) (a b : Expr) :
      (Expr.binary i op line a b).relabel (.later d) =
        .binary (i + d) op line (a.relabel (.later d)) (b.relabel (.later d)) := by
    rw [Expr.relabel]
    rfl
  have hlogical (i : Nat) (op : LogicalOp) (line : Nat) (a b : Expr) :
      (Expr.logical i op line a b).relabel (.later d) =
        .logical (i + d) op line (a.relabel (.later d)) (b.relabel (.later d)) := by
    rw [Expr.relabel]
    rfl
  have hequality := shifts_level bound equalityOp? hbinary <|
    shifts_level bound comparisonOp? hbinary <| shifts_level bound termOp? hbinary <|
      shifts_level bound factorOp? hbinary <| shifts_unaryLevel hr bound
  exact shifts_level bound orOp? hlogical (shifts_level bound andOp? hlogical hequality)

omit hr in
theorem shifts_assignTo (target : Expr) (equals : Token) (value : Expr) :
    Shifts d (Expr.relabel (.later d)) (assignTo target equals value)
      (assignTo (target.relabel (.later d)) equals (value.relabel (.later d))) := by
  cases target
  case read =>
    rw [Expr.relabel]
    exact shifts_fresh fun i ↦ by
      rw [Expr.relabel]
      rfl
  case get =>
    rw [Expr.relabel]
    exact shifts_fresh fun i ↦ by
      rw [Expr.relabel]
      rfl
  all_goals
    rw [Expr.relabel]
    exact shifts_throw _

theorem shifts_assignment :
    Shifts d (Expr.relabel (.later d)) (r.assignment bound) (r.assignment bound) := by
  refine (shifts_logicOr hr bound).bind fun target ↦ shifts_cursor fun c ↦ ?_
  exact shifts_cond (c.token.kind == .symbol .equal)
    (shifts_skip.andThen fun _ ↦ hr.expression.bind (shifts_assignTo target c.token))
    (shifts_pure target)

/-! ### Statements -/

theorem shifts_expressionStatement :
    Shifts d (Stmt.relabel (.later d)) (r.expressionStatement bound)
      (r.expressionStatement bound) :=
  (shifts_assignment hr bound).bind fun e ↦ (shifts_expectSymbol _ _).andThen fun _ ↦ by
    have hstmt : (Stmt.expression e).relabel (.later d) = .expression (e.relabel (.later d)) := by
      rw [Stmt.relabel]
    exact hstmt ▸ shifts_pure (g := Stmt.relabel (.later d)) (.expression e)

theorem shifts_someAssignment :
    Shifts d (Option.map (Expr.relabel (.later d))) (some <$> r.assignment bound)
      (some <$> r.assignment bound) := (shifts_assignment hr bound).some

theorem shifts_varDeclaration :
    Shifts d (Stmt.relabel (.later d)) (r.varDeclaration bound) (r.varDeclaration bound) := by
  have hrest (x : Ident) (value : Option Expr) : Shifts d (Stmt.relabel (.later d))
      (do
        let _ ← expectSymbol .semicolon .afterVariableDeclaration
        pure (.varDecl x value))
      (do
        let _ ← expectSymbol .semicolon .afterVariableDeclaration
        pure (.varDecl x (value.map (Expr.relabel (.later d))))) := by
    have hstmt : (Stmt.varDecl x value).relabel (.later d) =
        .varDecl x (value.map (Expr.relabel (.later d))) := by
      cases value <;> (rw [Stmt.relabel]; rfl)
    exact (shifts_expectSymbol _ _).andThen fun _ ↦
      hstmt ▸ shifts_pure (g := Stmt.relabel (.later d)) (.varDecl x value)
  exact (shifts_expectName _).andThen fun x ↦ (shifts_accept _).andThen fun b ↦ shifts_cond b
    ((shifts_someAssignment hr bound).bind (hrest x)) ((shifts_pure none).bind (hrest x))

theorem shifts_optionalExpression (s : Symbol) :
    Shifts d (Option.map (Expr.relabel (.later d))) (r.optionalExpression bound s)
      (r.optionalExpression bound s) :=
  shifts_ifSees _ (shifts_pure none) (shifts_someAssignment hr bound)

theorem shifts_forInitializer :
    Shifts d (Option.map (Stmt.relabel (.later d))) (r.forInitializer bound)
      (r.forInitializer bound) :=
  (shifts_accept _).andThen fun b ↦ shifts_cond b (shifts_pure none) <|
    (shifts_accept _).andThen fun b ↦
      shifts_cond b (shifts_varDeclaration hr bound).some (shifts_expressionStatement hr bound).some

theorem shifts_forStatement :
    Shifts d (Stmt.relabel (.later d)) (r.forStatement bound) (r.forStatement bound) := by
  refine (shifts_expectSymbol _ _).andThen fun _ ↦ (shifts_forInitializer hr bound).bind fun i ↦
    (shifts_optionalExpression hr bound _).bind fun e ↦ (shifts_expectSymbol _ _).andThen fun _ ↦
      (shifts_optionalExpression hr bound _).bind fun a ↦ (shifts_expectSymbol _ _).andThen fun _ ↦
        hr.statement.bind fun body ↦ ?_
  have hloop (e : Expr) : Shifts d (Stmt.relabel (.later d)) (pure (forLoop i e a body))
      (pure (forLoop (i.map (Stmt.relabel (.later d))) (e.relabel (.later d))
        (a.map (Expr.relabel (.later d))) (body.relabel (.later d)))) := by
    have := Grammar.relabel_forLoop (ρ := .later d) i e a body
    rw [← forLoop_eq, ← forLoop_eq] at this
    exact this ▸ shifts_pure (g := Stmt.relabel (.later d)) (forLoop i e a body)
  cases e with
  | some e => exact (shifts_pure e).bind hloop
  | none =>
    have hliteral : Shifts d (Expr.relabel (.later d))
        (do pure (.literal (← freshId) (.boolean true)))
        (do pure (.literal (← freshId) (.boolean true))) := shifts_fresh fun i ↦ by
      rw [Expr.relabel]
      rfl
    exact (shifts_freshId.bind fun i ↦ (shifts_pure _).bind hloop)

theorem shifts_ifStatement :
    Shifts d (Stmt.relabel (.later d)) (r.ifStatement bound) (r.ifStatement bound) := by
  have hrest (e : Expr) (s : Stmt) (s' : Option Stmt) : Shifts d (Stmt.relabel (.later d))
      (pure (.ifElse e s s')) (pure (.ifElse (e.relabel (.later d)) (s.relabel (.later d))
        (s'.map (Stmt.relabel (.later d))))) := by
    have hstmt : (Stmt.ifElse e s s').relabel (.later d) = .ifElse (e.relabel (.later d))
        (s.relabel (.later d)) (s'.map (Stmt.relabel (.later d))) := by
      cases s' <;> (rw [Stmt.relabel]; rfl)
    exact hstmt ▸ shifts_pure (g := Stmt.relabel (.later d)) (.ifElse e s s')
  have hnone : Shifts d (Option.map (Stmt.relabel (.later d))) (pure none) (pure none) :=
    shifts_pure none
  exact (shifts_expectSymbol _ _).andThen fun _ ↦ (shifts_assignment hr bound).bind fun e ↦
    (shifts_expectSymbol _ _).andThen fun _ ↦ hr.statement.bind fun s ↦
      (shifts_accept _).andThen fun b ↦ shifts_cond b
        (hr.statement.some.bind (hrest e s)) (hnone.bind (hrest e s))

theorem shifts_whileStatement :
    Shifts d (Stmt.relabel (.later d)) (r.whileStatement bound) (r.whileStatement bound) := by
  refine (shifts_expectSymbol _ _).andThen fun _ ↦ (shifts_assignment hr bound).bind fun e ↦
    (shifts_expectSymbol _ _).andThen fun _ ↦ hr.statement.bind fun s ↦ ?_
  have hstmt : (Stmt.whileLoop e s).relabel (.later d) =
      .whileLoop (e.relabel (.later d)) (s.relabel (.later d)) := by rw [Stmt.relabel]
  exact hstmt ▸ shifts_pure (g := Stmt.relabel (.later d)) (.whileLoop e s)

theorem shifts_printStatement (line : Nat) :
    Shifts d (Stmt.relabel (.later d)) (r.printStatement bound line)
      (r.printStatement bound line) :=
  (shifts_assignment hr bound).bind fun e ↦ (shifts_expectSymbol _ _).andThen fun _ ↦ by
    have hstmt : (Stmt.print line e).relabel (.later d) = .print line (e.relabel (.later d)) := by
      rw [Stmt.relabel]
      rfl
    exact hstmt ▸ shifts_pure (g := Stmt.relabel (.later d)) (.print line e)

theorem shifts_returnStatement (line : Nat) :
    Shifts d (Stmt.relabel (.later d)) (r.returnStatement bound line)
      (r.returnStatement bound line) :=
  (shifts_optionalExpression hr bound _).bind fun e ↦ (shifts_expectSymbol _ _).andThen fun _ ↦ by
    have hstmt : (Stmt.returns line e).relabel (.later d) =
        .returns line (e.map (Expr.relabel (.later d))) := by
      cases e <;> (rw [Stmt.relabel]; rfl)
    exact hstmt ▸ shifts_pure (g := Stmt.relabel (.later d)) (.returns line e)

theorem shifts_plainStatement :
    Shifts d (Stmt.relabel (.later d)) (r.plainStatement bound) (r.plainStatement bound) := by
  refine shifts_cursor fun c ↦ ?_
  simp only [Cursor.token_later]
  split
  · exact shifts_skip.andThen fun _ ↦ shifts_forStatement hr bound
  · exact shifts_skip.andThen fun _ ↦ shifts_ifStatement hr bound
  · exact shifts_skip.andThen fun _ ↦ shifts_whileStatement hr bound
  · exact shifts_skip.andThen fun _ ↦ shifts_returnStatement hr bound _
  · exact shifts_skip.andThen fun _ ↦ (shifts_block hr bound).map fun body ↦ by
      rw [Stmt.relabel]
  · exact shifts_skip.andThen fun _ ↦ shifts_printStatement hr bound _
  · exact shifts_expressionStatement hr bound

/-! ### Declarations -/

omit hr in
theorem shifts_superclassClause :
    Shifts d (Option.map (SuperclassName.relabel (.later d))) superclassClause
      superclassClause :=
  (shifts_accept _).andThen fun b ↦ shifts_cond b
    ((shifts_expectName _).andThen fun x ↦ shifts_freshId.bind fun i ↦
      shifts_pure (g := Option.map (SuperclassName.relabel (.later d))) (some ⟨i, x⟩))
    (shifts_pure none)

theorem shifts_classDeclaration :
    Shifts d (Stmt.relabel (.later d)) (r.classDeclaration bound) (r.classDeclaration bound) := by
  have hmethods := (shifts_function hr bound .method).itemsUntil Cursor.atBlockEnd
    (fun _ ↦ rfl) bound
  refine (shifts_expectName _).andThen fun x ↦ shifts_superclassClause.bind fun s ↦
    (shifts_expectSymbol _ _).andThen fun _ ↦ hmethods.bind fun fs ↦
      (shifts_expectSymbol _ _).andThen fun _ ↦ ?_
  have hlist : relabelMethods (.later d) fs = fs.map (FunctionDecl.relabel (.later d)) := by
    induction fs with
    | nil => rfl
    | cons f fs ih => rw [relabelMethods, ih, List.map_cons]
  have hstmt : (Stmt.classDecl x s fs).relabel (.later d) =
      .classDecl x (s.map (SuperclassName.relabel (.later d)))
        (fs.map (FunctionDecl.relabel (.later d))) := by
    rw [Stmt.relabel, hlist]
    rfl
  exact hstmt ▸ shifts_pure (g := Stmt.relabel (.later d)) (.classDecl x s fs)

theorem shifts_plainDeclaration :
    Shifts d (Stmt.relabel (.later d)) (r.plainDeclaration bound) (r.plainDeclaration bound) := by
  refine shifts_cursor fun c ↦ ?_
  simp only [Cursor.token_later]
  split
  · exact shifts_skip.andThen fun _ ↦ shifts_classDeclaration hr bound
  · exact shifts_skip.andThen fun _ ↦ shifts_varDeclaration hr bound
  · exact shifts_cond c.seesNameNext
      (shifts_skip.andThen fun _ ↦ (shifts_function hr bound .function).map fun f ↦ by
        rw [Stmt.relabel])
      (shifts_plainStatement hr bound)
  · exact shifts_plainStatement hr bound

theorem Shift.outer : (r.outer bound).Shift d where
  expression := shifts_assignment hr bound
  unary := shifts_unaryLevel hr bound
  statement := shifts_plainStatement hr bound
  declaration := (shifts_plainDeclaration hr bound).recover

omit hr in
theorem shift_atDepth (bound depth : Nat) : (atDepth bound depth).Shift d := by
  induction depth with
  | zero => exact ⟨shifts_fail _, shifts_fail _, shifts_fail _, shifts_fail _⟩
  | succ depth ih => exact ih.outer bound

end Rules

/-! ### Programs -/

/-- Whatever the tokens, only ids depend on the first id. -/
theorem parse_add (firstId d : Nat) (tokens : List Token) :
    parse (firstId + d) tokens =
      ⟨relabelProgram (.later d) (parse firstId tokens).statements,
        (parse firstId tokens).errors, (parse firstId tokens).nextId + d⟩ := by
  have hitems := (Rules.shift_atDepth (d := d) (enoughDepth tokens)
    (enoughDepth tokens)).declaration.itemsUntil Cursor.atEnd (fun _ ↦ rfl)
    (enoughDepth tokens) (Cursor.start firstId tokens)
  have hstart : Cursor.start (firstId + d) tokens = (Cursor.start firstId tokens).later d := rfl
  rw [parse, parse, hstart, Rules.forTokens, hitems]
  cases Parse.itemsUntil Cursor.atEnd _ (enoughDepth tokens) (Cursor.start firstId tokens) with
  | ok items c =>
    simp only [Parse.endLater, Rules.filterMap_relabel]
    rfl
  | error e c => rfl

end LexScript
