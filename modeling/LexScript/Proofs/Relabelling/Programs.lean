import LexScript.Proofs.Grammar.Acceptance

/-!
# Programs with other ids and lines

What a program does depends neither on the ids of its expressions nor on the lines of its
tokens, except that ids are compared and lines are reported. To make this precise, a relabelling
replaces both. A phrase of relabelled tokens has the relabelled tree, provided that the ids of
the tree are moved as a whole, as they are if parsing starts at another first id.

## Main definitions

* `Relabelling` : what replaces ids and lines.
* `Expr.relabel`, `Stmt.relabel`, `relabelProgram` : trees with other ids and lines.

## Main statements

* `relabelProgram_relabelProgram` : a program that is relabelled twice.
* `Grammar.Derives.relabel` : a derivation of relabelled tokens.
* `relabelProgram_eq_self` : replacing only ids and lines that a program does not have changes
  nothing.
-/

namespace LexScript

/-- What replaces the ids and the lines of a program. -/
structure Relabelling where
  ids : Nat → Nat
  lines : Nat → Nat

/-! ### Relabelled trees -/

/-- A token on another line. -/
def Token.relabel (ρ : Relabelling) (t : Token) : Token := ⟨t.kind, ρ.lines t.line⟩

/-- An identifier on another line. -/
def Ident.relabel (ρ : Relabelling) (x : Ident) : Ident := ⟨x.text, ρ.lines x.line⟩

/-- The name of a superclass with another id and on another line. -/
def SuperclassName.relabel (ρ : Relabelling) (s : SuperclassName) : SuperclassName :=
  ⟨ρ.ids s.id, s.ident.relabel ρ⟩

mutual

/-- An expression with other ids and lines. -/
def Expr.relabel (ρ : Relabelling) : Expr → Expr
  | .literal id value => .literal (ρ.ids id) value
  | .grouping id inner => .grouping (ρ.ids id) (inner.relabel ρ)
  | .unary id op line operand => .unary (ρ.ids id) op (ρ.lines line) (operand.relabel ρ)
  | .binary id op line left right =>
    .binary (ρ.ids id) op (ρ.lines line) (left.relabel ρ) (right.relabel ρ)
  | .logical id op line left right =>
    .logical (ρ.ids id) op (ρ.lines line) (left.relabel ρ) (right.relabel ρ)
  | .read id name => .read (ρ.ids id) (name.relabel ρ)
  | .assign id name value => .assign (ρ.ids id) (name.relabel ρ) (value.relabel ρ)
  | .call id callee line arguments =>
    .call (ρ.ids id) (callee.relabel ρ) (ρ.lines line) (relabelExprs ρ arguments)
  | .lambda id line params body =>
    .lambda (ρ.ids id) (ρ.lines line) (params.map (Ident.relabel ρ)) (relabelProgram ρ body)
  | .get id object name => .get (ρ.ids id) (object.relabel ρ) (name.relabel ρ)
  | .set id object name value =>
    .set (ρ.ids id) (object.relabel ρ) (name.relabel ρ) (value.relabel ρ)
  | .this id line => .this (ρ.ids id) (ρ.lines line)
  | .super id line method => .super (ρ.ids id) (ρ.lines line) (method.relabel ρ)

/-- Expressions with other ids and lines. -/
def relabelExprs (ρ : Relabelling) : List Expr → List Expr
  | [] => []
  | e :: es => e.relabel ρ :: relabelExprs ρ es

/-- A statement with other ids and lines. -/
def Stmt.relabel (ρ : Relabelling) : Stmt → Stmt
  | .expression e => .expression (e.relabel ρ)
  | .print line value => .print (ρ.lines line) (value.relabel ρ)
  | .varDecl name none => .varDecl (name.relabel ρ) none
  | .varDecl name (some value) => .varDecl (name.relabel ρ) (some (value.relabel ρ))
  | .block body => .block (relabelProgram ρ body)
  | .ifElse condition thenBranch none =>
    .ifElse (condition.relabel ρ) (thenBranch.relabel ρ) none
  | .ifElse condition thenBranch (some elseBranch) =>
    .ifElse (condition.relabel ρ) (thenBranch.relabel ρ) (some (elseBranch.relabel ρ))
  | .whileLoop condition body => .whileLoop (condition.relabel ρ) (body.relabel ρ)
  | .funDecl decl => .funDecl (decl.relabel ρ)
  | .returns line none => .returns (ρ.lines line) none
  | .returns line (some value) => .returns (ρ.lines line) (some (value.relabel ρ))
  | .classDecl name superclass methods =>
    .classDecl (name.relabel ρ) (superclass.map (SuperclassName.relabel ρ))
      (relabelMethods ρ methods)

/-- A named function with other ids and lines. -/
def FunctionDecl.relabel (ρ : Relabelling) : FunctionDecl → FunctionDecl
  | .mk name params body =>
    .mk (name.relabel ρ) (params.map (Ident.relabel ρ)) (relabelProgram ρ body)

/-- Statements with other ids and lines. -/
def relabelProgram (ρ : Relabelling) : List Stmt → List Stmt
  | [] => []
  | s :: ss => s.relabel ρ :: relabelProgram ρ ss

/-- Named functions with other ids and lines. -/
def relabelMethods (ρ : Relabelling) : List FunctionDecl → List FunctionDecl
  | [] => []
  | f :: fs => f.relabel ρ :: relabelMethods ρ fs

end

variable {ρ : Relabelling}

@[simp] theorem Token.relabel_mk (k : TokenKind) (line : Nat) :
    Token.relabel ρ ⟨k, line⟩ = ⟨k, ρ.lines line⟩ := rfl

@[simp] theorem Token.kind_relabel (t : Token) : (t.relabel ρ).kind = t.kind := rfl

@[simp] theorem Ident.text_relabel (x : Ident) : (x.relabel ρ).text = x.text := rfl

@[simp] theorem Ident.line_relabel (x : Ident) : (x.relabel ρ).line = ρ.lines x.line := rfl

@[simp] theorem Ident.name_relabel (x : Ident) : (x.relabel ρ).name = x.name := rfl

@[simp] theorem Token.isEnd_relabel (t : Token) : Cursor.isEnd (t.relabel ρ) = Cursor.isEnd t := rfl

@[simp] theorem FunctionDecl.name_relabel (f : FunctionDecl) :
    (f.relabel ρ).name = f.name.relabel ρ := by
  cases f
  simp [FunctionDecl.relabel, FunctionDecl.name]

@[simp] theorem FunctionDecl.isInitializer_relabel (f : FunctionDecl) :
    (f.relabel ρ).isInitializer = f.isInitializer := by
  simp [isInitializer]

theorem relabelExprs_eq_map (es : List Expr) : relabelExprs ρ es = es.map (Expr.relabel ρ) := by
  induction es with
  | nil => rfl
  | cons e es ih => rw [relabelExprs, ih, List.map_cons]

namespace Grammar

/-- What a phrase stands for, with other ids and lines. -/
def Tree.relabel (ρ : Relabelling) : Tree → Tree
  | expr e => expr (e.relabel ρ)
  | optExpr e => optExpr (e.map (Expr.relabel ρ))
  | exprs es => exprs (relabelExprs ρ es)
  | names xs => names (xs.map (Ident.relabel ρ))
  | stmt s => stmt (s.relabel ρ)
  | optStmt s => optStmt (s.map (Stmt.relabel ρ))
  | stmts ss => stmts (relabelProgram ρ ss)
  | function f => function (f.relabel ρ)
  | functions fs => functions (relabelMethods ρ fs)

@[simp] theorem Level.relabel_join {l : Level} {kind : TokenKind}
    {join : Nat → Nat → Expr → Expr → Expr} (h : l.join? kind = some join) (k line : Nat)
    (a b : Expr) :
    (join k line a b).relabel ρ = join (ρ.ids k) (ρ.lines line) (a.relabel ρ) (b.relabel ρ) := by
  obtain ⟨op, -, rfl⟩ | ⟨op, -, rfl⟩ := Level.join?_cases h
  · rw [Expr.relabel]
  · rw [Expr.relabel]

theorem relabel_loopCondition {c : Option Expr} {n d : Nat} (h : c = none → ρ.ids n = n + d) :
    loopCondition (c.map (Expr.relabel ρ)) (n + d) =
      ((loopCondition c n).1.relabel ρ, (loopCondition c n).2 + d) := by
  cases c with
  | some e => rfl
  | none => simp [loopCondition, Expr.relabel, h rfl, Nat.add_right_comm]

theorem relabel_forLoop (i : Option Stmt) (e : Expr) (a : Option Expr) (s : Stmt) :
    (withInitializer i (.whileLoop e (withIncrement a s))).relabel ρ =
      withInitializer (i.map (Stmt.relabel ρ)) (.whileLoop (e.relabel ρ)
        (withIncrement (a.map (Expr.relabel ρ)) (s.relabel ρ))) := by
  cases i <;> cases a <;> simp [withInitializer, withIncrement, Stmt.relabel, relabelProgram]

/-- If the ids of a phrase are moved as a whole, its relabelled tokens stand for its relabelled
tree. -/
theorem Derives.relabel {rule : ElseRule} {c : Category} {ts : List Token} {t : Tree}
    {n m d : Nat} (h : Derives rule c ts n t m)
    (hids : ∀ i, n ≤ i → i < m → ρ.ids i = i + d) :
    Derives rule c (ts.map (Token.relabel ρ)) (n + d) (t.relabel ρ) (m + d) := by
  induction h with
  | @constant _ _ _ n h =>
    simp only [Tree.relabel, Expr.relabel, hids n (by omega) (by omega), Nat.add_right_comm _ 1 d]
    exact .constant h
  | @name x n =>
    simp only [Tree.relabel, Expr.relabel, hids n (by omega) (by omega), Nat.add_right_comm _ 1 d]
    exact .name (x := x.relabel ρ)
  | @this _ n =>
    simp only [Tree.relabel, Expr.relabel, hids n (by omega) (by omega), Nat.add_right_comm _ 1 d]
    exact .this
  | @super _ _ n x =>
    simp only [Tree.relabel, Expr.relabel, hids n (by omega) (by omega), Nat.add_right_comm _ 1 d]
    exact .super (x := x.relabel ρ)
  | @grouping _ _ _ _ n m inner ih =>
    have := inner.le
    simp only [Tree.relabel, Expr.relabel, hids m (by omega) (by omega), Nat.add_right_comm _ 1 d,
      List.map_cons, List.map_append, List.map_nil]
    exact .grouping (ih fun i hi hi' ↦ hids i hi (by omega))
  | @lambda _ _ _ _ _ _ _ n m _ body ih ih' =>
    have := body.le
    simp only [Tree.relabel, Expr.relabel, hids m (by omega) (by omega), Nat.add_right_comm _ 1 d,
      List.map_cons, List.map_append]
    exact .lambda (ih fun i hi hi' ↦ hids i hi (by omega))
      (ih' fun i hi hi' ↦ hids i hi (by omega))
  | operand _ ih => exact .operand (ih hids)
  | @call _ _ _ _ _ _ n m k callee arguments ih ih' =>
    have := callee.le
    have := arguments.le
    simp only [Tree.relabel, Expr.relabel, hids k (by omega) (by omega), Nat.add_right_comm _ 1 d,
      List.map_cons, List.map_append, List.map_nil]
    exact .call (ih fun i hi hi' ↦ hids i hi (by omega))
      (ih' fun i hi hi' ↦ hids i (by omega) (by omega))
  | @get _ _ x _ n m object ih =>
    have := object.le
    simp only [Tree.relabel, Expr.relabel, hids m (by omega) (by omega), Nat.add_right_comm _ 1 d,
      List.map_cons, List.map_append, List.map_nil]
    exact .get (x := x.relabel ρ) (ih fun i hi hi' ↦ hids i hi (by omega))
  | unprefixed _ ih => exact .unprefixed (ih hids)
  | @prefixed _ _ _ _ _ n m h operand ih =>
    have := operand.le
    simp only [Tree.relabel, Expr.relabel, hids m (by omega) (by omega), Nat.add_right_comm _ 1 d,
      List.map_cons]
    exact .prefixed h (ih fun i hi hi' ↦ hids i hi (by omega))
  | tighter _ ih => exact .tighter (ih hids)
  | @joined _ _ _ _ _ _ _ _ n m k h left right ih ih' =>
    have := left.le
    have := right.le
    simp only [Tree.relabel, Level.relabel_join h, hids k (by omega) (by omega),
      Nat.add_right_comm _ 1 d, List.map_cons, List.map_append]
    exact .joined h (ih fun i hi hi' ↦ hids i hi (by omega))
      (ih' fun i hi hi' ↦ hids i (by omega) (by omega))
  | value _ ih => exact .value (ih hids)
  | @assign _ x _ _ n m value ih =>
    have := value.le
    simp only [Tree.relabel, Expr.relabel, hids m (by omega) (by omega), Nat.add_right_comm _ 1 d,
      List.map_cons]
    refine .assign (x := x.relabel ρ) ?_
    rw [Nat.add_right_comm]
    exact ih fun i hi hi' ↦ hids i (by omega) (by omega)
  | @set _ _ _ _ x _ _ n m k object value ih ih' =>
    have := object.le
    have := value.le
    simp only [Tree.relabel, Expr.relabel, hids k (by omega) (by omega), Nat.add_right_comm _ 1 d,
      List.map_cons, List.map_append]
    refine .set (x := x.relabel ρ) (ih fun i hi hi' ↦ hids i hi (by omega)) ?_
    rw [Nat.add_right_comm]
    exact ih' fun i hi hi' ↦ hids i (by omega) (by omega)
  | noExpression => exact .noExpression
  | someExpression _ ih => exact .someExpression (ih hids)
  | noArguments => exact .noArguments
  | someArguments _ h ih =>
    exact .someArguments (ih hids) (by rwa [relabelExprs_eq_map, List.length_map])
  | lastArgument _ ih => exact .lastArgument (ih hids)
  | argument first others ih ih' =>
    have := first.le
    have := others.le
    rw [List.map_append, List.map_cons]
    exact .argument (ih fun i hi hi' ↦ hids i hi (by omega))
      (ih' fun i hi hi' ↦ hids i (by omega) (by omega))
  | noParameters => exact .noParameters
  | someParameters _ h ih => exact .someParameters (ih hids) (by rwa [List.length_map])
  | @lastParameter x => exact .lastParameter (x := x.relabel ρ)
  | @parameter _ x _ _ _ _ ih => exact .parameter (x := x.relabel ρ) (ih hids)
  | block _ ih =>
    rw [List.map_cons, List.map_append, List.map_cons, List.map_nil]
    exact .block (ih hids)
  | @function _ _ x _ _ _ _ _ _ _ body ih ih' =>
    simp only [List.map_cons, List.map_append]
    exact .function (x := x.relabel ρ) (ih fun i hi hi' ↦ hids i hi (by omega)) (ih' hids)
  | noFunctions => exact .noFunctions
  | functions first others ih ih' =>
    have := first.le
    have := others.le
    rw [List.map_append]
    exact .functions (ih fun i hi hi' ↦ hids i hi (by omega))
      (ih' fun i hi hi' ↦ hids i (by omega) (by omega))
  | @varNil x => exact .varNil (x := x.relabel ρ)
  | @varValue _ x _ _ _ _ _ _ _ ih =>
    simp only [List.map_cons, List.map_append, List.map_nil]
    exact .varValue (x := x.relabel ρ) (ih hids)
  | exprStmt _ ih =>
    rw [List.map_append, List.map_cons, List.map_nil]
    exact .exprStmt (ih hids)
  | expression _ ih => exact .expression (ih hids)
  | print _ ih =>
    rw [List.map_cons, List.map_append, List.map_cons, List.map_nil]
    exact .print (ih hids)
  | @returns _ e _ _ _ _ _ ih =>
    rw [List.map_cons, List.map_append, List.map_cons, List.map_nil]
    cases e <;> exact .returns (ih hids)
  | blockStmt _ ih => exact .blockStmt (ih hids)
  | ifThen condition thenBranch ih ih' =>
    have := condition.le
    have := thenBranch.le
    simp only [List.map_cons, List.map_append]
    exact .ifThen (ih fun i hi hi' ↦ hids i hi (by omega))
      (ih' fun i hi hi' ↦ hids i (by omega) (by omega))
  | ifElse condition thenBranch closed elseBranch ih ih' ih'' =>
    have := condition.le
    have := thenBranch.le
    have := elseBranch.le
    simp only [List.map_cons, List.map_append]
    exact .ifElse (ih fun i hi hi' ↦ hids i hi (by omega))
      (ih' fun i hi hi' ↦ hids i (by omega) (by omega)) closed
      (ih'' fun i hi hi' ↦ hids i (by omega) (by omega))
  | whileLoop condition body ih ih' =>
    have := condition.le
    have := body.le
    simp only [List.map_cons, List.map_append]
    exact .whileLoop (ih fun i hi hi' ↦ hids i hi (by omega))
      (ih' fun i hi hi' ↦ hids i (by omega) (by omega))
  | noInitializer => exact .noInitializer
  | varInitializer _ ih => exact .varInitializer (ih hids)
  | exprInitializer _ ih => exact .exprInitializer (ih hids)
  | @forLoop _ _ _ _ i c a s _ _ _ _ _ n m k j p initializer condition increment body
      ih ih' ih'' ih₃ =>
    have := initializer.le
    have := condition.le
    have := increment.le
    have := body.le
    have hp : p ≤ (loopCondition c p).2 := by cases c <;> simp [loopCondition]
    have hc : loopCondition (c.map (Expr.relabel ρ)) (p + d) = _ :=
      relabel_loopCondition fun hnone ↦ hids p (by omega) (by simp [hnone, loopCondition])
    simp only [Prod.ext_iff] at hc
    simp only [Tree.relabel, relabel_forLoop, List.map_cons, List.map_append, ← hc.1, ← hc.2]
    exact .forLoop (ih fun i hi hi' ↦ hids i hi (by omega))
      (ih' fun i hi hi' ↦ hids i (by omega) (by omega))
      (ih'' fun i hi hi' ↦ hids i (by omega) (by omega))
      (ih₃ fun i hi hi' ↦ hids i (by omega) (by omega))
  | statement _ ih => exact .statement (ih hids)
  | varDecl _ ih => exact .varDecl (ih hids)
  | funDecl _ ih => exact .funDecl (ih hids)
  | @classDecl _ x _ _ _ _ _ _ _ ih =>
    simp only [List.map_cons, List.map_append, List.map_nil]
    exact .classDecl (x := x.relabel ρ) (ih hids)
  | @subclassDecl _ x y _ _ _ _ _ n m methods ih =>
    have := methods.le
    simp only [Tree.relabel, Stmt.relabel, Option.map_some, SuperclassName.relabel,
      hids n (by omega) (by omega), List.map_cons, List.map_append, List.map_nil]
    refine .subclassDecl (x := x.relabel ρ) (y := y.relabel ρ) ?_
    rw [Nat.add_right_comm]
    exact ih fun i hi hi' ↦ hids i (by omega) (by omega)
  | noDeclarations => exact .noDeclarations
  | declarations first others ih ih' =>
    have := first.le
    have := others.le
    rw [List.map_append]
    exact .declarations (ih fun i hi hi' ↦ hids i hi (by omega))
      (ih' fun i hi hi' ↦ hids i (by omega) (by omega))

end Grammar

open Grammar in
/-- Replacing only lines that its tokens do not have and ids that it does not have changes nothing
in a program. -/
theorem relabelProgram_eq_self {ts : List Token} {n m : Nat} {program : List Stmt}
    (h : Derives .nearest .declarations ts n (.stmts program) m)
    (hids : ∀ i, n ≤ i → i < m → ρ.ids i = i) (hlines : ∀ t ∈ ts, ρ.lines t.line = t.line) :
    relabelProgram ρ program = program := by
  have hts : ts.map (Token.relabel ρ) = ts := by
    refine (List.map_congr_left fun t ht ↦ ?_).trans (List.map_id ts)
    rw [Token.relabel, hlines t ht, id]
  have hrelabel : Derives .nearest .declarations ts n (.stmts (relabelProgram ρ program)) m := by
    have := h.relabel (ρ := ρ) (d := 0) hids
    rwa [hts] at this
  exact (hrelabel.unique h).1

/-! ### Programs that are relabelled twice -/

/-- The second relabelling and then the first one. -/
def Relabelling.after (ρ σ : Relabelling) : Relabelling := ⟨ρ.ids ∘ σ.ids, ρ.lines ∘ σ.lines⟩

section

variable {σ : Relabelling}

@[simp] theorem Ident.relabel_relabel (x : Ident) :
    (x.relabel σ).relabel ρ = x.relabel (ρ.after σ) := rfl

@[simp] theorem SuperclassName.relabel_relabel (s : SuperclassName) :
    (s.relabel σ).relabel ρ = s.relabel (ρ.after σ) := rfl

theorem Ident.map_relabel_relabel (xs : List Ident) :
    (xs.map (Ident.relabel σ)).map (Ident.relabel ρ) = xs.map (Ident.relabel (ρ.after σ)) := by
  rw [List.map_map]
  rfl

mutual

theorem Expr.relabel_relabel : ∀ e : Expr, (e.relabel σ).relabel ρ = e.relabel (ρ.after σ)
  | .literal _ _ | .read _ _ | .this _ _ | .super _ _ _ => by
    simp only [Expr.relabel]
    rfl
  | .grouping _ e | .unary _ _ _ e | .assign _ _ e | .get _ e _ => by
    simp only [Expr.relabel, e.relabel_relabel]
    rfl
  | .binary _ _ _ left right | .logical _ _ _ left right => by
    simp only [Expr.relabel, left.relabel_relabel, right.relabel_relabel]
    rfl
  | .call _ callee _ arguments => by
    simp only [Expr.relabel, callee.relabel_relabel, relabelExprs_relabelExprs arguments]
    rfl
  | .lambda _ _ params body => by
    simp only [Expr.relabel, Ident.map_relabel_relabel, relabelProgram_relabelProgram body]
    rfl
  | .set _ object _ value => by
    simp only [Expr.relabel, object.relabel_relabel, value.relabel_relabel]
    rfl

theorem relabelExprs_relabelExprs : ∀ es : List Expr,
    relabelExprs ρ (relabelExprs σ es) = relabelExprs (ρ.after σ) es
  | [] => by simp only [relabelExprs]
  | e :: es => by simp only [relabelExprs, e.relabel_relabel, relabelExprs_relabelExprs es]

theorem Stmt.relabel_relabel : ∀ s : Stmt, (s.relabel σ).relabel ρ = s.relabel (ρ.after σ)
  | .expression e => by simp only [Stmt.relabel, e.relabel_relabel]
  | .print _ e | .varDecl _ (some e) | .returns _ (some e) => by
    simp only [Stmt.relabel, e.relabel_relabel]
    rfl
  | .varDecl _ none | .returns _ none => by
    simp only [Stmt.relabel]
    rfl
  | .block body => by simp only [Stmt.relabel, relabelProgram_relabelProgram body]
  | .ifElse condition thenBranch none => by
    simp only [Stmt.relabel, condition.relabel_relabel, thenBranch.relabel_relabel]
  | .ifElse condition thenBranch (some elseBranch) => by
    simp only [Stmt.relabel, condition.relabel_relabel, thenBranch.relabel_relabel,
      elseBranch.relabel_relabel]
  | .whileLoop condition body => by
    simp only [Stmt.relabel, condition.relabel_relabel, body.relabel_relabel]
  | .funDecl decl => by simp only [Stmt.relabel, decl.relabel_relabel]
  | .classDecl name superclass methods => by
    simp only [Stmt.relabel, relabelMethods_relabelMethods methods, Option.map_map]
    rfl

theorem FunctionDecl.relabel_relabel : ∀ f : FunctionDecl,
    (f.relabel σ).relabel ρ = f.relabel (ρ.after σ)
  | .mk name params body => by
    simp only [FunctionDecl.relabel, Ident.map_relabel_relabel, relabelProgram_relabelProgram body]
    rfl

theorem relabelProgram_relabelProgram : ∀ ss : List Stmt,
    relabelProgram ρ (relabelProgram σ ss) = relabelProgram (ρ.after σ) ss
  | [] => by simp only [relabelProgram]
  | s :: ss => by simp only [relabelProgram, s.relabel_relabel, relabelProgram_relabelProgram ss]

theorem relabelMethods_relabelMethods : ∀ fs : List FunctionDecl,
    relabelMethods ρ (relabelMethods σ fs) = relabelMethods (ρ.after σ) fs
  | [] => by simp only [relabelMethods]
  | f :: fs => by simp only [relabelMethods, f.relabel_relabel, relabelMethods_relabelMethods fs]

end

end

end LexScript
