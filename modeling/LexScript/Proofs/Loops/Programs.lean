import LexScript.Proofs.Grammar.Acceptance

/-!
# Programs without loops

The only statement that repeats a part of itself is the `while` loop; a `for` loop stands for blocks
around one. A program is without loops if none of its statements is one, those in the bodies of its
functions and methods included. Only a `while` or a `for` among its tokens gives a program a loop.

## Main definitions

* `Stmt.IsLoopFree` : a statement without loops.
* `Token.isLoopWord`, `IsWithoutLoopWords` : the words that loops begin with, and sources without
  them.

## Main statements

* `Grammar.Derives.isLoopFree` : tokens without these words stand for a tree without loops.
-/

namespace LexScript

mutual

/-- No function in an expression has a loop. -/
def Expr.IsLoopFree : Expr → Prop
  | .literal _ _ | .read _ _ | .this _ _ | .super _ _ _ => True
  | .grouping _ e | .unary _ _ _ e | .assign _ _ e | .get _ e _ => e.IsLoopFree
  | .binary _ _ _ left right | .logical _ _ _ left right => left.IsLoopFree ∧ right.IsLoopFree
  | .call _ callee _ arguments => callee.IsLoopFree ∧ AreLoopFreeExprs arguments
  | .lambda _ _ _ body => AreLoopFree body
  | .set _ object _ value => object.IsLoopFree ∧ value.IsLoopFree

/-- No function in expressions has a loop. -/
def AreLoopFreeExprs : List Expr → Prop
  | [] => True
  | e :: es => e.IsLoopFree ∧ AreLoopFreeExprs es

/-- Neither a statement nor a function in it has a loop. -/
def Stmt.IsLoopFree : Stmt → Prop
  | .expression e | .print _ e => e.IsLoopFree
  | .varDecl _ none | .returns _ none => True
  | .varDecl _ (some e) | .returns _ (some e) => e.IsLoopFree
  | .block body => AreLoopFree body
  | .ifElse condition thenBranch none => condition.IsLoopFree ∧ thenBranch.IsLoopFree
  | .ifElse condition thenBranch (some elseBranch) =>
    condition.IsLoopFree ∧ thenBranch.IsLoopFree ∧ elseBranch.IsLoopFree
  | .whileLoop _ _ => False
  | .funDecl decl => decl.IsLoopFree
  | .classDecl _ _ methods => AreLoopFreeMethods methods

/-- Neither statements nor functions in them have a loop. -/
def AreLoopFree : List Stmt → Prop
  | [] => True
  | s :: ss => s.IsLoopFree ∧ AreLoopFree ss

/-- The body of a function has no loop. -/
def FunctionDecl.IsLoopFree : FunctionDecl → Prop
  | .mk _ _ body => AreLoopFree body

/-- The bodies of methods have no loop. -/
def AreLoopFreeMethods : List FunctionDecl → Prop
  | [] => True
  | f :: fs => f.IsLoopFree ∧ AreLoopFreeMethods fs

end

theorem FunctionDecl.isLoopFree_iff (f : FunctionDecl) : f.IsLoopFree ↔ AreLoopFree f.body := by
  cases f
  rw [IsLoopFree, body]

theorem areLoopFreeMethods_iff (fs : List FunctionDecl) :
    AreLoopFreeMethods fs ↔ ∀ f ∈ fs, AreLoopFree f.body := by
  induction fs with
  | nil => simp [AreLoopFreeMethods]
  | cons f fs ih => rw [AreLoopFreeMethods, List.forall_mem_cons, f.isLoopFree_iff, ih]

/-! ### Tokens -/

/-- Whether a token is one of the words that loops begin with. -/
def Token.isLoopWord (t : Token) : Bool :=
  t.kind == .keyword .whileWord || t.kind == .keyword .forWord

/-- Neither `while` nor `for` is among the tokens of a source. -/
def IsWithoutLoopWords (source : String) : Prop :=
  ∀ t ∈ Item.tokens (scan source), t.isLoopWord = false

instance (source : String) : Decidable (IsWithoutLoopWords source) :=
  inferInstanceAs (Decidable (∀ t ∈ Item.tokens (scan source), t.isLoopWord = false))

namespace Grammar

/-- What a phrase stands for has no loop. -/
def Tree.IsLoopFree : Tree → Prop
  | .expr e | .optExpr (some e) => e.IsLoopFree
  | .optExpr none | .names _ | .optStmt none => True
  | .exprs es => AreLoopFreeExprs es
  | .stmt s | .optStmt (some s) => s.IsLoopFree
  | .stmts ss => AreLoopFree ss
  | .function f => f.IsLoopFree
  | .functions fs => AreLoopFreeMethods fs

theorem Level.isLoopFree_join {l : Level} {kind : TokenKind}
    {join : Nat → Nat → Expr → Expr → Expr} (h : l.join? kind = some join) {a b : Expr}
    (ha : a.IsLoopFree) (hb : b.IsLoopFree) (id line : Nat) : (join id line a b).IsLoopFree := by
  unfold join? at h
  split at h <;> cases h <;> exact (by rw [Expr.IsLoopFree]; exact ⟨ha, hb⟩)

/-- Tokens without the words that loops begin with stand for a tree without loops. -/
theorem Derives.isLoopFree {rule : ElseRule} {c : Category} {ts : List Token} {t : Tree}
    {n m : Nat} (h : Derives rule c ts n t m) (hts : ∀ t ∈ ts, t.isLoopWord = false) :
    t.IsLoopFree := by
  -- The tokens of each part of a phrase are among those of the phrase.
  induction h with
    try simp only [List.forall_mem_cons, List.forall_mem_append] at hts
  | constant | name | this | super => simp only [Tree.IsLoopFree, Expr.IsLoopFree]
  | grouping _ ih =>
    simp only [Tree.IsLoopFree, Expr.IsLoopFree]
    exact ih hts.2.1
  | lambda _ _ _ ih =>
    simp only [Tree.IsLoopFree, Expr.IsLoopFree]
    exact ih hts.2.2.2.2
  | call _ _ ih ih' =>
    simp only [Tree.IsLoopFree, Expr.IsLoopFree]
    exact ⟨ih hts.1, ih' hts.2.2.1⟩
  | get _ ih =>
    simp only [Tree.IsLoopFree, Expr.IsLoopFree]
    exact ih hts.1
  | prefixed _ _ ih =>
    simp only [Tree.IsLoopFree, Expr.IsLoopFree]
    exact ih hts.2
  | joined h _ _ ih ih' => exact Level.isLoopFree_join h (ih hts.1) (ih' hts.2.2) _ _
  | assign _ ih =>
    simp only [Tree.IsLoopFree, Expr.IsLoopFree]
    exact ih hts.2.2
  | set _ _ ih ih' =>
    simp only [Tree.IsLoopFree, Expr.IsLoopFree]
    exact ⟨ih hts.1, ih' hts.2.2.2.2⟩
  | noExpression | noParameters | someParameters | lastParameter | parameter | noInitializer =>
    trivial
  | noArguments => simp only [Tree.IsLoopFree, AreLoopFreeExprs]
  | lastArgument _ ih =>
    simp only [Tree.IsLoopFree, AreLoopFreeExprs]
    exact ⟨ih hts, trivial⟩
  | argument _ _ ih ih' =>
    simp only [Tree.IsLoopFree, AreLoopFreeExprs]
    exact ⟨ih hts.1, ih' hts.2.2⟩
  | block _ ih => exact ih hts.2.1
  | function _ _ _ ih =>
    simp only [Tree.IsLoopFree, FunctionDecl.IsLoopFree]
    exact ih hts.2.2.2.2
  | noFunctions => simp only [Tree.IsLoopFree, AreLoopFreeMethods]
  | functions _ _ ih ih' =>
    simp only [Tree.IsLoopFree, AreLoopFreeMethods]
    exact ⟨ih hts.1, ih' hts.2⟩
  | varNil => simp only [Tree.IsLoopFree, Stmt.IsLoopFree]
  | varValue _ ih =>
    simp only [Tree.IsLoopFree, Stmt.IsLoopFree]
    exact ih hts.2.2.2.1
  | exprStmt _ ih =>
    simp only [Tree.IsLoopFree, Stmt.IsLoopFree]
    exact ih hts.1
  | print _ ih =>
    simp only [Tree.IsLoopFree, Stmt.IsLoopFree]
    exact ih hts.2.1
  | @returns _ e _ _ _ _ _ ih =>
    cases e with
    | none => simp only [Tree.IsLoopFree, Stmt.IsLoopFree]
    | some e =>
      simp only [Tree.IsLoopFree, Stmt.IsLoopFree]
      exact ih hts.2.1
  | blockStmt _ ih =>
    simp only [Tree.IsLoopFree, Stmt.IsLoopFree]
    exact ih hts
  | ifThen _ _ ih ih' =>
    simp only [Tree.IsLoopFree, Stmt.IsLoopFree]
    exact ⟨ih hts.2.2.1, ih' hts.2.2.2.2⟩
  | ifElse _ _ _ _ ih ih' ih'' =>
    simp only [Tree.IsLoopFree, Stmt.IsLoopFree]
    exact ⟨ih hts.2.2.1, ih' hts.2.2.2.2.1, ih'' hts.2.2.2.2.2.2⟩
  | whileLoop | forLoop => exact Bool.noConfusion hts.1
  | funDecl _ ih =>
    simp only [Tree.IsLoopFree, Stmt.IsLoopFree]
    exact ih hts.2
  | classDecl _ ih =>
    simp only [Tree.IsLoopFree, Stmt.IsLoopFree]
    exact ih hts.2.2.2.1
  | subclassDecl _ ih =>
    simp only [Tree.IsLoopFree, Stmt.IsLoopFree]
    exact ih hts.2.2.2.2.2.1
  | noDeclarations => simp only [Tree.IsLoopFree, AreLoopFree]
  | declarations _ _ ih ih' =>
    simp only [Tree.IsLoopFree, AreLoopFree]
    exact ⟨ih hts.1, ih' hts.2⟩
  | operand _ ih | unprefixed _ ih | tighter _ ih | value _ ih | someExpression _ ih
  | someArguments _ _ ih | expression _ ih | varInitializer _ ih | exprInitializer _ ih
  | statement _ ih | varDecl _ ih => exact ih hts

end Grammar

/-- A source without these words that is read without an error has no loops. -/
theorem IsWithoutLoopWords.areLoopFree {source : String} (h : IsWithoutLoopWords source)
    {firstId m : Nat} {program : List Stmt} (hread : readSource firstId source = ⟨[], program, m⟩) :
    AreLoopFree program := by
  have hderives := derives_of_readSource (congrArg Reading.errors hread)
  rw [hread] at hderives
  exact hderives.isLoopFree fun t ht ↦ h t ((List.takeWhile_sublist _).subset ht)

end LexScript
