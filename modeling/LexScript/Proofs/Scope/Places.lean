import LexScript.Scope.Resolution

/-!
# What a walk leaves behind

Behind an expression the walk of name resolution is where it was in front of it: in the same
scopes, function and class. Behind a statement the innermost scope also binds the name that the
statement declares, if it declares one. At the top level there is no scope, so each statement of
a program is met in the same place.

## Main definitions

* `Place` : where a point of the walk lies.
* `Stmt.scopesAfter`, `scopesAfter` : the scopes behind statements.

## Main statements

* `Expr.place_resolve`, `Stmt.place_resolve` : the place behind an expression or a statement.
* `place_resolverAfter` : behind a program, the walk is where it started.
-/

namespace LexScript

/-- Where a point of the walk lies. -/
structure Place where
  scopes : List Scope
  functionContext : FunctionContext
  classContext : ClassContext

/-- Where a resolver is. -/
def Resolver.place (r : Resolver) : Place := ⟨r.scopes, r.functionContext, r.classContext⟩

/-- Binds a name in the innermost of some scopes. -/
def bindInnermost (x : Name) : List Scope → List Scope
  | [] => []
  | scope :: outer => Bindings.put scope x true :: outer

/-- The scopes behind a statement. -/
def Stmt.scopesAfter : Stmt → List Scope → List Scope
  | .varDecl name _, scopes | .classDecl name _ _, scopes => bindInnermost name.name scopes
  | .funDecl decl, scopes => bindInnermost decl.name.name scopes
  | .ifElse _ thenBranch none, scopes => thenBranch.scopesAfter scopes
  | .ifElse _ thenBranch (some elseBranch), scopes =>
    elseBranch.scopesAfter (thenBranch.scopesAfter scopes)
  | .whileLoop _ body, scopes => body.scopesAfter scopes
  | .expression _, scopes | .print _ _, scopes | .block _, scopes | .returns _ _, scopes => scopes

/-- The scopes behind statements. -/
def scopesAfter (ss : List Stmt) (scopes : List Scope) : List Scope :=
  ss.foldl (fun scopes s ↦ s.scopesAfter scopes) scopes

@[simp] theorem tail_bindInnermost (x : Name) (scopes : List Scope) :
    (bindInnermost x scopes).tail = scopes.tail := by
  cases scopes <;> rfl

@[simp] theorem Stmt.tail_scopesAfter : ∀ (s : Stmt) (scopes : List Scope),
    (s.scopesAfter scopes).tail = scopes.tail
  | .varDecl _ _, scopes | .classDecl _ _ _, scopes | .funDecl _, scopes => by
    rw [Stmt.scopesAfter, tail_bindInnermost]
  | .ifElse _ thenBranch none, scopes => by
    rw [Stmt.scopesAfter, thenBranch.tail_scopesAfter]
  | .ifElse _ thenBranch (some elseBranch), scopes => by
    rw [Stmt.scopesAfter, elseBranch.tail_scopesAfter, thenBranch.tail_scopesAfter]
  | .whileLoop _ body, scopes => by rw [Stmt.scopesAfter, body.tail_scopesAfter]
  | .expression _, scopes | .print _ _, scopes | .block _, scopes | .returns _ _, scopes => by
    rw [Stmt.scopesAfter]

@[simp] theorem tail_scopesAfter (ss : List Stmt) (scopes : List Scope) :
    (scopesAfter ss scopes).tail = scopes.tail := by
  induction ss generalizing scopes with
  | nil => rfl
  | cons s ss ih => exact (ih _).trans (s.tail_scopesAfter scopes)

theorem Stmt.scopesAfter_nil : ∀ s : Stmt, s.scopesAfter [] = []
  | .varDecl _ _ | .classDecl _ _ _ | .funDecl _ => by rw [Stmt.scopesAfter, bindInnermost]
  | .ifElse _ thenBranch none => by rw [Stmt.scopesAfter, thenBranch.scopesAfter_nil]
  | .ifElse _ thenBranch (some elseBranch) => by
    rw [Stmt.scopesAfter, thenBranch.scopesAfter_nil, elseBranch.scopesAfter_nil]
  | .whileLoop _ body => by rw [Stmt.scopesAfter, body.scopesAfter_nil]
  | .expression _ | .print _ _ | .block _ | .returns _ _ => by rw [Stmt.scopesAfter]

theorem scopesAfter_nil (ss : List Stmt) : scopesAfter ss [] = [] := by
  induction ss with
  | nil => rfl
  | cons s ss ih =>
    rw [scopesAfter, List.foldl_cons, s.scopesAfter_nil]
    exact ih

namespace Resolver

@[simp] theorem place_use (r : Resolver) (id : Nat) (x : Name) :
    (r.use id x).place = r.place := rfl

@[simp] theorem place_read (r : Resolver) (id : Nat) (x : Ident) :
    (r.read id x).place = r.place := by
  unfold read
  split <;> rfl

@[simp] theorem place_this (r : Resolver) (id line : Nat) : (r.this id line).place = r.place := by
  unfold this
  split <;> rfl

@[simp] theorem place_super (r : Resolver) (id line : Nat) :
    (r.super id line).place = r.place := by
  unfold super
  split <;> rfl

@[simp] theorem place_returns (r : Resolver) (line : Nat) : (r.returns line).place = r.place := by
  unfold returns
  split <;> rfl

@[simp] theorem place_returnsValue (r : Resolver) (line : Nat) :
    (r.returnsValue line).place = r.place := by
  unfold returnsValue
  split <;> rfl

@[simp] theorem place_inherits (r : Resolver) (name superclass : Ident) :
    (r.inherits name superclass).place = r.place := by
  unfold inherits
  split <;> rfl

theorem place_define (r : Resolver) (x : Name) :
    (r.define x).place = { r.place with scopes := bindInnermost x r.scopes } := by
  unfold define
  split
  · simp [place, bindInnermost, *]
  · simp [place, bindInnermost, *]

/-- Declaring a name before it is completed leaves nothing else behind. -/
theorem place_define_declare (r : Resolver) (x : Ident) {r' : Resolver}
    (h : r'.place = (r.declare x).place) : (r'.define x.name).place =
      { r.place with scopes := bindInnermost x.name r.scopes } := by
  have hscopes : r'.scopes = (r.declare x).scopes := congrArg Place.scopes h
  rw [place_define, h, hscopes]
  unfold declare
  split
  · simp [place, bindInnermost, *]
  · split
    · simp [place, bindInnermost, report, *]
    · simp [place, bindInnermost, Bindings.put_put, *]

theorem place_bind (r : Resolver) (x : Ident) :
    (r.bind x).place = { r.place with scopes := bindInnermost x.name r.scopes } :=
  place_define_declare r x rfl

theorem scopes_bind (r : Resolver) (x : Ident) :
    (r.bind x).scopes = bindInnermost x.name r.scopes := congrArg Place.scopes (place_bind r x)

theorem classContext_bind (r : Resolver) (x : Ident) :
    (r.bind x).classContext = r.classContext := congrArg Place.classContext (place_bind r x)

/-! ### Scopes -/

/-- A walk that leaves no trace but in the innermost scope. -/
def StaysInside (walk : Resolver → Resolver) : Prop :=
  ∀ r, ∃ scopes, (walk r).place = { r.place with scopes := scopes } ∧
    scopes.tail = r.scopes.tail

theorem staysInside_foldl_bind (params : List Ident) : StaysInside (params.foldl bind ·) := by
  induction params with
  | nil => exact fun r ↦ ⟨r.scopes, rfl, rfl⟩
  | cons x params ih =>
    intro r
    obtain ⟨scopes, hplace, htail⟩ := ih (r.bind x)
    refine ⟨scopes, ?_, ?_⟩
    · change ((params.foldl bind (r.bind x))).place = _
      rw [hplace, place_bind]
    · rw [htail, scopes_bind, tail_bindInnermost]

theorem place_inScope {walk : Resolver → Resolver} (h : StaysInside walk) (r : Resolver) :
    (r.inScope walk).place = r.place := by
  obtain ⟨scopes, hplace, htail⟩ := h r.enter
  have hleave (r : Resolver) : r.leave.place = { r.place with scopes := r.place.scopes.tail } := rfl
  rw [inScope, hleave, hplace, htail]
  rfl

theorem place_inFunction {walk : Resolver → Resolver} (h : StaysInside walk)
    (context : FunctionContext) (params : List Ident) (r : Resolver) :
    (r.inFunction context params walk).place = r.place := by
  have hbody : StaysInside fun r ↦ walk (params.foldl bind r) := by
    intro r
    obtain ⟨scopes, hplace, htail⟩ := staysInside_foldl_bind params r
    obtain ⟨scopes', hplace', htail'⟩ := h (params.foldl bind r)
    have hscopes : (params.foldl bind r).scopes = scopes := congrArg Place.scopes hplace
    exact ⟨scopes', by rw [hplace', hplace], by rw [htail', hscopes, htail]⟩
  have hplace := place_inScope hbody (r.withFunctionContext context)
  exact congrArg (fun p : Place ↦ { p with functionContext := r.functionContext }) hplace

/-- A walk that leaves no trace at all, in a scope with a name of its own. -/
theorem place_inScope_define {walk : Resolver → Resolver} (h : ∀ r, (walk r).place = r.place)
    (x : Name) (r : Resolver) : (r.inScope fun r ↦ walk (r.define x)).place = r.place := by
  refine place_inScope (fun r ↦ ⟨bindInnermost x r.scopes, ?_, tail_bindInnermost _ _⟩) r
  rw [h, place_define]

theorem place_withClassContext (r : Resolver) (context : ClassContext) :
    (r.withClassContext context).place = { r.place with classContext := context } := rfl

theorem place_inClass {walk : Resolver → Resolver} (h : ∀ r, (walk r).place = r.place)
    (name : Ident) (s : Option SuperclassName) (r : Resolver) :
    (r.inClass name s walk).place =
      { r.place with scopes := bindInnermost name.name r.scopes } := by
  have hmethods (r : Resolver) : (r.inMethods walk).place = r.place :=
    place_inScope_define h .this r
  have hbind : ((r.withClassContext .inClass).bind name).place =
      ⟨bindInnermost name.name r.scopes, r.functionContext, .inClass⟩ := place_bind _ name
  cases s with
  | none =>
    simp only [inClass, place_withClassContext, hmethods, hbind]
    rfl
  | some s =>
    simp only [inClass, inSubclass, place_withClassContext, place_inScope_define hmethods,
      place_read, place_inherits, hbind]
    rfl

end Resolver

/-! ### Programs -/

mutual

theorem Expr.place_resolve : ∀ (e : Expr) (r : Resolver), (e.resolve r).place = r.place
  | .literal _ _, r => by rw [Expr.resolve]
  | .grouping _ inner, r => by rw [Expr.resolve, inner.place_resolve]
  | .unary _ _ _ operand, r => by rw [Expr.resolve, operand.place_resolve]
  | .binary _ _ _ left right, r | .logical _ _ _ left right, r => by
    rw [Expr.resolve, right.place_resolve, left.place_resolve]
  | .read id name, r => by rw [Expr.resolve, Resolver.place_read]
  | .assign id name value, r => by rw [Expr.resolve, Resolver.place_use, value.place_resolve]
  | .call _ callee _ arguments, r => by
    rw [Expr.resolve, place_resolveExprs arguments, callee.place_resolve]
  | .lambda _ _ params body, r => by
    rw [Expr.resolve, Resolver.place_inFunction (staysInside_resolveStmts body)]
  | .get _ object _, r => by rw [Expr.resolve, object.place_resolve]
  | .set _ object _ value, r => by rw [Expr.resolve, object.place_resolve, value.place_resolve]
  | .this id line, r => by rw [Expr.resolve, Resolver.place_this]
  | .super id line _, r => by rw [Expr.resolve, Resolver.place_super]

theorem Expr.scopes_resolve (e : Expr) (r : Resolver) : (e.resolve r).scopes = r.scopes :=
  congrArg Place.scopes (e.place_resolve r)

theorem place_resolveExprs : ∀ (es : List Expr) (r : Resolver),
    (resolveExprs es r).place = r.place
  | [], r => by rw [resolveExprs]
  | e :: es, r => by rw [resolveExprs, place_resolveExprs es, e.place_resolve]

theorem Stmt.place_resolve : ∀ (s : Stmt) (r : Resolver),
    (s.resolve r).place = { r.place with scopes := s.scopesAfter r.scopes }
  | .expression e, r => by
    rw [Stmt.resolve, e.place_resolve]
    rfl
  | .print _ value, r => by
    rw [Stmt.resolve, value.place_resolve]
    rfl
  | .varDecl name none, r => by
    rw [Stmt.resolve, Resolver.place_bind]
    rfl
  | .varDecl name (some value), r => by
    rw [Stmt.resolve, Resolver.place_define_declare r name (value.place_resolve _)]
    rfl
  | .block body, r => by
    rw [Stmt.resolve, Resolver.place_inScope (staysInside_resolveStmts body)]
    rfl
  | .ifElse condition thenBranch none, r => by
    rw [Stmt.resolve, thenBranch.place_resolve, condition.place_resolve,
      condition.scopes_resolve, Stmt.scopesAfter]
  | .ifElse condition thenBranch (some elseBranch), r => by
    rw [Stmt.resolve, elseBranch.place_resolve, thenBranch.scopes_resolve,
      thenBranch.place_resolve, condition.place_resolve, condition.scopes_resolve,
      Stmt.scopesAfter]
  | .whileLoop condition body, r => by
    rw [Stmt.resolve, body.place_resolve, condition.place_resolve, condition.scopes_resolve,
      Stmt.scopesAfter]
  | .funDecl decl, r => by
    rw [Stmt.resolve, decl.place_resolve, Resolver.place_bind]
    rfl
  | .returns line none, r => by
    rw [Stmt.resolve, Resolver.place_returns]
    rfl
  | .returns line (some value), r => by
    rw [Stmt.resolve, value.place_resolve, Resolver.place_returnsValue, Resolver.place_returns]
    rfl
  | .classDecl name superclass methods, r => by
    rw [Stmt.resolve, Resolver.place_inClass (place_resolveMethods methods)]
    rfl

theorem Stmt.scopes_resolve (s : Stmt) (r : Resolver) :
    (s.resolve r).scopes = s.scopesAfter r.scopes := congrArg Place.scopes (s.place_resolve r)

theorem place_resolveStmts : ∀ (ss : List Stmt) (r : Resolver),
    (resolveStmts ss r).place = { r.place with scopes := scopesAfter ss r.scopes }
  | [], r => by
    rw [resolveStmts]
    rfl
  | s :: ss, r => by
    rw [resolveStmts, place_resolveStmts ss, s.scopes_resolve, s.place_resolve]
    rfl

theorem staysInside_resolveStmts (ss : List Stmt) : Resolver.StaysInside (resolveStmts ss) :=
  fun r ↦ ⟨_, place_resolveStmts ss r, tail_scopesAfter ss _⟩

theorem FunctionDecl.place_resolve (context : FunctionContext) : ∀ (f : FunctionDecl)
    (r : Resolver), (f.resolve context r).place = r.place
  | .mk _ params body, r => by
    rw [FunctionDecl.resolve, Resolver.place_inFunction (staysInside_resolveStmts body)]

theorem place_resolveMethods : ∀ (fs : List FunctionDecl) (r : Resolver),
    (resolveMethods fs r).place = r.place
  | [], r => by rw [resolveMethods]
  | f :: fs, r => by rw [resolveMethods, place_resolveMethods fs, f.place_resolve]

end

/-- Behind a program the walk is where it started. -/
theorem place_resolverAfter (program : List Stmt) :
    (resolverAfter program).place = Resolver.start.place := by
  have hscopes : Resolver.start.scopes = [] := rfl
  rw [resolverAfter, place_resolveStmts, hscopes, scopesAfter_nil]
  rfl

end LexScript
