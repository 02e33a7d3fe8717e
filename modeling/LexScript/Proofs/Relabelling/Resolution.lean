import LexScript.Proofs.Relabelling.Programs
import LexScript.Proofs.Scope.Places

/-!
# Resolving relabelled programs

Name resolution reports ids and lines but never looks at them. So it finds the same in a
relabelled program, with the ids and lines replaced. What it has found before plays no role
either, which is why the walk can start behind any findings.

## Main definitions

* `Resolver.relabel` : a resolver with other ids and lines, behind other findings.

## Main statements

* `resolveStmts_relabel` : resolving a relabelled program.
* `resolveProgram_append_relabel` : a relabelled program behind another one is resolved as it is
  on its own.
-/

namespace LexScript

/-- The place of an error on another line. -/
def Mark.relabel (ρ : Relabelling) (mark : Mark) : Mark := ⟨mark.lexeme, ρ.lines mark.line⟩

/-- An error of name resolution on another line. -/
def ScopeError.relabel (ρ : Relabelling) (e : ScopeError) : ScopeError :=
  ⟨e.fault, e.mark.relabel ρ⟩

/-- A use with another id. -/
def NameUse.relabel (ρ : Relabelling) (use : NameUse) : NameUse :=
  ⟨ρ.ids use.id, use.name, use.distance⟩

namespace Resolver

variable {ρ : Relabelling} {uses : Array NameUse} {errors : Array ScopeError}

/-- The findings of a resolver with other ids and lines, behind those that are given. -/
def relabel (ρ : Relabelling) (uses : Array NameUse) (errors : Array ScopeError) (r : Resolver) :
    Resolver :=
  { r with
    uses := uses ++ r.uses.map (NameUse.relabel ρ)
    errors := errors ++ r.errors.map (ScopeError.relabel ρ) }

@[simp] theorem scopes_relabel (r : Resolver) : (r.relabel ρ uses errors).scopes = r.scopes := rfl

@[simp] theorem functionContext_relabel (r : Resolver) :
    (r.relabel ρ uses errors).functionContext = r.functionContext := rfl

@[simp] theorem classContext_relabel (r : Resolver) :
    (r.relabel ρ uses errors).classContext = r.classContext := rfl

@[simp] theorem report_relabel (r : Resolver) (fault : ScopeFault) (mark : Mark) :
    (r.relabel ρ uses errors).report fault (mark.relabel ρ) =
      (r.report fault mark).relabel ρ uses errors := by
  simp [relabel, report, ScopeError.relabel]

@[simp] theorem enter_relabel (r : Resolver) :
    (r.relabel ρ uses errors).enter = r.enter.relabel ρ uses errors := rfl

@[simp] theorem leave_relabel (r : Resolver) :
    (r.relabel ρ uses errors).leave = r.leave.relabel ρ uses errors := rfl

@[simp] theorem define_relabel (r : Resolver) (x : Name) :
    (r.relabel ρ uses errors).define x = (r.define x).relabel ρ uses errors := by
  unfold define
  rw [scopes_relabel]
  split <;> rfl

@[simp] theorem declare_relabel (r : Resolver) (x : Ident) :
    (r.relabel ρ uses errors).declare (x.relabel ρ) = (r.declare x).relabel ρ uses errors := by
  unfold declare
  rw [scopes_relabel, Ident.name_relabel]
  split
  · rfl
  · split
    · exact report_relabel r .redeclared x.mark
    · rfl

@[simp] theorem bind_relabel (r : Resolver) (x : Ident) :
    (r.relabel ρ uses errors).bind (x.relabel ρ) = (r.bind x).relabel ρ uses errors := by
  simp [bind]

@[simp] theorem withFunctionContext_relabel (r : Resolver) (context : FunctionContext) :
    (r.relabel ρ uses errors).withFunctionContext context =
      (r.withFunctionContext context).relabel ρ uses errors := rfl

@[simp] theorem withClassContext_relabel (r : Resolver) (context : ClassContext) :
    (r.relabel ρ uses errors).withClassContext context =
      (r.withClassContext context).relabel ρ uses errors := rfl

@[simp] theorem inherits_relabel (r : Resolver) (name superclass : Ident) :
    (r.relabel ρ uses errors).inherits (name.relabel ρ) (superclass.relabel ρ) =
      (r.inherits name superclass).relabel ρ uses errors := by
  unfold inherits
  rw [Ident.text_relabel, Ident.text_relabel]
  split
  · exact report_relabel r .inheritsFromItself superclass.mark
  · rfl

@[simp] theorem use_relabel (r : Resolver) (id : Nat) (x : Name) :
    (r.relabel ρ uses errors).use (ρ.ids id) x = (r.use id x).relabel ρ uses errors := by
  simp [relabel, use, distance?, NameUse.relabel]

@[simp] theorem read_relabel (r : Resolver) (id : Nat) (x : Ident) :
    (r.relabel ρ uses errors).read (ρ.ids id) (x.relabel ρ) =
      (r.read id x).relabel ρ uses errors := by
  have hincomplete : (r.relabel ρ uses errors).isIncomplete x.name = r.isIncomplete x.name := rfl
  unfold read
  rw [Ident.name_relabel, hincomplete]
  split
  · exact (congrArg (use · _ _) (report_relabel r .ownInitializer x.mark)).trans (use_relabel ..)
  · exact use_relabel ..

@[simp] theorem this_relabel (r : Resolver) (id line : Nat) :
    (r.relabel ρ uses errors).this (ρ.ids id) (ρ.lines line) =
      (r.this id line).relabel ρ uses errors := by
  unfold this
  rw [classContext_relabel]
  cases r.classContext with
  | outside => exact report_relabel r .thisOutsideClass ⟨"this", line⟩
  | _ => exact use_relabel ..

@[simp] theorem super_relabel (r : Resolver) (id line : Nat) :
    (r.relabel ρ uses errors).super (ρ.ids id) (ρ.lines line) =
      (r.super id line).relabel ρ uses errors := by
  unfold super
  rw [classContext_relabel]
  cases r.classContext with
  | outside => exact report_relabel r .superOutsideClass ⟨"super", line⟩
  | inClass => exact report_relabel r .superWithoutSuperclass ⟨"super", line⟩
  | inSubclass => exact use_relabel ..

@[simp] theorem returns_relabel (r : Resolver) (line : Nat) :
    (r.relabel ρ uses errors).returns (ρ.lines line) = (r.returns line).relabel ρ uses errors := by
  unfold returns
  rw [functionContext_relabel]
  cases r.functionContext with
  | outside => exact report_relabel r .returnAtTopLevel ⟨"return", line⟩
  | _ => rfl

@[simp] theorem returnsValue_relabel (r : Resolver) (line : Nat) :
    (r.relabel ρ uses errors).returnsValue (ρ.lines line) =
      (r.returnsValue line).relabel ρ uses errors := by
  unfold returnsValue
  rw [functionContext_relabel]
  cases r.functionContext with
  | inInitializer => exact report_relabel r .valueFromInitializer ⟨"return", line⟩
  | _ => rfl

/-! ### Scopes -/

variable {walk walk' : Resolver → Resolver}

theorem inScope_relabel
    (h : ∀ r, walk' (r.relabel ρ uses errors) = (walk r).relabel ρ uses errors) (r : Resolver) :
    (r.relabel ρ uses errors).inScope walk' = (r.inScope walk).relabel ρ uses errors := by
  rw [inScope, inScope, enter_relabel, h, leave_relabel]

theorem foldl_bind_relabel (params : List Ident) (r : Resolver) :
    (params.map (Ident.relabel ρ)).foldl bind (r.relabel ρ uses errors) =
      (params.foldl bind r).relabel ρ uses errors := by
  induction params generalizing r with
  | nil => rfl
  | cons x params ih => simp [ih]

theorem inFunction_relabel
    (h : ∀ r, walk' (r.relabel ρ uses errors) = (walk r).relabel ρ uses errors)
    (context : FunctionContext) (params : List Ident) (r : Resolver) :
    (r.relabel ρ uses errors).inFunction context (params.map (Ident.relabel ρ)) walk' =
      (r.inFunction context params walk).relabel ρ uses errors := by
  rw [inFunction, withFunctionContext_relabel,
    inScope_relabel (fun r ↦ by rw [foldl_bind_relabel, h]), functionContext_relabel,
    withFunctionContext_relabel, inFunction]

theorem inMethods_relabel
    (h : ∀ r, walk' (r.relabel ρ uses errors) = (walk r).relabel ρ uses errors) (r : Resolver) :
    (r.relabel ρ uses errors).inMethods walk' = (r.inMethods walk).relabel ρ uses errors :=
  inScope_relabel (fun r ↦ by rw [define_relabel, h]) r

theorem inSubclass_relabel
    (h : ∀ r, walk' (r.relabel ρ uses errors) = (walk r).relabel ρ uses errors) (name : Ident)
    (s : SuperclassName) (r : Resolver) :
    (r.relabel ρ uses errors).inSubclass (name.relabel ρ) (s.relabel ρ) walk' =
      (r.inSubclass name s walk).relabel ρ uses errors := by
  simp only [inSubclass, SuperclassName.relabel, inherits_relabel, withClassContext_relabel,
    read_relabel]
  exact inScope_relabel (fun r ↦ by rw [define_relabel, inMethods_relabel h]) _

theorem inClass_relabel
    (h : ∀ r, walk' (r.relabel ρ uses errors) = (walk r).relabel ρ uses errors) (name : Ident)
    (s : Option SuperclassName) (r : Resolver) :
    (r.relabel ρ uses errors).inClass (name.relabel ρ) (s.map (SuperclassName.relabel ρ)) walk' =
      (r.inClass name s walk).relabel ρ uses errors := by
  cases s with
  | none => simp [inClass, inMethods_relabel h]
  | some s => simp [inClass, inSubclass_relabel h]

end Resolver

/-! ### Programs -/

section

variable (ρ : Relabelling) (uses : Array NameUse) (errors : Array ScopeError)

mutual

theorem Expr.resolve_relabel : ∀ (e : Expr) (r : Resolver),
    (e.relabel ρ).resolve (r.relabel ρ uses errors) = (e.resolve r).relabel ρ uses errors
  | .literal _ _, _ => by rw [Expr.relabel, Expr.resolve, Expr.resolve]
  | .grouping _ inner, r => by
    rw [Expr.relabel, Expr.resolve, inner.resolve_relabel, Expr.resolve]
  | .unary _ _ _ operand, r => by
    rw [Expr.relabel, Expr.resolve, operand.resolve_relabel, Expr.resolve]
  | .binary _ _ _ left right, r | .logical _ _ _ left right, r => by
    rw [Expr.relabel, Expr.resolve, left.resolve_relabel, right.resolve_relabel, Expr.resolve]
  | .read id name, r => by rw [Expr.relabel, Expr.resolve, Resolver.read_relabel, Expr.resolve]
  | .assign id name value, r => by
    rw [Expr.relabel, Expr.resolve, value.resolve_relabel, Ident.name_relabel,
      Resolver.use_relabel, Expr.resolve]
  | .call _ callee _ arguments, r => by
    rw [Expr.relabel, Expr.resolve, callee.resolve_relabel, resolveExprs_relabel, Expr.resolve]
  | .lambda _ _ params body, r => by
    rw [Expr.relabel, Expr.resolve, Resolver.inFunction_relabel (resolveStmts_relabel body),
      Expr.resolve]
  | .get _ object _, r => by
    rw [Expr.relabel, Expr.resolve, object.resolve_relabel, Expr.resolve]
  | .set _ object _ value, r => by
    rw [Expr.relabel, Expr.resolve, value.resolve_relabel, object.resolve_relabel, Expr.resolve]
  | .this id line, r => by rw [Expr.relabel, Expr.resolve, Resolver.this_relabel, Expr.resolve]
  | .super id line _, r => by
    rw [Expr.relabel, Expr.resolve, Resolver.super_relabel, Expr.resolve]

theorem resolveExprs_relabel : ∀ (es : List Expr) (r : Resolver),
    resolveExprs (relabelExprs ρ es) (r.relabel ρ uses errors) =
      (resolveExprs es r).relabel ρ uses errors
  | [], r => by rw [relabelExprs, resolveExprs, resolveExprs]
  | e :: es, r => by
    rw [relabelExprs, resolveExprs, e.resolve_relabel, resolveExprs_relabel es, resolveExprs]

theorem Stmt.resolve_relabel : ∀ (s : Stmt) (r : Resolver),
    (s.relabel ρ).resolve (r.relabel ρ uses errors) = (s.resolve r).relabel ρ uses errors
  | .expression e, r => by rw [Stmt.relabel, Stmt.resolve, e.resolve_relabel, Stmt.resolve]
  | .print _ value, r => by rw [Stmt.relabel, Stmt.resolve, value.resolve_relabel, Stmt.resolve]
  | .varDecl name none, r => by
    rw [Stmt.relabel, Stmt.resolve, Resolver.bind_relabel, Stmt.resolve]
  | .varDecl name (some value), r => by
    rw [Stmt.relabel, Stmt.resolve, Resolver.declare_relabel, value.resolve_relabel,
      Ident.name_relabel, Resolver.define_relabel, Stmt.resolve]
  | .block body, r => by
    rw [Stmt.relabel, Stmt.resolve, Resolver.inScope_relabel (resolveStmts_relabel body),
      Stmt.resolve]
  | .ifElse condition thenBranch none, r => by
    rw [Stmt.relabel, Stmt.resolve, condition.resolve_relabel, thenBranch.resolve_relabel,
      Stmt.resolve]
  | .ifElse condition thenBranch (some elseBranch), r => by
    rw [Stmt.relabel, Stmt.resolve, condition.resolve_relabel, thenBranch.resolve_relabel,
      elseBranch.resolve_relabel, Stmt.resolve]
  | .whileLoop condition body, r => by
    rw [Stmt.relabel, Stmt.resolve, condition.resolve_relabel, body.resolve_relabel,
      Stmt.resolve]
  | .funDecl decl, r => by
    rw [Stmt.relabel, Stmt.resolve, FunctionDecl.name_relabel, Resolver.bind_relabel,
      decl.resolve_relabel, Stmt.resolve]
  | .returns line none, r => by
    rw [Stmt.relabel, Stmt.resolve, Resolver.returns_relabel, Stmt.resolve]
  | .returns line (some value), r => by
    rw [Stmt.relabel, Stmt.resolve, Resolver.returns_relabel, Resolver.returnsValue_relabel,
      value.resolve_relabel, Stmt.resolve]
  | .classDecl name superclass methods, r => by
    rw [Stmt.relabel, Stmt.resolve, Resolver.inClass_relabel (resolveMethods_relabel methods),
      Stmt.resolve]

theorem resolveStmts_relabel : ∀ (ss : List Stmt) (r : Resolver),
    resolveStmts (relabelProgram ρ ss) (r.relabel ρ uses errors) =
      (resolveStmts ss r).relabel ρ uses errors
  | [], r => by rw [relabelProgram, resolveStmts, resolveStmts]
  | s :: ss, r => by
    rw [relabelProgram, resolveStmts, s.resolve_relabel, resolveStmts_relabel ss, resolveStmts]

theorem FunctionDecl.resolve_relabel (context : FunctionContext) :
    ∀ (f : FunctionDecl) (r : Resolver),
      (f.relabel ρ).resolve context (r.relabel ρ uses errors) =
        (f.resolve context r).relabel ρ uses errors
  | .mk _ params body, r => by
    rw [FunctionDecl.relabel, FunctionDecl.resolve,
      Resolver.inFunction_relabel (resolveStmts_relabel body), FunctionDecl.resolve]

theorem resolveMethods_relabel : ∀ (fs : List FunctionDecl) (r : Resolver),
    resolveMethods (relabelMethods ρ fs) (r.relabel ρ uses errors) =
      (resolveMethods fs r).relabel ρ uses errors
  | [], r => by rw [relabelMethods, resolveMethods, resolveMethods]
  | f :: fs, r => by
    rw [relabelMethods, resolveMethods, FunctionDecl.isInitializer_relabel, f.resolve_relabel,
      resolveMethods_relabel fs, resolveMethods]

end

end

theorem resolveStmts_append (ss ss' : List Stmt) (r : Resolver) :
    resolveStmts (ss ++ ss') r = resolveStmts ss' (resolveStmts ss r) := by
  induction ss generalizing r with
  | nil => rw [List.nil_append, resolveStmts]
  | cons s ss ih => rw [List.cons_append, resolveStmts, resolveStmts, ih]

/-- A relabelled program behind another one is resolved as it is on its own. -/
theorem resolveProgram_append_relabel (ρ : Relabelling) (program later : List Stmt) :
    resolveProgram (program ++ relabelProgram ρ later) =
      ⟨(resolveProgram program).uses ++ (resolveProgram later).uses.map (NameUse.relabel ρ),
        (resolveProgram program).errors ++
          (resolveProgram later).errors.map (ScopeError.relabel ρ)⟩ := by
  have hplace := place_resolverAfter program
  have hstart : resolverAfter program = Resolver.start.relabel ρ (resolverAfter program).uses
      (resolverAfter program).errors := by
    generalize resolverAfter program = r at hplace ⊢
    cases r
    cases hplace
    simp [Resolver.relabel, Resolver.start]
  have hlater : resolverAfter (program ++ relabelProgram ρ later) =
      (resolverAfter later).relabel ρ (resolverAfter program).uses
        (resolverAfter program).errors := by
    rw [resolverAfter, resolveStmts_append]
    exact (congrArg (resolveStmts _) hstart).trans (resolveStmts_relabel ..)
  simp [resolveProgram, hlater, Resolver.relabel]

theorem resolveProgram_relabel (ρ : Relabelling) (program : List Stmt) :
    resolveProgram (relabelProgram ρ program) =
      ⟨(resolveProgram program).uses.map (NameUse.relabel ρ),
        (resolveProgram program).errors.map (ScopeError.relabel ρ)⟩ :=
  resolveProgram_append_relabel ρ [] program

/-- What keeps a program keeps the ids of its uses. -/
theorem ids_eq_self_of_use {ρ : Relabelling} {program : List Stmt}
    (hprogram : relabelProgram ρ program = program) {use : NameUse}
    (huse : use ∈ (resolveProgram program).uses) : ρ.ids use.id = use.id := by
  have huses := congrArg Resolution.uses (resolveProgram_relabel ρ program)
  rw [hprogram] at huses
  have hkept : use.relabel ρ = id use :=
    List.map_inj_left.1 (huses.symm.trans (List.map_id _).symm) use huse
  exact congrArg NameUse.id hkept

end LexScript
