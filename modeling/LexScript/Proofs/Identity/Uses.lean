import LexScript.Proofs.Relabelling.Nodes
import LexScript.Scope.Resolution
import Mathlib.Data.List.Perm.Subperm

/-!
# Uses and the nodes they stand at

The walk of name resolution comes to each node once and notes a use there at most once, under the id
of the node and with the name that the node is an occurrence of. This holds for every program, also
for one that has errors. If the ids of the nodes are different, then so are those of the uses.

## Main definitions

* `Expr.occurrence?` : the name that a node is an occurrence of, with its id.
* `Resolver.Marks` : a walk that notes uses at nodes.

## Main statements

* `uses_subperm_occurrences` : the uses of a program stand at nodes of it.
-/

namespace LexScript

open scoped List

/-- The id of a node and the name that it is an occurrence of, if it is one. -/
def Expr.occurrence? : Expr → Option (Nat × Name)
  | .read id x => some (id, x.name)
  | .assign id x _ => some (id, x.name)
  | .this id _ => some (id, .this)
  | .super id _ _ => some (id, .super)
  | .literal _ _ | .grouping _ _ | .unary _ _ _ _ | .binary _ _ _ _ _ | .logical _ _ _ _ _
  | .call _ _ _ _ | .lambda _ _ _ _ | .get _ _ _ | .set _ _ _ _ => none

/-- The id and the name of a use. -/
def NameUse.occurrence (use : NameUse) : Nat × Name := (use.id, use.name)

/-- The occurrences of names among nodes. -/
def occurrencesOf (nodes : List Expr) : List (Nat × Name) := nodes.filterMap Expr.occurrence?

theorem occurrencesOf_append (nodes nodes' : List Expr) :
    occurrencesOf (nodes ++ nodes') = occurrencesOf nodes ++ occurrencesOf nodes' :=
  List.filterMap_append

theorem Expr.id_of_occurrence? {e : Expr} {i : Nat} {x : Name} (h : e.occurrence? = some (i, x)) :
    e.id = i := by
  cases e <;> cases h <;> rfl

/-- The ids of occurrences are those of some of the nodes. -/
theorem map_fst_occurrencesOf (nodes : List Expr) :
    (occurrencesOf nodes).map Prod.fst <+ idsOf nodes := by
  induction nodes with
  | nil => exact .slnil
  | cons e nodes ih =>
    rw [occurrencesOf, List.filterMap_cons, idsOf_cons]
    split
    · exact ih.cons _
    · next occurrence h =>
      rw [List.map_cons, ← e.id_of_occurrence? h]
      exact ih.cons_cons _

namespace Resolver

variable {r r' r'' : Resolver} {nodes nodes' : List Expr} {e : Expr}

/-- A walk has noted some more uses, which stand at some of the nodes, no two at the same one. -/
def Marks (r r' : Resolver) (nodes : List Expr) : Prop :=
  ∃ uses : List NameUse, r'.uses.toList = r.uses.toList ++ uses ∧
    uses.map NameUse.occurrence <+~ occurrencesOf nodes

theorem marks_nothing (h : r'.uses = r.uses) (nodes : List Expr) : Marks r r' nodes :=
  ⟨[], by rw [h, List.append_nil], List.nil_subperm⟩

theorem Marks.of_uses_eq (h : Marks r r' nodes) {r₀ r₁ : Resolver} (h₀ : r₀.uses = r.uses)
    (h₁ : r₁.uses = r'.uses) : Marks r₀ r₁ nodes := by
  unfold Marks at *
  rwa [h₀, h₁]

theorem Marks.append (h : Marks r r' nodes) (h' : Marks r' r'' nodes') :
    Marks r r'' (nodes ++ nodes') := by
  obtain ⟨uses, huses, hsub⟩ := h
  obtain ⟨uses', huses', hsub'⟩ := h'
  refine ⟨uses ++ uses', by rw [huses', huses, List.append_assoc], ?_⟩
  rw [List.map_append, occurrencesOf_append]
  exact hsub.append hsub'

/-- The walk need not come to the nodes in order. -/
theorem Marks.swap (h : Marks r r' (nodes ++ nodes')) : Marks r r' (nodes' ++ nodes) := by
  obtain ⟨uses, huses, hsub⟩ := h
  refine ⟨uses, huses, ?_⟩
  rw [occurrencesOf_append] at hsub ⊢
  exact hsub.trans List.perm_append_comm.subperm

/-- A node at which nothing is noted. -/
theorem Marks.cons (h : Marks r r' nodes) (e : Expr) : Marks r r' (e :: nodes) := by
  obtain ⟨uses, huses, hsub⟩ := h
  exact ⟨uses, huses, hsub.trans ((List.sublist_cons_self e nodes).filterMap _).subperm⟩

theorem marks_use {x : Name} (h : e.occurrence? = some (e.id, x)) :
    Marks r (r.use e.id x) [e] := by
  refine ⟨[⟨e.id, x, r.distance? x⟩], Array.toList_push, ?_⟩
  rw [occurrencesOf, List.filterMap_cons_some h]
  exact List.Subperm.refl _

theorem marks_read (r : Resolver) (id : Nat) (x : Ident) :
    Marks r (r.read id x) [.read id x] := by
  have huse (r₀ : Resolver) : Marks r₀ (r₀.use id x.name) [.read id x] :=
    marks_use (e := .read id x) rfl
  unfold read
  split
  · exact huse (r.report .ownInitializer x.mark)
  · exact huse r

theorem marks_this (r : Resolver) (id line : Nat) : Marks r (r.this id line) [.this id line] := by
  unfold this
  split
  · exact marks_nothing rfl _
  · exact marks_use (e := .this id line) rfl

theorem marks_super (r : Resolver) (id line : Nat) (method : Ident) :
    Marks r (r.super id line) [.super id line method] := by
  unfold super
  split
  · exact marks_nothing rfl _
  · exact marks_nothing rfl _
  · exact marks_use (e := .super id line method) rfl

/-! ### Steps that note nothing -/

@[simp] theorem uses_declare (r : Resolver) (x : Ident) : (r.declare x).uses = r.uses := by
  unfold declare
  split
  · rfl
  · split <;> rfl

@[simp] theorem uses_define (r : Resolver) (x : Name) : (r.define x).uses = r.uses := by
  unfold define
  split <;> rfl

@[simp] theorem uses_bind (r : Resolver) (x : Ident) : (r.bind x).uses = r.uses := by
  rw [bind, uses_define, uses_declare]

@[simp] theorem uses_params (r : Resolver) (params : List Ident) :
    (params.foldl bind r).uses = r.uses := by
  induction params generalizing r with
  | nil => rfl
  | cons x params ih => rw [List.foldl_cons, ih, uses_bind]

@[simp] theorem uses_returns (r : Resolver) (line : Nat) : (r.returns line).uses = r.uses := by
  unfold returns
  split <;> rfl

@[simp] theorem uses_returnsValue (r : Resolver) (line : Nat) :
    (r.returnsValue line).uses = r.uses := by
  unfold returnsValue
  split <;> rfl

@[simp] theorem uses_inherits (r : Resolver) (x y : Ident) : (r.inherits x y).uses = r.uses := by
  unfold inherits
  split <;> rfl

/-! ### Scopes and classes -/

variable {walk : Resolver → Resolver} (hwalk : ∀ r, Marks r (walk r) nodes)
include hwalk

theorem marks_inScope (r : Resolver) : Marks r (r.inScope walk) nodes :=
  (hwalk r.enter).of_uses_eq rfl rfl

theorem marks_inFunction (r : Resolver) (context : FunctionContext) (params : List Ident) :
    Marks r (r.inFunction context params walk) nodes :=
  (hwalk _).of_uses_eq (uses_params (r.withFunctionContext context).enter params).symm rfl

theorem marks_inMethods (r : Resolver) : Marks r (r.inMethods walk) nodes :=
  (hwalk _).of_uses_eq (uses_define r.enter .this).symm rfl

theorem marks_inClass_none (r : Resolver) (x : Ident) : Marks r (r.inClass x none walk) nodes :=
  (marks_inMethods hwalk _).of_uses_eq (uses_bind (r.withClassContext .inClass) x).symm rfl

theorem marks_inClass_some (r : Resolver) (x : Ident) (s : SuperclassName) :
    Marks r (r.inClass x (some s) walk) (.read s.id s.ident :: nodes) := by
  let named : Resolver :=
    (((r.withClassContext .inClass).bind x).inherits x s.ident).withClassContext .inSubclass
  have hnamed : named.uses = r.uses :=
    (uses_inherits _ x s.ident).trans (uses_bind (r.withClassContext .inClass) x)
  have hread := (marks_read named s.id s.ident).of_uses_eq hnamed.symm rfl
  refine hread.append ((marks_inMethods hwalk _).of_uses_eq ?_ rfl)
  exact (uses_define (named.read s.id s.ident).enter .super).symm

end Resolver

/-! ### Programs -/

open Resolver

mutual

theorem Expr.marks_resolve : ∀ (e : Expr) (r : Resolver), Marks r (e.resolve r) e.nodes
  | .literal _ _, r => by
    rw [Expr.resolve]
    exact marks_nothing rfl _
  | .grouping _ e, r | .unary _ _ _ e, r | .get _ e _, r => by
    rw [Expr.resolve, Expr.nodes]
    exact (e.marks_resolve r).cons _
  | .binary _ _ _ left right, r | .logical _ _ _ left right, r => by
    rw [Expr.resolve, Expr.nodes]
    exact ((left.marks_resolve r).append (right.marks_resolve _)).cons _
  | .read id x, r => by
    rw [Expr.resolve, Expr.nodes]
    exact marks_read r id x
  | .assign id x value, r => by
    rw [Expr.resolve, Expr.nodes]
    have huse : Marks (value.resolve r) ((value.resolve r).use id x.name) [.assign id x value] :=
      marks_use (e := .assign id x value) rfl
    exact ((value.marks_resolve r).append huse).swap
  | .call _ callee _ arguments, r => by
    rw [Expr.resolve, Expr.nodes]
    exact ((callee.marks_resolve r).append (marks_resolveExprs arguments _)).cons _
  | .lambda _ _ params body, r => by
    rw [Expr.resolve, Expr.nodes]
    exact (marks_inFunction (marks_resolveStmts body) r _ params).cons _
  | .set _ object _ value, r => by
    rw [Expr.resolve, Expr.nodes]
    exact ((value.marks_resolve r).append (object.marks_resolve _)).swap.cons _
  | .this id line, r => by
    rw [Expr.resolve, Expr.nodes]
    exact marks_this r id line
  | .super id line method, r => by
    rw [Expr.resolve, Expr.nodes]
    exact marks_super r id line method

theorem marks_resolveExprs : ∀ (es : List Expr) (r : Resolver),
    Marks r (resolveExprs es r) (nodesOfExprs es)
  | [], r => by
    rw [resolveExprs]
    exact marks_nothing rfl _
  | e :: es, r => by
    rw [resolveExprs, nodesOfExprs]
    exact (e.marks_resolve r).append (marks_resolveExprs es _)

theorem Stmt.marks_resolve : ∀ (s : Stmt) (r : Resolver), Marks r (s.resolve r) s.nodes
  | .expression e, r | .print _ e, r => by
    rw [Stmt.resolve, Stmt.nodes]
    exact e.marks_resolve r
  | .varDecl x none, r => by
    rw [Stmt.resolve]
    exact marks_nothing (uses_bind r x) _
  | .varDecl x (some value), r => by
    rw [Stmt.resolve, Stmt.nodes]
    exact (value.marks_resolve _).of_uses_eq (uses_declare r x).symm (uses_define _ _)
  | .block body, r => by
    rw [Stmt.resolve, Stmt.nodes]
    exact marks_inScope (marks_resolveStmts body) r
  | .ifElse condition thenBranch none, r | .whileLoop condition thenBranch, r => by
    rw [Stmt.resolve, Stmt.nodes]
    exact (condition.marks_resolve r).append (thenBranch.marks_resolve _)
  | .ifElse condition thenBranch (some elseBranch), r => by
    rw [Stmt.resolve, Stmt.nodes]
    exact (condition.marks_resolve r).append
      ((thenBranch.marks_resolve _).append (elseBranch.marks_resolve _))
  | .funDecl decl, r => by
    rw [Stmt.resolve, Stmt.nodes]
    exact (decl.marks_resolve .inFunction _).of_uses_eq (uses_bind r decl.name).symm rfl
  | .returns line none, r => by
    rw [Stmt.resolve]
    exact marks_nothing (uses_returns r line) _
  | .returns line (some value), r => by
    rw [Stmt.resolve, Stmt.nodes]
    exact (value.marks_resolve _).of_uses_eq
      ((uses_returnsValue (r.returns line) line).trans (uses_returns r line)).symm rfl
  | .classDecl x none methods, r => by
    rw [Stmt.resolve, Stmt.nodes]
    exact marks_inClass_none (marks_resolveMethods methods) r x
  | .classDecl x (some s) methods, r => by
    rw [Stmt.resolve, Stmt.nodes]
    exact marks_inClass_some (marks_resolveMethods methods) r x s

theorem marks_resolveStmts : ∀ (ss : List Stmt) (r : Resolver),
    Marks r (resolveStmts ss r) (nodesOfProgram ss)
  | [], r => by
    rw [resolveStmts]
    exact marks_nothing rfl _
  | s :: ss, r => by
    rw [resolveStmts, nodesOfProgram]
    exact (s.marks_resolve r).append (marks_resolveStmts ss _)

theorem FunctionDecl.marks_resolve : ∀ (context : FunctionContext) (f : FunctionDecl)
    (r : Resolver), Marks r (f.resolve context r) f.nodes
  | context, .mk _ params body, r => by
    rw [FunctionDecl.resolve, FunctionDecl.nodes]
    exact marks_inFunction (marks_resolveStmts body) r context params

theorem marks_resolveMethods : ∀ (fs : List FunctionDecl) (r : Resolver),
    Marks r (resolveMethods fs r) (nodesOfMethods fs)
  | [], r => by
    rw [resolveMethods]
    exact marks_nothing rfl _
  | f :: fs, r => by
    rw [resolveMethods, nodesOfMethods]
    exact (FunctionDecl.marks_resolve _ f r).append (marks_resolveMethods fs _)

end

/-- The uses that name resolution notes stand at different nodes of the program, under their ids and
with their names. -/
theorem uses_subperm_occurrences (program : List Stmt) :
    (resolveProgram program).uses.map NameUse.occurrence <+~
      occurrencesOf (nodesOfProgram program) := by
  obtain ⟨uses, huses, hsub⟩ := marks_resolveStmts program .start
  have heq : (resolveProgram program).uses = uses := huses
  rwa [heq]

end LexScript
