import LexScript.Proofs.Relabelling.Programs

/-!
# What ids and lines add to a program

The nodes of a program are its expressions, and the names of superclasses, which are occurrences of
variables. A program without its ids and lines is blank: its nodes and names are all there. Two
programs that are the same when they are blank have as many nodes, and if the ids and the lines are
the same, too, they are the same program.

## Main definitions

* `Relabelling.blank` : all ids and lines are forgotten.
* `Expr.nodes`, `Stmt.nodes`, `nodesOfProgram` : the nodes of a program in order.
* `idsOf` : the ids of nodes.

## Main statements

* `eq_of_relabelProgram_idless` : the ids and what is there besides them determine a program.
* `relabelProgram_eq_of_blank` : the same for blank programs that get new ids.
-/

namespace LexScript

namespace Relabelling

/-- All ids and lines are forgotten. -/
def blank : Relabelling := ⟨fun _ ↦ 0, fun _ ↦ 0⟩

/-- All ids are forgotten. -/
def idless : Relabelling := ⟨fun _ ↦ 0, id⟩

end Relabelling

/-! ### Nodes -/

mutual

/-- The nodes of an expression, itself first. -/
def Expr.nodes : Expr → List Expr
  | .literal id value => [.literal id value]
  | .grouping id inner => .grouping id inner :: inner.nodes
  | .unary id op line operand => .unary id op line operand :: operand.nodes
  | .binary id op line left right => .binary id op line left right :: (left.nodes ++ right.nodes)
  | .logical id op line left right => .logical id op line left right :: (left.nodes ++ right.nodes)
  | .read id name => [.read id name]
  | .assign id name value => .assign id name value :: value.nodes
  | .call id callee line arguments =>
    .call id callee line arguments :: (callee.nodes ++ nodesOfExprs arguments)
  | .lambda id line params body => .lambda id line params body :: nodesOfProgram body
  | .get id object name => .get id object name :: object.nodes
  | .set id object name value => .set id object name value :: (object.nodes ++ value.nodes)
  | .this id line => [.this id line]
  | .super id line method => [.super id line method]

/-- The nodes of expressions. -/
def nodesOfExprs : List Expr → List Expr
  | [] => []
  | e :: es => e.nodes ++ nodesOfExprs es

/-- The nodes of a statement. -/
def Stmt.nodes : Stmt → List Expr
  | .expression e => e.nodes
  | .print _ value => value.nodes
  | .varDecl _ none => []
  | .varDecl _ (some value) => value.nodes
  | .block body => nodesOfProgram body
  | .ifElse condition thenBranch none => condition.nodes ++ thenBranch.nodes
  | .ifElse condition thenBranch (some elseBranch) =>
    condition.nodes ++ (thenBranch.nodes ++ elseBranch.nodes)
  | .whileLoop condition body => condition.nodes ++ body.nodes
  | .funDecl decl => decl.nodes
  | .returns _ none => []
  | .returns _ (some value) => value.nodes
  | .classDecl _ none methods => nodesOfMethods methods
  | .classDecl _ (some s) methods => .read s.id s.ident :: nodesOfMethods methods

/-- The nodes of the body of a function. -/
def FunctionDecl.nodes : FunctionDecl → List Expr
  | .mk _ _ body => nodesOfProgram body

/-- The nodes of a program. -/
def nodesOfProgram : List Stmt → List Expr
  | [] => []
  | s :: ss => s.nodes ++ nodesOfProgram ss

/-- The nodes of the bodies of functions. -/
def nodesOfMethods : List FunctionDecl → List Expr
  | [] => []
  | f :: fs => f.nodes ++ nodesOfMethods fs

end

/-- The ids of nodes. -/
def idsOf (nodes : List Expr) : List Nat := nodes.map Expr.id

@[simp] theorem idsOf_nil : idsOf [] = [] := rfl

@[simp] theorem idsOf_cons (e : Expr) (nodes : List Expr) :
    idsOf (e :: nodes) = e.id :: idsOf nodes := rfl

@[simp] theorem idsOf_append (nodes nodes' : List Expr) :
    idsOf (nodes ++ nodes') = idsOf nodes ++ idsOf nodes' := List.map_append

variable {ρ : Relabelling}

@[simp] theorem Expr.id_relabel (e : Expr) : (e.relabel ρ).id = ρ.ids e.id := by
  cases e <;> rw [Expr.relabel] <;> rfl

theorem idsOf_map_relabel (nodes : List Expr) :
    idsOf (nodes.map (Expr.relabel ρ)) = (idsOf nodes).map ρ.ids := by
  simp only [idsOf, List.map_map]
  exact List.map_congr_left fun e _ ↦ e.id_relabel

/-! ### Nodes of relabelled programs -/

mutual

theorem Expr.nodes_relabel : ∀ e : Expr, (e.relabel ρ).nodes = e.nodes.map (Expr.relabel ρ)
  | .literal _ _ | .read _ _ | .this _ _ | .super _ _ _ => by
    simp only [Expr.relabel, Expr.nodes, List.map_cons, List.map_nil]
  | .grouping _ e | .unary _ _ _ e | .assign _ _ e | .get _ e _ => by
    simp only [Expr.relabel, Expr.nodes, e.nodes_relabel, List.map_cons]
  | .binary _ _ _ left right | .logical _ _ _ left right => by
    simp only [Expr.relabel, Expr.nodes, left.nodes_relabel, right.nodes_relabel, List.map_cons,
      List.map_append]
  | .call _ callee _ arguments => by
    simp only [Expr.relabel, Expr.nodes, callee.nodes_relabel, nodesOfExprs_relabel arguments,
      List.map_cons, List.map_append]
  | .lambda _ _ _ body => by
    simp only [Expr.relabel, Expr.nodes, nodesOfProgram_relabel body, List.map_cons]
  | .set _ object _ value => by
    simp only [Expr.relabel, Expr.nodes, object.nodes_relabel, value.nodes_relabel, List.map_cons,
      List.map_append]

theorem nodesOfExprs_relabel : ∀ es : List Expr,
    nodesOfExprs (relabelExprs ρ es) = (nodesOfExprs es).map (Expr.relabel ρ)
  | [] => by simp only [relabelExprs, nodesOfExprs, List.map_nil]
  | e :: es => by
    simp only [relabelExprs, nodesOfExprs, e.nodes_relabel, nodesOfExprs_relabel es,
      List.map_append]

theorem Stmt.nodes_relabel : ∀ s : Stmt, (s.relabel ρ).nodes = s.nodes.map (Expr.relabel ρ)
  | .expression e | .print _ e | .varDecl _ (some e) | .returns _ (some e) => by
    simp only [Stmt.relabel, Stmt.nodes, e.nodes_relabel]
  | .varDecl _ none | .returns _ none => by simp only [Stmt.relabel, Stmt.nodes, List.map_nil]
  | .block body => by simp only [Stmt.relabel, Stmt.nodes, nodesOfProgram_relabel body]
  | .ifElse condition thenBranch none => by
    simp only [Stmt.relabel, Stmt.nodes, condition.nodes_relabel, thenBranch.nodes_relabel,
      List.map_append]
  | .ifElse condition thenBranch (some elseBranch) => by
    simp only [Stmt.relabel, Stmt.nodes, condition.nodes_relabel, thenBranch.nodes_relabel,
      elseBranch.nodes_relabel, List.map_append]
  | .whileLoop condition body => by
    simp only [Stmt.relabel, Stmt.nodes, condition.nodes_relabel, body.nodes_relabel,
      List.map_append]
  | .funDecl decl => by simp only [Stmt.relabel, Stmt.nodes, decl.nodes_relabel]
  | .classDecl _ none methods => by
    simp only [Stmt.relabel, Option.map_none, Stmt.nodes, nodesOfMethods_relabel methods]
  | .classDecl _ (some s) methods => by
    simp only [Stmt.relabel, Option.map_some, Stmt.nodes, nodesOfMethods_relabel methods,
      List.map_cons, Expr.relabel]
    rfl

theorem FunctionDecl.nodes_relabel : ∀ f : FunctionDecl,
    (f.relabel ρ).nodes = f.nodes.map (Expr.relabel ρ)
  | .mk _ _ body => by
    simp only [FunctionDecl.relabel, FunctionDecl.nodes, nodesOfProgram_relabel body]

theorem nodesOfProgram_relabel : ∀ ss : List Stmt,
    nodesOfProgram (relabelProgram ρ ss) = (nodesOfProgram ss).map (Expr.relabel ρ)
  | [] => by simp only [relabelProgram, nodesOfProgram, List.map_nil]
  | s :: ss => by
    simp only [relabelProgram, nodesOfProgram, s.nodes_relabel, nodesOfProgram_relabel ss,
      List.map_append]

theorem nodesOfMethods_relabel : ∀ fs : List FunctionDecl,
    nodesOfMethods (relabelMethods ρ fs) = (nodesOfMethods fs).map (Expr.relabel ρ)
  | [] => by simp only [relabelMethods, nodesOfMethods, List.map_nil]
  | f :: fs => by
    simp only [relabelMethods, nodesOfMethods, f.nodes_relabel, nodesOfMethods_relabel fs,
      List.map_append]

end

/-! ### What determines a program -/

/-- An action that takes ids from a list. -/
abbrev Supply := EStateM Empty (List Nat)

/-- The next id of a list. -/
def Supply.next : Supply Nat := fun ids ↦ .ok (ids.headD 0) ids.tail

@[simp] theorem Supply.next_cons (i : Nat) (ids : List Nat) : next (i :: ids) = .ok i ids := rfl

mutual

/-- An expression with given ids. -/
def Expr.withIds : Expr → Supply Expr
  | .literal _ value => do return .literal (← .next) value
  | .grouping _ inner => do return .grouping (← .next) (← inner.withIds)
  | .unary _ op line operand => do return .unary (← .next) op line (← operand.withIds)
  | .binary _ op line left right => do
    return .binary (← .next) op line (← left.withIds) (← right.withIds)
  | .logical _ op line left right => do
    return .logical (← .next) op line (← left.withIds) (← right.withIds)
  | .read _ name => do return .read (← .next) name
  | .assign _ name value => do return .assign (← .next) name (← value.withIds)
  | .call _ callee line arguments => do
    return .call (← .next) (← callee.withIds) line (← exprsWithIds arguments)
  | .lambda _ line params body => do return .lambda (← .next) line params (← programWithIds body)
  | .get _ object name => do return .get (← .next) (← object.withIds) name
  | .set _ object name value => do
    return .set (← .next) (← object.withIds) name (← value.withIds)
  | .this _ line => do return .this (← .next) line
  | .super _ line method => do return .super (← .next) line method

/-- Expressions with given ids. -/
def exprsWithIds : List Expr → Supply (List Expr)
  | [] => return []
  | e :: es => do return (← e.withIds) :: (← exprsWithIds es)

/-- A statement with given ids. -/
def Stmt.withIds : Stmt → Supply Stmt
  | .expression e => do return .expression (← e.withIds)
  | .print line value => do return .print line (← value.withIds)
  | .varDecl name none => return .varDecl name none
  | .varDecl name (some value) => do return .varDecl name (some (← value.withIds))
  | .block body => do return .block (← programWithIds body)
  | .ifElse condition thenBranch none => do
    return .ifElse (← condition.withIds) (← thenBranch.withIds) none
  | .ifElse condition thenBranch (some elseBranch) => do
    return .ifElse (← condition.withIds) (← thenBranch.withIds) (some (← elseBranch.withIds))
  | .whileLoop condition body => do return .whileLoop (← condition.withIds) (← body.withIds)
  | .funDecl decl => do return .funDecl (← decl.withIds)
  | .returns line none => return .returns line none
  | .returns line (some value) => do return .returns line (some (← value.withIds))
  | .classDecl name none methods => do return .classDecl name none (← methodsWithIds methods)
  | .classDecl name (some s) methods => do
    return .classDecl name (some ⟨← .next, s.ident⟩) (← methodsWithIds methods)

/-- A named function with given ids. -/
def FunctionDecl.withIds : FunctionDecl → Supply FunctionDecl
  | .mk name params body => do return .mk name params (← programWithIds body)

/-- A program with given ids. -/
def programWithIds : List Stmt → Supply (List Stmt)
  | [] => return []
  | s :: ss => do return (← s.withIds) :: (← programWithIds ss)

/-- Named functions with given ids. -/
def methodsWithIds : List FunctionDecl → Supply (List FunctionDecl)
  | [] => return []
  | f :: fs => do return (← f.withIds) :: (← methodsWithIds fs)

end

@[simp] theorem Ident.relabel_idless (x : Ident) : x.relabel .idless = x := rfl

@[simp] theorem Ident.map_relabel_idless (xs : List Ident) :
    xs.map (Ident.relabel .idless) = xs := List.map_id xs

@[simp] theorem Relabelling.idless_lines (line : Nat) : idless.lines line = line := rfl

mutual

/-- A program whose ids are forgotten becomes itself again with its ids. -/
theorem Expr.withIds_relabel : ∀ (e : Expr) (ids : List Nat),
    (e.relabel .idless).withIds (idsOf e.nodes ++ ids) = .ok e ids
  | .literal _ _, _ | .read _ _, _ | .this _ _, _ | .super _ _ _, _ => by
    simp [Expr.relabel, Expr.withIds, Expr.nodes, Expr.id]
  | .grouping _ e, _ | .unary _ _ _ e, _ | .assign _ _ e, _ | .get _ e _, _ => by
    simp [Expr.relabel, Expr.withIds, Expr.nodes, Expr.id, e.withIds_relabel]
  | .binary _ _ _ left right, _ | .logical _ _ _ left right, _ => by
    simp [Expr.relabel, Expr.withIds, Expr.nodes, Expr.id, left.withIds_relabel,
      right.withIds_relabel]
  | .call _ callee _ arguments, _ => by
    simp [Expr.relabel, Expr.withIds, Expr.nodes, Expr.id, callee.withIds_relabel,
      exprsWithIds_relabel arguments]
  | .lambda _ _ _ body, _ => by
    simp [Expr.relabel, Expr.withIds, Expr.nodes, Expr.id, programWithIds_relabel body]
  | .set _ object _ value, _ => by
    simp [Expr.relabel, Expr.withIds, Expr.nodes, Expr.id, object.withIds_relabel,
      value.withIds_relabel]

theorem exprsWithIds_relabel : ∀ (es : List Expr) (ids : List Nat),
    exprsWithIds (relabelExprs .idless es) (idsOf (nodesOfExprs es) ++ ids) = .ok es ids
  | [], _ => by simp [relabelExprs, exprsWithIds, nodesOfExprs]
  | e :: es, _ => by
    simp [relabelExprs, exprsWithIds, nodesOfExprs, e.withIds_relabel, exprsWithIds_relabel es]

theorem Stmt.withIds_relabel : ∀ (s : Stmt) (ids : List Nat),
    (s.relabel .idless).withIds (idsOf s.nodes ++ ids) = .ok s ids
  | .expression e, _ | .print _ e, _ | .varDecl _ (some e), _ | .returns _ (some e), _ => by
    simp [Stmt.relabel, Stmt.withIds, Stmt.nodes, e.withIds_relabel]
  | .varDecl _ none, _ | .returns _ none, _ => by
    simp [Stmt.relabel, Stmt.withIds, Stmt.nodes]
  | .block body, _ => by
    simp [Stmt.relabel, Stmt.withIds, Stmt.nodes, programWithIds_relabel body]
  | .ifElse condition thenBranch none, _ => by
    simp [Stmt.relabel, Stmt.withIds, Stmt.nodes, condition.withIds_relabel,
      thenBranch.withIds_relabel]
  | .ifElse condition thenBranch (some elseBranch), _ => by
    simp [Stmt.relabel, Stmt.withIds, Stmt.nodes, condition.withIds_relabel,
      thenBranch.withIds_relabel, elseBranch.withIds_relabel]
  | .whileLoop condition body, _ => by
    simp [Stmt.relabel, Stmt.withIds, Stmt.nodes, condition.withIds_relabel, body.withIds_relabel]
  | .funDecl decl, _ => by simp [Stmt.relabel, Stmt.withIds, Stmt.nodes, decl.withIds_relabel]
  | .classDecl _ none methods, _ => by
    simp [Stmt.relabel, Stmt.withIds, Stmt.nodes, methodsWithIds_relabel methods]
  | .classDecl _ (some _) methods, _ => by
    simp [Stmt.relabel, SuperclassName.relabel, Stmt.withIds, Stmt.nodes, Expr.id,
      methodsWithIds_relabel methods]

theorem FunctionDecl.withIds_relabel : ∀ (f : FunctionDecl) (ids : List Nat),
    (f.relabel .idless).withIds (idsOf f.nodes ++ ids) = .ok f ids
  | .mk _ _ body, _ => by
    simp [FunctionDecl.relabel, FunctionDecl.withIds, FunctionDecl.nodes,
      programWithIds_relabel body]

theorem programWithIds_relabel : ∀ (ss : List Stmt) (ids : List Nat),
    programWithIds (relabelProgram .idless ss) (idsOf (nodesOfProgram ss) ++ ids) = .ok ss ids
  | [], _ => by simp [relabelProgram, programWithIds, nodesOfProgram]
  | s :: ss, _ => by
    simp [relabelProgram, programWithIds, nodesOfProgram, s.withIds_relabel,
      programWithIds_relabel ss]

theorem methodsWithIds_relabel : ∀ (fs : List FunctionDecl) (ids : List Nat),
    methodsWithIds (relabelMethods .idless fs) (idsOf (nodesOfMethods fs) ++ ids) = .ok fs ids
  | [], _ => by simp [relabelMethods, methodsWithIds, nodesOfMethods]
  | f :: fs, _ => by
    simp [relabelMethods, methodsWithIds, nodesOfMethods, f.withIds_relabel,
      methodsWithIds_relabel fs]

end

/-- Programs that differ only in ids are the same if they have the same ids, too. -/
theorem eq_of_relabelProgram_idless {p q : List Stmt}
    (h : relabelProgram .idless p = relabelProgram .idless q)
    (hids : idsOf (nodesOfProgram p) = idsOf (nodesOfProgram q)) : p = q := by
  have hp := programWithIds_relabel p []
  rw [h, hids, programWithIds_relabel q []] at hp
  exact (EStateM.Result.ok.inj hp).1.symm

/-- Blank programs that are the same become the same program with the same ids. -/
theorem relabelProgram_eq_of_blank {p q : List Stmt} {ids ids' : Nat → Nat}
    (h : relabelProgram .blank p = relabelProgram .blank q)
    (hids : (idsOf (nodesOfProgram p)).map ids = (idsOf (nodesOfProgram q)).map ids') :
    relabelProgram ⟨ids, fun _ ↦ 0⟩ p = relabelProgram ⟨ids', fun _ ↦ 0⟩ q := by
  refine eq_of_relabelProgram_idless ?_ ?_
  · rw [relabelProgram_relabelProgram, relabelProgram_relabelProgram]
    exact h
  · rwa [nodesOfProgram_relabel, nodesOfProgram_relabel, idsOf_map_relabel, idsOf_map_relabel]

/-- A relabelling that keeps the ids of a program and all lines keeps the program. -/
theorem relabelProgram_eq_self_of_ids {p : List Stmt} {ids : Nat → Nat}
    (h : ∀ i ∈ idsOf (nodesOfProgram p), ids i = i) : relabelProgram ⟨ids, id⟩ p = p := by
  refine eq_of_relabelProgram_idless ?_ ?_
  · rw [relabelProgram_relabelProgram]
    rfl
  · rw [nodesOfProgram_relabel, idsOf_map_relabel]
    exact (List.map_congr_left h).trans (List.map_id _)

end LexScript
