import LexScript.Proofs.Numerals
import LexScript.Proofs.Relabelling.Nodes

/-!
# Nodes of derived programs

A derivation gives out ids from one number on and below another. Each of them is the id of one node
of its tree at most. The numbers that stand in the nodes are those of tokens, which have no sign.

## Main definitions

* `Expr.IsUnsigned` : a node that is no negative number.
* `AreDerived` : what a derivation says about nodes.

## Main statements

* `Grammar.Derives.areDerived` : the nodes of a derived tree.
-/

namespace LexScript

/-- If a node is a number, then this has no sign and is a number indeed. -/
def Expr.IsUnsigned : Expr → Prop
  | .literal _ (.number x) => x.isNegative = false ∧ x.isNaN = false
  | _ => True

/-- Nodes have different ids, from one number on and below another, and their numbers have no
sign. -/
structure AreDerived (n m : Nat) (nodes : List Expr) : Prop where
  le : n ≤ m
  ids : ∀ i, (idsOf nodes).count i ≤ if n ≤ i ∧ i < m then 1 else 0
  unsigned : ∀ e ∈ nodes, e.IsUnsigned

namespace AreDerived

variable {n m k : Nat} {nodes nodes' : List Expr}

theorem nil (n : Nat) : AreDerived n n [] := ⟨Nat.le_refl n, fun i ↦ by simp, List.forall_mem_nil _⟩

theorem mono (h : AreDerived n m nodes) {n' m' : Nat} (hn : n' ≤ n) (hm : m ≤ m') :
    AreDerived n' m' nodes := by
  refine ⟨Nat.le_trans hn (Nat.le_trans h.le hm), fun i ↦ ?_, h.unsigned⟩
  have := h.ids i
  grind

/-- A node gets its id behind those below it. -/
theorem cons (h : AreDerived n m nodes) {e : Expr} (hid : e.id = m) (he : e.IsUnsigned) :
    AreDerived n (m + 1) (e :: nodes) := by
  refine ⟨Nat.le_succ_of_le h.le, fun i ↦ ?_, List.forall_mem_cons.2 ⟨he, h.unsigned⟩⟩
  have := h.ids i
  have := h.le
  rw [idsOf_cons, List.count_cons, hid]
  grind

/-- Nodes with ids in ranges that follow one another. -/
theorem append (h : AreDerived n m nodes) (h' : AreDerived m k nodes') :
    AreDerived n k (nodes ++ nodes') := by
  refine ⟨Nat.le_trans h.le h'.le, fun i ↦ ?_,
    List.forall_mem_append.2 ⟨h.unsigned, h'.unsigned⟩⟩
  have := h.ids i
  have := h'.ids i
  have := h.le
  have := h'.le
  rw [idsOf_append, List.count_append]
  grind

/-- The order of nodes does not matter. -/
theorem swap (h : AreDerived n m (nodes ++ nodes')) : AreDerived n m (nodes' ++ nodes) := by
  refine ⟨h.le, fun i ↦ ?_, fun e he ↦ h.unsigned e (List.perm_append_comm.mem_iff.1 he)⟩
  have := h.ids i
  rw [idsOf_append, List.count_append] at this ⊢
  rwa [Nat.add_comm]

theorem nodup (h : AreDerived n m nodes) : (idsOf nodes).Nodup := by
  refine List.nodup_iff_count.2 fun i ↦ ?_
  have := h.ids i
  grind

theorem le_of_mem (h : AreDerived n m nodes) : ∀ i ∈ idsOf nodes, n ≤ i := by
  intro i hi
  have := h.ids i
  have := List.count_pos_iff.2 hi
  grind

end AreDerived

namespace Grammar

/-- The nodes of what a phrase stands for. -/
def Tree.nodes : Tree → List Expr
  | .expr e | .optExpr (some e) => e.nodes
  | .optExpr none | .names _ | .optStmt none => []
  | .exprs es => nodesOfExprs es
  | .stmt s | .optStmt (some s) => s.nodes
  | .stmts ss => nodesOfProgram ss
  | .function f => f.nodes
  | .functions fs => nodesOfMethods fs

theorem isUnsigned_constant {kind : TokenKind} {v : Literal} (h : constant? kind = some v)
    (i : Nat) : (Expr.literal i v).IsUnsigned := by
  unfold constant? at h
  split at h <;> cases h
  case h_4 text => exact ⟨Number.isNegative_ofText text, Number.isNaN_ofText text⟩
  all_goals trivial

theorem nodes_withIncrement (a : Option Expr) (s : Stmt) :
    (withIncrement a s).nodes = s.nodes ++ (Tree.optExpr a).nodes := by
  cases a <;> simp [withIncrement, Stmt.nodes, nodesOfProgram, Tree.nodes]

theorem nodes_withInitializer (i : Option Stmt) (s : Stmt) :
    (withInitializer i s).nodes = (Tree.optStmt i).nodes ++ s.nodes := by
  cases i <;> simp [withInitializer, Stmt.nodes, nodesOfProgram, Tree.nodes]

theorem Derives.areDerived {rule : ElseRule} {c : Category} {ts : List Token} {t : Tree}
    {n m : Nat} (h : Derives rule c ts n t m) : AreDerived n m t.nodes := by
  induction h with
  | constant h =>
    rw [Tree.nodes, Expr.nodes]
    exact (AreDerived.nil _).cons rfl (isUnsigned_constant h _)
  | name | this | super =>
    rw [Tree.nodes, Expr.nodes]
    exact (AreDerived.nil _).cons rfl trivial
  | lambda _ _ _ ih | grouping _ ih | get _ ih | prefixed _ _ ih =>
    rw [Tree.nodes, Expr.nodes]
    exact ih.cons rfl trivial
  | call _ _ ih ih' =>
    rw [Tree.nodes, Expr.nodes]
    exact (ih.append ih').cons rfl trivial
  | joined h _ _ ih ih' =>
    obtain ⟨op, -, rfl⟩ | ⟨op, -, rfl⟩ := Level.join?_cases h
    all_goals
      rw [Tree.nodes, Expr.nodes]
      exact (ih.append ih').cons rfl trivial
  | assign _ ih =>
    -- The id of the variable that was read before the `=` is not used.
    rw [Tree.nodes, Expr.nodes]
    exact (ih.mono (Nat.le_succ _) (Nat.le_refl _)).cons rfl trivial
  | set _ _ ih ih' =>
    rw [Tree.nodes, Expr.nodes]
    exact (ih.append (ih'.mono (Nat.le_succ _) (Nat.le_refl _))).cons rfl trivial
  | noExpression | noParameters | someParameters | lastParameter | parameter | noInitializer =>
    exact AreDerived.nil _
  | noArguments =>
    rw [Tree.nodes, nodesOfExprs]
    exact AreDerived.nil _
  | lastArgument _ ih =>
    rw [Tree.nodes, nodesOfExprs, nodesOfExprs, List.append_nil]
    exact ih
  | argument _ _ ih ih' =>
    rw [Tree.nodes, nodesOfExprs]
    exact ih.append ih'
  | function _ _ _ ih =>
    rw [Tree.nodes, FunctionDecl.nodes]
    exact ih
  | noFunctions =>
    rw [Tree.nodes, nodesOfMethods]
    exact AreDerived.nil _
  | functions _ _ ih ih' =>
    rw [Tree.nodes, nodesOfMethods]
    exact ih.append ih'
  | varNil =>
    rw [Tree.nodes, Stmt.nodes]
    exact AreDerived.nil _
  | varValue _ ih | exprStmt _ ih | print _ ih | blockStmt _ ih | funDecl _ ih | classDecl _ ih =>
    rw [Tree.nodes, Stmt.nodes]
    exact ih
  | @subclassDecl _ _ y _ _ _ _ _ n _ _ ih =>
    rw [Tree.nodes, Stmt.nodes]
    have hname : AreDerived n (n + 1) [.read n y] := (AreDerived.nil n).cons rfl trivial
    exact hname.append ih
  | @returns _ e _ _ _ _ _ ih =>
    cases e <;> rw [Tree.nodes, Stmt.nodes]
    · exact ih
    · exact ih
  | ifThen _ _ ih ih' | whileLoop _ _ ih ih' =>
    rw [Tree.nodes, Stmt.nodes]
    exact ih.append ih'
  | ifElse _ _ _ _ ih ih' ih'' =>
    rw [Tree.nodes, Stmt.nodes]
    exact ih.append (ih'.append ih'')
  | @forLoop _ _ _ _ i c a s _ _ _ _ _ n m k j p _ _ _ _ ih ih' ih'' ih₃ =>
    rw [Tree.nodes, nodes_withInitializer, Stmt.nodes, nodes_withIncrement]
    have hturn : AreDerived k p _ := (ih''.append ih₃).swap
    refine ih.append ?_
    cases c with
    | some e => exact ih'.append hturn
    | none =>
      rw [loopCondition, Expr.nodes]
      exact (hturn.mono ih'.le (Nat.le_refl _)).cons rfl trivial
  | noDeclarations =>
    rw [Tree.nodes, nodesOfProgram]
    exact AreDerived.nil _
  | declarations _ _ ih ih' =>
    rw [Tree.nodes, nodesOfProgram]
    exact ih.append ih'
  | _ => assumption

end Grammar

end LexScript
