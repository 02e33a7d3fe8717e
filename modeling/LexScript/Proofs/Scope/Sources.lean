import LexScript.Proofs.Grammar.Phrases
import LexScript.Proofs.Scope.Uses

/-!
# Lookups of programs that are read

What the parser yields has no declaration as a branch, and each of its lookups has an id of its own
among the ids that reading has given out.

## Main definitions

* `Grammar.Tree.IsPlain`, `Grammar.Tree.lookups` : branches and lookups of what a phrase stands for.
* `AreFresh` : lookups with different ids in a range.

## Main statements

* `Grammar.Derives.isPlain` : no branch is a declaration.
* `Grammar.Derives.areFresh` : the ids of lookups are different and were given out.
-/

namespace LexScript

/-- Lookups have different ids, from one number on and below another. -/
structure AreFresh (n m : Nat) (ls : List Lookup) : Prop where
  nodup : (ls.map Lookup.id).Nodup
  within : ∀ l ∈ ls, n ≤ l.id ∧ l.id < m

namespace AreFresh

variable {n m n' m' k k' : Nat} {ls ls' : List Lookup}

theorem nil : AreFresh n m [] := ⟨List.nodup_nil, List.forall_mem_nil _⟩

theorem single (id : Nat) (x : Name) (opens : List OpenScope) :
    AreFresh id (id + 1) [⟨id, x, opens⟩] :=
  ⟨by simp, List.forall_mem_singleton.2 ⟨Nat.le_refl id, Nat.lt_succ_self id⟩⟩

theorem mono (h : AreFresh n m ls) (hn : n' ≤ n) (hm : m ≤ m') : AreFresh n' m' ls :=
  ⟨h.nodup, fun l hl ↦ ⟨Nat.le_trans hn (h.within l hl).1, Nat.lt_of_lt_of_le (h.within l hl).2 hm⟩⟩

/-- Lookups with ids in ranges that do not meet. -/
theorem append (h : AreFresh n m ls) (h' : AreFresh n' m' ls') (hapart : m ≤ n' ∨ m' ≤ n)
    (hk : k ≤ n ∧ k ≤ n') (hk' : m ≤ k' ∧ m' ≤ k') : AreFresh k k' (ls ++ ls') := by
  refine ⟨?_, List.forall_mem_append.2
    ⟨(h.mono hk.1 hk'.1).within, (h'.mono hk.2 hk'.2).within⟩⟩
  rw [List.map_append, List.nodup_append]
  refine ⟨h.nodup, h'.nodup, fun i hi j hj hij ↦ ?_⟩
  obtain ⟨l, hl, rfl⟩ := List.mem_map.1 hi
  obtain ⟨l', hl', rfl⟩ := List.mem_map.1 hj
  have := h.within l hl
  have := h'.within l' hl'
  omega

end AreFresh

namespace Grammar

variable {rule : ElseRule}

/-! ### Branches -/

/-- No branch in what a phrase stands for is a declaration. -/
def Tree.IsPlain : Tree → Prop
  | .expr e | .optExpr (some e) => e.IsPlain
  | .optExpr none | .names _ | .optStmt none => True
  | .exprs es => ArePlainExprs es
  | .stmt s | .optStmt (some s) => s.IsPlain
  | .stmts ss => ArePlain ss
  | .function f => f.IsPlain
  | .functions fs => ArePlainMethods fs

theorem Derives.isDeclaration_eq_false {isOpen : Bool} {ts : List Token} {s : Stmt} {n m : Nat}
    (h : Derives rule (.statement isOpen) ts n (.stmt s) m) : s.isDeclaration = false := by
  cases h with
  | expression inner =>
    cases inner
    rfl
  | @forLoop _ _ _ _ i => cases i <;> rfl
  | _ => rfl

theorem isPlain_withIncrement {a : Option Expr} {s : Stmt} (ha : (Tree.optExpr a).IsPlain)
    (hs : s.IsPlain) (hdecl : s.isDeclaration = false) :
    (withIncrement a s).IsPlain ∧ (withIncrement a s).isDeclaration = false := by
  cases a with
  | none => exact ⟨hs, hdecl⟩
  | some e =>
    refine ⟨?_, rfl⟩
    rw [withIncrement, Stmt.IsPlain, ArePlain, ArePlain, ArePlain, Stmt.IsPlain]
    exact ⟨hs, ha, trivial⟩

theorem isPlain_withInitializer {i : Option Stmt} {s : Stmt} (hi : (Tree.optStmt i).IsPlain)
    (hs : s.IsPlain) : (withInitializer i s).IsPlain := by
  cases i with
  | none => exact hs
  | some s' =>
    rw [withInitializer, Stmt.IsPlain, ArePlain, ArePlain, ArePlain]
    exact ⟨hi, hs, trivial⟩

theorem Level.isPlain_join {l : Level} {kind : TokenKind}
    {join : Nat → Nat → Expr → Expr → Expr} (h : l.join? kind = some join) {a b : Expr}
    (ha : a.IsPlain) (hb : b.IsPlain) (id line : Nat) : (join id line a b).IsPlain := by
  unfold join? at h
  split at h <;> cases h <;> exact (by rw [Expr.IsPlain]; exact ⟨ha, hb⟩)

theorem Derives.isPlain {c : Category} {ts : List Token} {t : Tree} {n m : Nat}
    (h : Derives rule c ts n t m) : t.IsPlain := by
  induction h with
  | constant | name | this | super => simp only [Tree.IsPlain, Expr.IsPlain]
  | lambda _ _ _ ih => simpa only [Tree.IsPlain, Expr.IsPlain] using ih
  | grouping _ ih | get _ ih | prefixed _ _ ih | assign _ ih =>
    simpa only [Tree.IsPlain, Expr.IsPlain] using ih
  | call _ _ ih ih' | set _ _ ih ih' =>
    simp only [Tree.IsPlain, Expr.IsPlain]
    exact ⟨ih, ih'⟩
  | joined h _ _ ih ih' => exact Level.isPlain_join h ih ih' _ _
  | noExpression | noParameters | someParameters | lastParameter | parameter | noInitializer =>
    trivial
  | noArguments => simp only [Tree.IsPlain, ArePlainExprs]
  | lastArgument _ ih =>
    simp only [Tree.IsPlain, ArePlainExprs]
    exact ⟨ih, trivial⟩
  | argument _ _ ih ih' =>
    simp only [Tree.IsPlain, ArePlainExprs]
    exact ⟨ih, ih'⟩
  | function _ _ _ ih => simpa only [Tree.IsPlain, FunctionDecl.IsPlain] using ih
  | noFunctions => simp only [Tree.IsPlain, ArePlainMethods]
  | functions _ _ ih ih' =>
    simp only [Tree.IsPlain, ArePlainMethods]
    exact ⟨ih, ih'⟩
  | varNil => simp only [Tree.IsPlain, Stmt.IsPlain]
  | varValue _ ih | exprStmt _ ih | print _ ih | blockStmt _ ih | funDecl _ ih | classDecl _ ih
  | subclassDecl _ ih => simpa only [Tree.IsPlain, Stmt.IsPlain] using ih
  | @returns _ e _ _ _ _ _ ih =>
    cases e with
    | none => simp only [Tree.IsPlain, Stmt.IsPlain]
    | some e => simpa only [Tree.IsPlain, Stmt.IsPlain] using ih
  | ifThen _ thenBranch ih ih' =>
    simp only [Tree.IsPlain, Stmt.IsPlain]
    exact ⟨ih, ih', thenBranch.isDeclaration_eq_false⟩
  | ifElse _ thenBranch _ elseBranch ih ih' ih'' =>
    simp only [Tree.IsPlain, Stmt.IsPlain]
    exact ⟨ih, ⟨ih', thenBranch.isDeclaration_eq_false⟩, ih'', elseBranch.isDeclaration_eq_false⟩
  | whileLoop _ body ih ih' =>
    simp only [Tree.IsPlain, Stmt.IsPlain]
    exact ⟨ih, ih', body.isDeclaration_eq_false⟩
  | @forLoop _ _ _ _ _ c _ _ _ _ _ _ _ _ _ _ _ _ _ _ _ body ih ih' ih'' ih₃ =>
    refine isPlain_withInitializer ih ?_
    rw [Stmt.IsPlain]
    refine ⟨?_, isPlain_withIncrement ih'' ih₃ body.isDeclaration_eq_false⟩
    cases c with
    | none =>
      rw [loopCondition, Expr.IsPlain]
      trivial
    | some e => exact ih'
  | noDeclarations => simp only [Tree.IsPlain, ArePlain]
  | declarations _ _ ih ih' =>
    simp only [Tree.IsPlain, ArePlain]
    exact ⟨ih, ih'⟩
  | _ => assumption

/-! ### Ids -/

/-- The lookups of what a phrase stands for. -/
def Tree.lookups (opens : List OpenScope) : Tree → List Lookup
  | .expr e | .optExpr (some e) => e.lookups opens
  | .optExpr none | .names _ | .optStmt none => []
  | .exprs es => lookupsOfExprs opens es
  | .stmt s | .optStmt (some s) => s.lookups opens
  | .stmts ss => lookupsOfStmts opens ss
  | .function f => f.lookups opens
  | .functions fs => lookupsOfMethods opens fs

theorem Level.lookups_join {l : Level} {kind : TokenKind}
    {join : Nat → Nat → Expr → Expr → Expr} (h : l.join? kind = some join)
    (opens : List OpenScope) (a b : Expr) (id line : Nat) :
    (join id line a b).lookups opens = a.lookups opens ++ b.lookups opens := by
  unfold join? at h
  split at h <;> cases h <;> rw [Expr.lookups]

theorem lookups_withIncrement (opens : List OpenScope) (a : Option Expr) (s : Stmt) :
    ∃ opens', (withIncrement a s).lookups opens =
      s.lookups opens' ++ (Tree.optExpr a).lookups (s.declare opens') := by
  cases a with
  | none => exact ⟨opens, (List.append_nil _).symm⟩
  | some e =>
    refine ⟨blockScope [s, .expression e] :: opens, ?_⟩
    simp only [withIncrement, Stmt.lookups, lookupsOfStmts, List.append_nil, Tree.lookups]

theorem lookups_withInitializer (opens : List OpenScope) (i : Option Stmt) (s : Stmt) :
    ∃ opens' opens'', (withInitializer i s).lookups opens =
      (Tree.optStmt i).lookups opens' ++ s.lookups opens'' := by
  cases i with
  | none => exact ⟨opens, opens, rfl⟩
  | some s' =>
    refine ⟨blockScope [s', s] :: opens, s'.declare (blockScope [s', s] :: opens), ?_⟩
    simp only [withInitializer, Stmt.lookups, lookupsOfStmts, List.append_nil, Tree.lookups]

theorem Derives.areFresh {c : Category} {ts : List Token} {t : Tree} {n m : Nat}
    (h : Derives rule c ts n t m) : ∀ opens, AreFresh n m (t.lookups opens) := by
  induction h with
  | constant =>
    intro opens
    rw [Tree.lookups, Expr.lookups]
    exact .nil
  | name | this | super =>
    intro opens
    rw [Tree.lookups, Expr.lookups]
    exact .single _ _ _
  | lambda _ _ _ ih | grouping _ ih | get _ ih | prefixed _ _ ih =>
    intro opens
    rw [Tree.lookups, Expr.lookups]
    exact (ih _).mono (Nat.le_refl _) (Nat.le_succ _)
  | call callee arguments ih ih' =>
    intro opens
    have := callee.le
    have := arguments.le
    rw [Tree.lookups, Expr.lookups]
    exact (ih opens).append (ih' opens) (by omega) (by omega) (by omega)
  | joined h left right ih ih' =>
    intro opens
    have := left.le
    have := right.le
    rw [Tree.lookups, Level.lookups_join h]
    exact (ih opens).append (ih' opens) (by omega) (by omega) (by omega)
  | assign value ih =>
    intro opens
    have := value.le
    rw [Tree.lookups, Expr.lookups]
    exact (ih opens).append (.single _ _ _) (by omega) (by omega) (by omega)
  | set object value ih ih' =>
    intro opens
    have := object.le
    have := value.le
    rw [Tree.lookups, Expr.lookups]
    exact (ih' opens).append (ih opens) (by omega) (by omega) (by omega)
  | noExpression | noParameters | someParameters | lastParameter | parameter | noInitializer =>
    exact fun _ ↦ .nil
  | noArguments =>
    intro opens
    rw [Tree.lookups, lookupsOfExprs]
    exact .nil
  | lastArgument _ ih =>
    intro opens
    rw [Tree.lookups, lookupsOfExprs, lookupsOfExprs, List.append_nil]
    exact ih opens
  | argument first others ih ih' =>
    intro opens
    have := first.le
    have := others.le
    rw [Tree.lookups, lookupsOfExprs]
    exact (ih opens).append (ih' opens) (by omega) (by omega) (by omega)
  | function _ _ _ ih =>
    intro opens
    rw [Tree.lookups, FunctionDecl.lookups]
    exact ih _
  | noFunctions =>
    intro opens
    rw [Tree.lookups, lookupsOfMethods]
    exact .nil
  | functions first others ih ih' =>
    intro opens
    have := first.le
    have := others.le
    rw [Tree.lookups, lookupsOfMethods]
    exact (ih opens).append (ih' opens) (by omega) (by omega) (by omega)
  | varNil =>
    intro opens
    rw [Tree.lookups, Stmt.lookups]
    exact .nil
  | varValue _ ih | exprStmt _ ih | print _ ih | blockStmt _ ih | funDecl _ ih | classDecl _ ih =>
    intro opens
    rw [Tree.lookups, Stmt.lookups]
    exact ih _
  | @subclassDecl _ _ y _ _ _ _ _ n _ methods ih =>
    intro opens
    have := methods.le
    rw [Tree.lookups, Stmt.lookups]
    exact (AreFresh.single n y.name opens).append (ih _) (by omega) (by omega) (by omega)
  | @returns _ e _ _ _ _ _ ih =>
    intro opens
    cases e <;> rw [Tree.lookups, Stmt.lookups]
    · exact .nil
    · exact ih opens
  | ifThen condition thenBranch ih ih' =>
    intro opens
    have := condition.le
    have := thenBranch.le
    rw [Tree.lookups, Stmt.lookups]
    exact (ih opens).append (ih' opens) (by omega) (by omega) (by omega)
  | @ifElse _ _ _ _ _ _ _ _ _ _ _ _ n m k j condition thenBranch _ elseBranch ih ih' ih'' =>
    intro opens
    have := condition.le
    have := thenBranch.le
    have := elseBranch.le
    rw [Tree.lookups, Stmt.lookups]
    have hfirst : AreFresh n k _ :=
      (ih opens).append (ih' opens) (by omega) (by omega) (by omega)
    exact hfirst.append (ih'' opens) (by omega) (by omega) (by omega)
  | whileLoop condition body ih ih' =>
    intro opens
    have := condition.le
    have := body.le
    rw [Tree.lookups, Stmt.lookups]
    exact (ih opens).append (ih' opens) (by omega) (by omega) (by omega)
  | @forLoop _ _ _ _ i c a s _ _ _ _ _ n m k j p initializer condition increment body ih ih' ih''
      ih₃ =>
    intro opens
    have := initializer.le
    have := condition.le
    have := increment.le
    have := body.le
    have hend : p ≤ (loopCondition c p).2 := by
      cases c with
      | none => exact Nat.le_succ p
      | some e => exact Nat.le_refl p
    have hcondition (opens : List OpenScope) :
        AreFresh m k ((loopCondition c p).1.lookups opens) := by
      cases c with
      | none =>
        rw [loopCondition, Expr.lookups]
        exact .nil
      | some e => exact ih' opens
    obtain ⟨opens', opens'', hinitializer⟩ := lookups_withInitializer opens i
      (.whileLoop (loopCondition c p).1 (withIncrement a s))
    obtain ⟨opens₃, hbody⟩ := lookups_withIncrement opens'' a s
    rw [Tree.lookups, hinitializer, Stmt.lookups, hbody]
    have hturn : AreFresh k p _ :=
      (ih₃ opens₃).append (ih'' (s.declare opens₃)) (by omega) (by omega) (by omega)
    have hloop : AreFresh m p _ :=
      (hcondition opens'').append hturn (by omega) (by omega) (by omega)
    exact (ih opens').append hloop (by omega) (by omega) (by omega)
  | noDeclarations =>
    intro opens
    rw [Tree.lookups, lookupsOfStmts]
    exact .nil
  | declarations first others ih ih' =>
    intro opens
    have := first.le
    have := others.le
    rw [Tree.lookups, lookupsOfStmts]
    exact (ih opens).append (ih' _) (by omega) (by omega) (by omega)
  | _ => assumption

end Grammar

end LexScript
