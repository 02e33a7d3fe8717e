import LexScript.Proofs.Grammar.Soundness
import LexScript.Proofs.Relabelling.Derivations
import Mathlib.Data.List.Perm.Subperm

/-!
# Ids of the nodes that parsing yields

A node gets its id when the nodes below it are there, so that its id is greater than theirs. Some
ids are taken by nodes that are not part of any result: the left side of an assignment is read as an
expression of its own, and a declaration that fails is dropped with all of its nodes. Nodes are also
put in another order, or below other nodes, than the one in which they were read. But no node is
used twice, and no id is given out a second time.

So what is said of a parser here is about the nodes that it is given, which are among those of its
result or are dropped, and about ids from the first one of the given nodes on. It holds whether or
not errors are recorded.

## Main definitions

* `AreIssued` : different ids in a range, each greater than those below it.
* `Parse.Issues` : a parser that keeps this up.
* `Rules.Issue` : rules that do.

## Main statements

* `Rules.issue_atDepth` : the rules keep it up at every depth.
* `areIssued_parse`, `areIssued_parseExpression` : the ids of a parsed program and expression.
-/

namespace LexScript

open Grammar
open scoped List

/-! ### Nodes with ids -/

theorem Expr.nodes_eq_cons (e : Expr) : e.nodes = e :: e.nodes.tail := by
  cases e <;> rw [Expr.nodes] <;> rfl

/-- Nodes have different ids, from one number on and below another, and the id of a node is greater
than those of all nodes below it. -/
structure AreIssued (n m : Nat) (nodes : List Expr) : Prop where
  le : n ≤ m
  nodup : (idsOf nodes).Nodup
  within : ∀ e ∈ nodes, n ≤ e.id ∧ e.id < m
  ordered : ∀ e ∈ nodes, ∀ e' ∈ e.nodes.tail, e'.id < e.id

namespace AreIssued

variable {n m k : Nat} {nodes nodes' : List Expr}

theorem nil (h : n ≤ m) : AreIssued n m [] :=
  ⟨h, List.nodup_nil, List.forall_mem_nil _, List.forall_mem_nil _⟩

theorem mono (h : AreIssued n m nodes) {n' m' : Nat} (hn : n' ≤ n) (hm : m ≤ m') :
    AreIssued n' m' nodes where
  le := Nat.le_trans hn (Nat.le_trans h.le hm)
  nodup := h.nodup
  within e he := ⟨Nat.le_trans hn (h.within e he).1, Nat.lt_of_lt_of_le (h.within e he).2 hm⟩
  ordered := h.ordered

/-- Nodes with ids in ranges that follow one another. -/
theorem append (h : AreIssued n m nodes) (h' : AreIssued m k nodes') :
    AreIssued n k (nodes ++ nodes') where
  le := Nat.le_trans h.le h'.le
  nodup := by
    rw [idsOf_append, List.nodup_append]
    refine ⟨h.nodup, h'.nodup, fun i hi j hj ↦ ?_⟩
    obtain ⟨e, he, rfl⟩ := List.mem_map.1 hi
    obtain ⟨e', he', rfl⟩ := List.mem_map.1 hj
    exact Nat.ne_of_lt (Nat.lt_of_lt_of_le (h.within e he).2 (h'.within e' he').1)
  within := List.forall_mem_append.2
    ⟨(h.mono (Nat.le_refl n) h'.le).within, (h'.mono h.le (Nat.le_refl k)).within⟩
  ordered := List.forall_mem_append.2 ⟨h.ordered, h'.ordered⟩

/-- Some of the nodes, in any order. -/
theorem of_subperm (h : AreIssued n m nodes) (hsub : nodes' <+~ nodes) :
    AreIssued n m nodes' where
  le := h.le
  nodup := by
    obtain ⟨some, hperm, hsublist⟩ := hsub
    exact (hperm.map Expr.id).nodup_iff.1 (h.nodup.sublist (hsublist.map Expr.id))
  within e he := h.within e (hsub.subset he)
  ordered e he := h.ordered e (hsub.subset he)

/-- A new node over some of the nodes gets the next id. -/
theorem cons (h : AreIssued n m nodes) {e : Expr} (hid : e.id = m)
    (hbelow : ∀ e' ∈ e.nodes.tail, e' ∈ nodes) : AreIssued n (m + 1) (e :: nodes) where
  le := Nat.le_succ_of_le h.le
  nodup := by
    rw [idsOf_cons, List.nodup_cons]
    refine ⟨fun hmem ↦ ?_, h.nodup⟩
    obtain ⟨e', he', heq⟩ := List.mem_map.1 hmem
    exact Nat.ne_of_lt (h.within e' he').2 (heq.trans hid)
  within := List.forall_mem_cons.2
    ⟨⟨hid ▸ h.le, hid ▸ Nat.lt_succ_self m⟩, (h.mono (Nat.le_refl n) (Nat.le_succ m)).within⟩
  ordered := List.forall_mem_cons.2
    ⟨fun e' he' ↦ hid ▸ (h.within e' (hbelow e' he')).2, h.ordered⟩

end AreIssued

/-! ### Parsers -/

namespace Parse

variable {α β : Type} {given : List Expr} {nodes : α → List Expr}
  {nodes' : β → List Expr}

/-- If the given nodes were issued, then the nodes of the result are, too: they are some of the
given ones and new ones. No id is given out a second time. -/
def Issues (given : List Expr) (p : Parse α) (nodes : α → List Expr) : Prop :=
  ∀ (n : Nat) (c : Cursor), AreIssued n c.nextId given →
    match p c with
    | .ok a c' => c.nextId ≤ c'.nextId ∧ AreIssued n c'.nextId (nodes a)
    | .error _ c' => c.nextId ≤ c'.nextId

/-! #### Composed parsers -/

theorem Issues.bind {p : Parse α} {f : α → Parse β} (hp : Issues given p nodes)
    (hf : ∀ a, Issues (nodes a) (f a) nodes') : Issues given (p >>= f) nodes' := by
  intro n c hgiven
  have hp := hp n c hgiven
  rw [bind_apply]
  cases hpc : p c with
  | error e c' =>
    rw [hpc] at hp
    exact hp
  | ok a c' =>
    rw [hpc] at hp
    have hf := hf a n c' hp.2
    dsimp only
    cases hfc : f a c' with
    | error e c'' =>
      rw [hfc] at hf
      exact Nat.le_trans hp.1 hf
    | ok b c'' =>
      rw [hfc] at hf
      exact ⟨Nat.le_trans hp.1 hf.1, hf.2⟩

theorem Issues.map {p : Parse α} (hp : Issues given p nodes) {f : α → β}
    (hf : ∀ a, nodes' (f a) = nodes a) : Issues given (f <$> p) nodes' := by
  intro n c hgiven
  have hp := hp n c hgiven
  rw [map_apply]
  cases hpc : p c with
  | error e c' =>
    rw [hpc] at hp
    exact hp
  | ok a c' =>
    rw [hpc] at hp
    exact ⟨hp.1, hf a ▸ hp.2⟩

/-- A parser leaves nodes alone that it is not given. -/
theorem Issues.beside {p : Parse α} (hp : Issues [] p nodes) (given : List Expr) :
    Issues given p fun a ↦ given ++ nodes a := by
  intro n c hgiven
  have hp := hp c.nextId c (.nil (Nat.le_refl _))
  cases hpc : p c with
  | error e c' =>
    rw [hpc] at hp
    exact hp
  | ok a c' =>
    rw [hpc] at hp
    exact ⟨hp.1, hgiven.append hp.2⟩

/-- The nodes of a result are given to what comes behind it, with those from before. -/
theorem Issues.andThen {p : Parse α} {f : α → Parse β} (hp : Issues [] p nodes)
    (hf : ∀ a, Issues (given ++ nodes a) (f a) nodes') : Issues given (p >>= f) nodes' :=
  (hp.beside given).bind hf

/-- Behind a parser that yields no nodes, those from before are given. -/
theorem Issues.behind {p : Parse α} {f : α → Parse β} (hp : Issues [] p fun _ ↦ [])
    (hf : ∀ a, Issues given (f a) nodes') : Issues given (p >>= f) nodes' :=
  hp.andThen fun a ↦ (List.append_nil given).symm ▸ hf a

/-- A result may be made of some of the given nodes, in any order. -/
theorem issues_some {a : α} (h : nodes a <+~ given) : Issues given (pure a) nodes :=
  fun _ _ hgiven ↦ ⟨Nat.le_refl _, hgiven.of_subperm h⟩

theorem issues_pure {a : α} (h : nodes a = given) : Issues given (pure a) nodes :=
  issues_some (h ▸ List.Subperm.refl _)

theorem issues_throw (e : SyntaxError) : Issues given (throw e) nodes := fun _ _ _ ↦ Nat.le_refl _

theorem issues_fail (fault : SyntaxFault) : Issues given (fail fault) nodes :=
  fun _ _ _ ↦ Nat.le_refl _

theorem issues_cursor {f : Cursor → Parse α} (h : ∀ c, Issues given (f c) nodes) :
    Issues given (cursor >>= f) nodes := fun n c ↦ h c n c

theorem issues_cond {p q : Parse α} (b : Bool) (hp : Issues given p nodes)
    (hq : Issues given q nodes) : Issues given (if b then p else q) nodes := by
  cases b
  · exact hq
  · exact hp

/-- A new node over some of the given ones is there beside some others. -/
theorem issues_fresh {f : Nat → Parse α} (make : Nat → Expr) (rest : List Expr)
    (hid : ∀ i, (make i).id = i) (hsub : ∀ i, (make i).nodes.tail ++ rest <+~ given)
    (hf : ∀ i, Issues ((make i).nodes ++ rest) (f i) nodes) :
    Issues given (freshId >>= f) nodes := by
  intro n c hgiven
  have hbelow := hgiven.of_subperm (hsub c.nextId)
  have hnew := hbelow.cons (hid c.nextId) fun e' he' ↦ List.mem_append_left _ he'
  rw [← List.cons_append, ← Expr.nodes_eq_cons] at hnew
  have hf := hf c.nextId n { c with nextId := c.nextId + 1 } hnew
  change match f c.nextId { c with nextId := c.nextId + 1 } with
    | .ok a c' => c.nextId ≤ c'.nextId ∧ AreIssued n c'.nextId (nodes a)
    | .error _ c' => c.nextId ≤ c'.nextId
  split at hf
  · exact ⟨Nat.le_of_succ_le hf.1, hf.2⟩
  · exact Nat.le_of_succ_le hf

/-- A result that is a new node over some of the given ones. -/
theorem issues_make {make : Nat → Expr} (hid : ∀ i, (make i).id = i)
    (hsub : ∀ i, (make i).nodes.tail <+~ given) :
    Issues given (do pure (make (← freshId))) Expr.nodes :=
  issues_fresh make [] hid (fun i ↦ (List.append_nil _).symm ▸ hsub i)
    fun _ ↦ issues_pure (List.append_nil _).symm

/-- A new node over all of the given ones. -/
theorem issues_node {f : Nat → Parse α} {make : Nat → Expr} (hid : ∀ i, (make i).id = i)
    (hnodes : ∀ i, (make i).nodes = make i :: given)
    (hf : ∀ i, Issues (make i).nodes (f i) nodes) : Issues given (freshId >>= f) nodes := by
  refine issues_fresh make [] hid (fun i ↦ ?_) fun i ↦ (List.append_nil _).symm ▸ hf i
  rw [hnodes, List.tail_cons, List.append_nil]

/-- A result that is a new node over all of the given ones. -/
theorem issues_over {make : Nat → Expr} (hid : ∀ i, (make i).id = i)
    (hnodes : ∀ i, (make i).nodes = make i :: given) :
    Issues given (do pure (make (← freshId))) Expr.nodes :=
  issues_node hid hnodes fun _ ↦ issues_pure rfl

/-! #### Moving on -/

/-- A result without nodes. -/
theorem issues_done (a : α) : Issues [] (pure a) fun _ ↦ [] := issues_pure rfl

theorem issues_skip : Issues [] skip fun _ ↦ [] := fun _ _ h ↦ ⟨Nat.le_refl _, h⟩

theorem issues_record (fault : SyntaxFault) : Issues [] (record fault) fun _ ↦ [] :=
  fun _ _ h ↦ ⟨Nat.le_refl _, h⟩

theorem issues_accept (kind : TokenKind) : Issues [] (accept kind) fun _ ↦ [] :=
  issues_cursor fun _ ↦ issues_cond _ (issues_skip.behind fun _ ↦ issues_done true)
    (issues_done false)

theorem issues_expectSymbol (s : Symbol) (spot : Spot) :
    Issues [] (expectSymbol s spot) fun _ ↦ [] :=
  issues_cursor fun _ ↦ issues_cond _ (issues_skip.behind fun _ ↦ issues_done _)
    (issues_fail _)

theorem issues_expectName (role : NameRole) : Issues [] (expectName role) fun _ ↦ [] := by
  refine issues_cursor fun c ↦ ?_
  split
  · exact issues_skip.behind fun _ ↦ issues_done _
  · exact issues_fail _

/-! #### Lists, and going on after a failure -/

theorem Issues.commaSeparated {item : Parse α} (hitem : Issues [] item nodes)
    (excess : SyntaxFault) (bound count : Nat) :
    Issues [] (commaSeparated excess item bound count) (List.flatMap nodes) := by
  induction bound generalizing count with
  | zero => exact issues_fail _
  | succ bound ih =>
    have hlist : Issues []
        (do
          let first ← item
          if ← accept (.symbol .comma) then
            let others ← Parse.commaSeparated excess item bound (count + 1)
            pure (first :: others)
          else
            pure [first]) (List.flatMap nodes) :=
      hitem.bind fun first ↦ (issues_accept _).behind fun _ ↦ issues_cond _
        ((ih (count + 1)).andThen fun others ↦ issues_pure rfl)
        (issues_pure (by rw [List.flatMap_singleton]))
    unfold Parse.commaSeparated
    split
    · exact (issues_record excess).behind fun _ ↦ hlist
    · exact hlist

theorem Issues.itemsUntil {item : Parse α} (hitem : Issues [] item nodes) (stop : Cursor → Bool)
    (bound : Nat) : Issues [] (itemsUntil stop item bound) (List.flatMap nodes) := by
  induction bound with
  | zero => exact issues_fail _
  | succ bound ih =>
    exact issues_cursor fun _ ↦ issues_cond _ (issues_pure rfl) <|
      hitem.bind fun first ↦ ih.andThen fun others ↦ issues_pure rfl

/-- The nodes of what fails are dropped. -/
theorem Issues.recover {p : Parse α} (hp : Issues [] p nodes) :
    Issues [] (recover p) fun a ↦ a.elim [] nodes := by
  intro n c hgiven
  have hp := hp n c hgiven
  rw [Parse.recover]
  cases hpc : p c with
  | ok a c' =>
    rw [hpc] at hp
    exact hp
  | error e c' =>
    rw [hpc] at hp
    exact ⟨hp, .nil (Nat.le_trans hgiven.le hp)⟩

end Parse

namespace Rules

open Parse

/-! ### Rules -/

/-- The nodes of all that a list of declarations yields. -/
def nodesOfDeclarations (items : List (Option Stmt)) : List Expr :=
  items.flatMap fun item ↦ item.elim [] Stmt.nodes

/-- The node of a superclass, an occurrence of a variable. -/
def superclassNodes (superclass : Option SuperclassName) : List Expr :=
  superclass.elim [] fun s ↦ [.read s.id s.ident]

theorem nodesOfDeclarations_eq (items : List (Option Stmt)) :
    nodesOfDeclarations items = nodesOfProgram (items.filterMap id) := by
  induction items with
  | nil => rw [List.filterMap_nil, nodesOfProgram, nodesOfDeclarations, List.flatMap_nil]
  | cons item items ih =>
    rw [nodesOfDeclarations, List.flatMap_cons]
    rw [nodesOfDeclarations] at ih
    cases item with
    | none => exact ih
    | some s =>
      rw [ih, List.filterMap_cons_some (id_eq _), nodesOfProgram]
      rfl

theorem flatMap_nodes_exprs (es : List Expr) : es.flatMap Expr.nodes = nodesOfExprs es := by
  induction es with
  | nil => rw [nodesOfExprs, List.flatMap_nil]
  | cons e es ih => rw [nodesOfExprs, List.flatMap_cons, ih]

theorem flatMap_nodes_methods (fs : List FunctionDecl) :
    fs.flatMap FunctionDecl.nodes = nodesOfMethods fs := by
  induction fs with
  | nil => rw [nodesOfMethods, List.flatMap_nil]
  | cons f fs ih => rw [nodesOfMethods, List.flatMap_cons, ih]

theorem nodes_classDecl (x : Ident) (s : Option SuperclassName) (fs : List FunctionDecl) :
    (Stmt.classDecl x s fs).nodes = superclassNodes s ++ nodesOfMethods fs := by
  cases s <;> rw [Stmt.nodes] <;> rfl

theorem nodes_varDecl (x : Ident) (value : Option Expr) :
    (Stmt.varDecl x value).nodes = (Tree.optExpr value).nodes := by
  cases value <;> rw [Stmt.nodes] <;> rfl

theorem nodes_returns (line : Nat) (value : Option Expr) :
    (Stmt.returns line value).nodes = (Tree.optExpr value).nodes := by
  cases value <;> rw [Stmt.nodes] <;> rfl

theorem nodes_ifElse (e : Expr) (s : Stmt) (s' : Option Stmt) :
    (Stmt.ifElse e s s').nodes = e.nodes ++ s.nodes ++ (Tree.optStmt s').nodes := by
  cases s' with
  | none => rw [Stmt.nodes, Tree.nodes, List.append_nil]
  | some s' => rw [Stmt.nodes, Tree.nodes, List.append_assoc]

/-- The parts of a loop stand in another order than the one in which they are read. -/
theorem perm_nodes_forLoop (i : Option Stmt) (e : Expr) (a : Option Expr) (s : Stmt) :
    (forLoop i e a s).nodes ~
      (Tree.optStmt i).nodes ++ e.nodes ++ (Tree.optExpr a).nodes ++ s.nodes := by
  rw [forLoop_eq, nodes_withInitializer, Stmt.nodes, nodes_withIncrement, List.append_assoc,
    List.append_assoc]
  exact (List.perm_append_comm.append_left _).append_left _

/-- The rules issue the nodes of what they yield. -/
structure Issue (r : Rules) : Prop where
  expression : Issues [] r.expression Expr.nodes
  unary : Issues [] r.unary Expr.nodes
  statement : Issues [] r.statement Stmt.nodes
  declaration : Issues [] r.declaration fun s ↦ s.elim [] Stmt.nodes

variable {r : Rules} (hr : r.Issue) (bound : Nat)

include hr

theorem issues_block : Issues [] (r.block bound) nodesOfProgram :=
  (hr.declaration.itemsUntil Cursor.atBlockEnd bound).bind fun items ↦
    (issues_expectSymbol _ _).behind fun _ ↦
      issues_pure (nodesOfDeclarations_eq items).symm

theorem issues_behindParameters (form : FunctionForm) (params : List Ident) :
    Issues [] (r.behindParameters bound form params) fun f ↦ nodesOfProgram f.2 :=
  (issues_expectSymbol _ _).behind fun _ ↦ (issues_expectSymbol _ _).behind fun _ ↦
    (issues_block hr bound).bind fun _ ↦ issues_pure rfl

theorem issues_functionTail (form : FunctionForm) :
    Issues [] (r.functionTail bound form) fun f ↦ nodesOfProgram f.2 := by
  have hrest := issues_behindParameters hr bound form
  have hnames : Issues [] (commaSeparated .tooManyParameters (expectName .parameter) bound 0)
      fun _ ↦ [] := by
    have hnodes : (List.flatMap fun _ : Ident ↦ ([] : List Expr)) = fun _ ↦ [] :=
      funext fun _ ↦ List.flatMap_eq_nil_iff.2 fun _ _ ↦ rfl
    exact hnodes ▸ (issues_expectName .parameter).commaSeparated .tooManyParameters bound 0
  exact issues_cursor fun _ ↦ issues_cond _ (hrest []) (hnames.behind hrest)

theorem issues_function (form : FunctionForm) :
    Issues [] (r.function bound form) FunctionDecl.nodes :=
  (issues_expectName _).behind fun _ ↦ (issues_expectSymbol _ _).behind fun _ ↦
    (issues_functionTail hr bound form).bind fun _ ↦
      issues_pure (by rw [FunctionDecl.nodes])

/-! #### Expressions -/

omit hr in
theorem issues_leaf {make : Nat → Expr} (hid : ∀ i, (make i).id = i)
    (hnodes : ∀ i, (make i).nodes = [make i]) : Issues [] (leaf make) Expr.nodes :=
  issues_skip.behind fun _ ↦ issues_over hid hnodes

theorem issues_primary : Issues [] (r.primary bound) Expr.nodes := by
  refine issues_cursor fun c ↦ ?_
  dsimp only
  split
  case h_8 =>
    exact issues_skip.behind fun _ ↦ (issues_expectSymbol _ _).behind fun _ ↦
      (issues_expectName _).behind fun _ ↦ issues_over (fun _ ↦ rfl) fun _ ↦ by rw [Expr.nodes]
  case h_9 =>
    exact issues_skip.behind fun _ ↦ hr.expression.bind fun _ ↦
      (issues_expectSymbol _ _).behind fun _ ↦
        issues_over (fun _ ↦ rfl) fun _ ↦ by rw [Expr.nodes]
  case h_10 =>
    exact issues_skip.behind fun _ ↦ (issues_expectSymbol _ _).behind fun _ ↦
      (issues_functionTail hr bound .lambda).bind fun _ ↦
        issues_over (fun _ ↦ rfl) fun _ ↦ by rw [Expr.nodes]
  case h_11 => exact issues_fail _
  all_goals
    exact issues_leaf (fun _ ↦ rfl) fun _ ↦ by rw [Expr.nodes]

theorem issues_finishCall (callee : Expr) :
    Issues callee.nodes (r.finishCall bound callee) Expr.nodes := by
  have hrest (es : List Expr) : Issues (callee.nodes ++ es.flatMap Expr.nodes)
      (do
        let line ← expectSymbol .rightParen .afterArguments
        pure (.call (← freshId) callee line es)) Expr.nodes :=
    (issues_expectSymbol _ _).behind fun _ ↦ issues_over (fun _ ↦ rfl) fun _ ↦ by
      rw [Expr.nodes, flatMap_nodes_exprs]
  have hnone : Issues [] (pure []) (List.flatMap Expr.nodes) := issues_pure rfl
  exact issues_cursor fun _ ↦ issues_cond _ (hnone.andThen hrest)
    ((hr.expression.commaSeparated .tooManyArguments bound 0).andThen hrest)

theorem issues_callTail (turns : Nat) (e : Expr) :
    Issues e.nodes (r.callTail bound turns e) Expr.nodes := by
  induction turns generalizing e with
  | zero => exact issues_fail _
  | succ turns ih =>
    refine (issues_accept _).behind fun _ ↦ issues_cond _
      ((issues_finishCall hr bound e).bind ih) ?_
    refine (issues_accept _).behind fun _ ↦ issues_cond _ ?_ (issues_pure rfl)
    exact (issues_expectName _).behind fun _ ↦ issues_node (fun _ ↦ rfl)
      (fun _ ↦ by rw [Expr.nodes]) fun _ ↦ ih _

theorem issues_call : Issues [] (r.call bound) Expr.nodes :=
  (issues_primary hr bound).bind (issues_callTail hr bound bound)

theorem issues_unaryLevel : Issues [] (r.unaryLevel bound) Expr.nodes := by
  refine issues_cursor fun c ↦ ?_
  dsimp only
  split
  · exact issues_skip.behind fun _ ↦ hr.unary.bind fun _ ↦
      issues_over (fun _ ↦ rfl) fun _ ↦ by rw [Expr.nodes]
  · exact issues_call hr bound

omit hr in
theorem issues_level {β : Type} (op? : TokenKind → Option β)
    {join : Nat → β → Nat → Expr → Expr → Expr} {operand : Parse Expr}
    (hid : ∀ i op line a b, (join i op line a b).id = i)
    (hnodes : ∀ i op line a b,
      (join i op line a b).nodes = join i op line a b :: (a.nodes ++ b.nodes))
    (h : Issues [] operand Expr.nodes) : Issues [] (level bound op? join operand) Expr.nodes := by
  suffices htail : ∀ turns e, Issues e.nodes (operatorTail op? join operand turns e) Expr.nodes from
    h.bind (htail bound)
  intro turns
  induction turns with
  | zero => exact fun _ ↦ issues_fail _
  | succ turns ih =>
    refine fun e ↦ issues_cursor fun c ↦ ?_
    dsimp only
    split
    · exact issues_skip.behind fun _ ↦ h.andThen fun _ ↦ issues_node (fun _ ↦ hid _ _ _ _ _)
        (fun _ ↦ hnodes _ _ _ _ _) fun _ ↦ ih _
    · exact issues_pure rfl

theorem issues_logicOr : Issues [] (r.logicOr bound) Expr.nodes := by
  have hbinary (i : Nat) (op : BinaryOp) (line : Nat) (a b : Expr) :
      (Expr.binary i op line a b).nodes = .binary i op line a b :: (a.nodes ++ b.nodes) := by
    rw [Expr.nodes]
  have hlogical (i : Nat) (op : LogicalOp) (line : Nat) (a b : Expr) :
      (Expr.logical i op line a b).nodes = .logical i op line a b :: (a.nodes ++ b.nodes) := by
    rw [Expr.nodes]
  have hequality := issues_level bound equalityOp? (fun _ _ _ _ _ ↦ rfl) hbinary <|
    issues_level bound comparisonOp? (fun _ _ _ _ _ ↦ rfl) hbinary <|
      issues_level bound termOp? (fun _ _ _ _ _ ↦ rfl) hbinary <|
        issues_level bound factorOp? (fun _ _ _ _ _ ↦ rfl) hbinary <| issues_unaryLevel hr bound
  exact issues_level bound orOp? (fun _ _ _ _ _ ↦ rfl) hlogical <|
    issues_level bound andOp? (fun _ _ _ _ _ ↦ rfl) hlogical hequality

omit hr in
/-- The node that stood left of the `=` is dropped, but not the object of a property. -/
theorem issues_assignTo (target : Expr) (equals : Token) (value : Expr) :
    Issues (target.nodes ++ value.nodes) (assignTo target equals value) Expr.nodes := by
  unfold assignTo
  split
  · refine issues_make (fun _ ↦ rfl) fun _ ↦ ?_
    simp only [Expr.nodes, List.tail_cons]
    exact (List.sublist_append_right _ _).subperm
  · refine issues_make (fun _ ↦ rfl) fun _ ↦ ?_
    simp only [Expr.nodes, List.tail_cons]
    exact (List.sublist_cons_self _ _).subperm
  · exact issues_throw _

theorem issues_assignment : Issues [] (r.assignment bound) Expr.nodes := by
  refine (issues_logicOr hr bound).bind fun target ↦ issues_cursor fun c ↦ ?_
  exact issues_cond _
    (issues_skip.behind fun _ ↦ hr.expression.andThen (issues_assignTo target c.token))
    (issues_pure rfl)

/-! #### Statements -/

theorem issues_expressionStatement : Issues [] (r.expressionStatement bound) Stmt.nodes :=
  (issues_assignment hr bound).bind fun e ↦ (issues_expectSymbol _ _).behind fun _ ↦
    issues_pure (by rw [Stmt.nodes])

theorem issues_someAssignment :
    Issues [] (some <$> r.assignment bound) fun e ↦ (Tree.optExpr e).nodes :=
  (issues_assignment hr bound).map fun _ ↦ rfl

omit hr in
theorem issues_noExpression : Issues [] (pure none) fun e ↦ (Tree.optExpr e).nodes :=
  issues_pure rfl

theorem issues_varDeclaration : Issues [] (r.varDeclaration bound) Stmt.nodes := by
  have hrest (x : Ident) (value : Option Expr) : Issues (Tree.optExpr value).nodes
      (do
        let _ ← expectSymbol .semicolon .afterVariableDeclaration
        pure (.varDecl x value)) Stmt.nodes :=
    (issues_expectSymbol _ _).behind fun _ ↦
      issues_pure (by rw [nodes_varDecl])
  exact (issues_expectName _).behind fun x ↦ (issues_accept _).behind fun _ ↦ issues_cond _
    ((issues_someAssignment hr bound).bind (hrest x)) (issues_noExpression.bind (hrest x))

theorem issues_optionalExpression (s : Symbol) :
    Issues [] (r.optionalExpression bound s) fun e ↦ (Tree.optExpr e).nodes :=
  issues_cursor fun _ ↦ issues_cond _ issues_noExpression (issues_someAssignment hr bound)

theorem issues_forInitializer :
    Issues [] (r.forInitializer bound) fun i ↦ (Tree.optStmt i).nodes :=
  (issues_accept _).behind fun _ ↦ issues_cond _ (issues_pure rfl) <|
    (issues_accept _).behind fun _ ↦ issues_cond _
      ((issues_varDeclaration hr bound).map fun _ ↦ rfl)
      ((issues_expressionStatement hr bound).map fun _ ↦ rfl)

/-- The body of a loop is read behind the increment that is put behind it, and a condition that is
missing is made last. -/
theorem issues_forStatement : Issues [] (r.forStatement bound) Stmt.nodes := by
  refine (issues_expectSymbol _ _).behind fun _ ↦ (issues_forInitializer hr bound).bind fun i ↦
    (issues_optionalExpression hr bound _).andThen fun e ↦ (issues_expectSymbol _ _).behind fun _ ↦
      (issues_optionalExpression hr bound _).andThen fun a ↦
        (issues_expectSymbol _ _).behind fun _ ↦ hr.statement.andThen fun s ↦ ?_
  cases e with
  | some e => exact issues_some (perm_nodes_forLoop i e a s).subperm
  | none =>
    refine issues_fresh (.literal · (.boolean true))
      ((Tree.optStmt i).nodes ++ ((Tree.optExpr a).nodes ++ s.nodes)) (fun _ ↦ rfl) (fun j ↦ ?_)
      fun j ↦ issues_some ?_
    · simp only [Expr.nodes, Tree.nodes, List.tail_cons, List.nil_append, List.append_nil,
        List.append_assoc]
      exact List.Subperm.refl _
    · refine (perm_nodes_forLoop i (.literal j (.boolean true)) a s).subperm.trans ?_
      simp only [Expr.nodes, List.append_assoc, List.singleton_append]
      exact List.perm_middle.subperm

theorem issues_ifStatement : Issues [] (r.ifStatement bound) Stmt.nodes := by
  have hrest (e : Expr) (s : Stmt) (s' : Option Stmt) :
      Issues (e.nodes ++ s.nodes ++ (Tree.optStmt s').nodes) (pure (.ifElse e s s')) Stmt.nodes :=
    issues_pure (by rw [nodes_ifElse])
  have hnone : Issues [] (pure none) fun s ↦ (Tree.optStmt s).nodes := issues_pure rfl
  have hsome : Issues [] (some <$> r.statement) fun s ↦ (Tree.optStmt s).nodes :=
    hr.statement.map fun _ ↦ rfl
  exact (issues_expectSymbol _ _).behind fun _ ↦ (issues_assignment hr bound).bind fun e ↦
    (issues_expectSymbol _ _).behind fun _ ↦ hr.statement.andThen fun s ↦
      (issues_accept _).behind fun _ ↦ issues_cond _ (hsome.andThen (hrest e s))
        (hnone.andThen (hrest e s))

theorem issues_whileStatement : Issues [] (r.whileStatement bound) Stmt.nodes :=
  (issues_expectSymbol _ _).behind fun _ ↦ (issues_assignment hr bound).bind fun e ↦
    (issues_expectSymbol _ _).behind fun _ ↦ hr.statement.andThen fun s ↦
      issues_pure (by rw [Stmt.nodes])

theorem issues_printStatement (line : Nat) : Issues [] (r.printStatement bound line) Stmt.nodes :=
  (issues_assignment hr bound).bind fun e ↦ (issues_expectSymbol _ _).behind fun _ ↦
    issues_pure (by rw [Stmt.nodes])

theorem issues_returnStatement (line : Nat) :
    Issues [] (r.returnStatement bound line) Stmt.nodes :=
  (issues_optionalExpression hr bound _).bind fun e ↦ (issues_expectSymbol _ _).behind fun _ ↦
    issues_pure (by rw [nodes_returns])

theorem issues_plainStatement : Issues [] (r.plainStatement bound) Stmt.nodes := by
  refine issues_cursor fun c ↦ ?_
  dsimp only
  split
  · exact issues_skip.behind fun _ ↦ issues_forStatement hr bound
  · exact issues_skip.behind fun _ ↦ issues_ifStatement hr bound
  · exact issues_skip.behind fun _ ↦ issues_whileStatement hr bound
  · exact issues_skip.behind fun _ ↦ issues_returnStatement hr bound _
  · exact issues_skip.behind fun _ ↦ (issues_block hr bound).map fun _ ↦ by rw [Stmt.nodes]
  · exact issues_skip.behind fun _ ↦ issues_printStatement hr bound _
  · exact issues_expressionStatement hr bound

/-! #### Declarations -/

omit hr in
theorem issues_superclassClause : Issues [] superclassClause superclassNodes :=
  (issues_accept _).behind fun _ ↦ issues_cond _
    ((issues_expectName _).behind fun x ↦
      issues_fresh (.read · x) [] (fun _ ↦ rfl) (fun _ ↦ by rw [Expr.nodes]; exact .refl [])
        fun _ ↦ issues_pure (by rw [Expr.nodes]; rfl))
    (issues_pure rfl)

theorem issues_classDeclaration : Issues [] (r.classDeclaration bound) Stmt.nodes :=
  (issues_expectName _).behind fun x ↦ issues_superclassClause.bind fun s ↦
    (issues_expectSymbol _ _).behind fun _ ↦
      ((issues_function hr bound .method).itemsUntil Cursor.atBlockEnd bound).andThen fun fs ↦
        (issues_expectSymbol _ _).behind fun _ ↦
          issues_pure (by rw [nodes_classDecl, flatMap_nodes_methods])

theorem issues_plainDeclaration : Issues [] (r.plainDeclaration bound) Stmt.nodes := by
  refine issues_cursor fun c ↦ ?_
  split
  · exact issues_skip.behind fun _ ↦ issues_classDeclaration hr bound
  · exact issues_skip.behind fun _ ↦ issues_varDeclaration hr bound
  · exact issues_cond _
      (issues_skip.behind fun _ ↦ (issues_function hr bound .function).map fun _ ↦ by
        rw [Stmt.nodes])
      (issues_plainStatement hr bound)
  · exact issues_plainStatement hr bound

theorem Issue.outer : (r.outer bound).Issue where
  expression := issues_assignment hr bound
  unary := issues_unaryLevel hr bound
  statement := issues_plainStatement hr bound
  declaration := (issues_plainDeclaration hr bound).recover

omit hr in
/-- The rules issue the nodes of what they yield at every depth. -/
theorem issue_atDepth (bound depth : Nat) : (atDepth bound depth).Issue := by
  induction depth with
  | zero => exact ⟨issues_fail _, issues_fail _, issues_fail _, issues_fail _⟩
  | succ depth ih => exact ih.outer bound

end Rules

/-! ### Programs and expressions -/

/-- The nodes of a parsed program were issued, whether or not there are errors. -/
theorem areIssued_parse (firstId : Nat) (tokens : List Token) :
    AreIssued firstId (parse firstId tokens).nextId
      (nodesOfProgram (parse firstId tokens).statements) := by
  have hissue := Rules.issue_atDepth (enoughDepth tokens) (enoughDepth tokens)
  have hitems := hissue.declaration.itemsUntil Cursor.atEnd (enoughDepth tokens) firstId
    (Cursor.start firstId tokens) (.nil (Nat.le_refl firstId))
  unfold parse
  dsimp only [Rules.forTokens]
  split at hitems
  · next items c hok =>
    rw [hok]
    exact Rules.nodesOfDeclarations_eq items ▸ hitems.2
  · next e c herror =>
    rw [herror, nodesOfProgram]
    exact .nil hitems

/-- The node of a parsed expression and those below it were issued, if there is one. -/
theorem areIssued_parseExpression (firstId : Nat) (tokens : List Token) :
    AreIssued firstId (parseExpression firstId tokens).nextId
      ((parseExpression firstId tokens).outcome.toOption.elim [] Expr.nodes) := by
  have hwhole : Parse.Issues [] (wholeExpression tokens) Expr.nodes := by
    refine (Rules.issue_atDepth _ _).expression.bind fun e ↦ Parse.issues_cursor fun c ↦
      Parse.issues_cond _ (Parse.issues_fail _) ?_
    split
    · exact Parse.issues_throw _
    · exact Parse.issues_pure rfl
  have h := hwhole firstId (Cursor.start firstId tokens) (.nil (Nat.le_refl firstId))
  unfold parseExpression
  split at h
  · next e c hok =>
    rw [hok]
    exact h.2
  · next e c herror =>
    rw [herror]
    exact .nil h

end LexScript
