import LexScript.Proofs.Actions
import LexScript.Proofs.Grammar.Phrases

/-!
# Every derivation is found

A parser *finds* a phrase if, in front of the tokens of the phrase and of any that do not
continue it, it takes exactly the tokens of the phrase, yields its tree and reports nothing. The
rules of the parser find every phrase in which each `else` belongs to the nearest conditional.

The proof follows the parser. The rules that others come back to are assumed to find phrases of
up to `d` tokens, which each rule uses behind the first token of its own phrase; a rule that
takes operands from the left to the right is followed along the phrase to where its next operand
would begin.

## Main definitions

* `Parse.Finds`, `Rules.Finds` : finding a phrase, and finding every phrase up to a length.

## Main statements

* `Rules.finds_atDepth` : the rules find every phrase that is not longer than they are deep.
-/

namespace LexScript

open Grammar Parse

/-! ### Single steps -/

namespace Parse

variable {α : Type}

@[simp] theorem cursor_apply (c : Cursor) : cursor c = .ok c c := rfl

@[simp] theorem skip_apply (c : Cursor) : skip c = .ok () { c with rest := c.rest.tail } := rfl

@[simp] theorem freshId_apply (c : Cursor) :
    freshId c = .ok c.nextId { c with nextId := c.nextId + 1 } := rfl

@[simp] theorem accept_apply (kind : TokenKind) (c : Cursor) :
    accept kind c =
      if c.sees kind then .ok true { c with rest := c.rest.tail } else .ok false c := by
  simp only [accept, bind_apply, cursor_apply]
  split <;> simp

@[simp] theorem expectSymbol_sym (s : Symbol) (spot : Spot) (l line n : Nat) (ts : List Token)
    (errors : Array SyntaxError) :
    expectSymbol s spot ⟨sym s l :: ts, line, n, errors⟩ = .ok l ⟨ts, line, n, errors⟩ := by
  simp [expectSymbol, Cursor.token]

@[simp] theorem expectName_named (role : NameRole) (x : Ident) (line n : Nat) (ts : List Token)
    (errors : Array SyntaxError) :
    expectName role ⟨named x :: ts, line, n, errors⟩ = .ok x ⟨ts, line, n, errors⟩ := rfl

/-- In front of the tokens of a phrase and of `rest`, a parser takes the tokens of the phrase and
yields its tree. -/
def Finds (p : Parse α) (ts : List Token) (n : Nat) (a : α) (m : Nat) (rest : List Token) : Prop :=
  ∀ line errors, p ⟨ts ++ rest, line, n, errors⟩ = .ok a ⟨rest, line, m, errors⟩

end Parse

/-! ### The token ahead -/

namespace Cursor

variable {ts rest : List Token} {line n : Nat} {errors : Array SyntaxError}

@[simp] theorem token_cons (t : Token) : token ⟨t :: ts, line, n, errors⟩ = t := rfl

/-- A token of another kind than a phrase can open with is not ahead of the phrase. -/
theorem sees_of_startsWith {p : TokenKind → Bool} (h : startsWith p ts = true) {kind : TokenKind}
    (hk : p kind = false) : sees ⟨ts ++ rest, line, n, errors⟩ kind = false := by
  cases ts with
  | nil => simp at h
  | cons t ts =>
    simp only [sees, List.cons_append, token_cons, beq_eq_false_iff_ne, ne_eq]
    rintro rfl
    simp [hk] at h

theorem sees_of_opensExpression (h : opensExpression ts = true) {kind : TokenKind}
    (hk : startsExpression kind = false) (hf : kind ≠ .keyword .funWord) :
    sees ⟨ts ++ rest, line, n, errors⟩ kind = false := by
  simp only [opensExpression, Bool.or_eq_true, Bool.and_eq_true] at h
  rcases h with h | ⟨h, -⟩
  · exact sees_of_startsWith h hk
  · exact sees_of_startsWith h (by simpa using hf)

end Cursor

/-- What is behind the parameters of a function: their closing parenthesis and the body. -/
def Rules.behindParameters (r : Rules) (bound : Nat) (form : FunctionForm)
    (params : List Ident) : Parse (List Ident × List Stmt) := do
  let _ ← expectSymbol .rightParen .afterParameters
  let _ ← expectSymbol .leftBrace (.beforeBody form)
  let body ← r.block bound
  pure (params, body)

/-! ### What the rules find -/

/-- The rules that others come back to find every phrase of up to `d` tokens. -/
structure Rules.Finds (r : Rules) (d : Nat) : Prop where
  expression (rest : List Token) {ts : List Token} {e : Expr} {n m : Nat}
    (h : Derives .nearest .expression ts n (.expr e) m) (hd : ts.length ≤ d)
    (hr : Category.expression.EndsBefore rest) : r.expression.Finds ts n e m rest
  unary (rest : List Token) {ts : List Token} {e : Expr} {n m : Nat}
    (h : Derives .nearest .unary ts n (.expr e) m) (hd : ts.length ≤ d)
    (hr : Category.unary.EndsBefore rest) : r.unary.Finds ts n e m rest
  statement (rest : List Token) {ts : List Token} {s : Stmt} {o : Bool} {n m : Nat}
    (h : Derives .nearest (.statement o) ts n (.stmt s) m) (hd : ts.length ≤ d)
    (hr : (Category.statement o).EndsBefore rest) : r.statement.Finds ts n s m rest
  declaration (rest : List Token) {ts : List Token} {s : Stmt} {n m : Nat}
    (h : Derives .nearest .declaration ts n (.stmt s) m) (hd : ts.length ≤ d)
    (hr : Category.declaration.EndsBefore rest) : r.declaration.Finds ts n (some s) m rest

namespace Rules

variable {r : Rules} {d : Nat} (bound : Nat) {ts : List Token} (rest : List Token) {n m : Nat}

/-! ### Lists of items -/

theorem finds_parameterList {xs : List Ident} (count : Nat)
    (h : Derives .nearest .parameterList ts n (.names xs) n) (hb : ts.length < bound)
    (hc : count + xs.length ≤ maxArity) {l : Nat} :
    (commaSeparated .tooManyParameters (expectName .parameter) bound count).Finds ts n xs n
      (sym .rightParen l :: rest) := by
  intro line errors
  induction bound generalizing ts xs count with
  | zero => omega
  | succ bound ih =>
    cases h with
    | lastParameter =>
      have : ¬maxArity ≤ count := by simp at hc; omega
      simp [commaSeparated, this, Cursor.sees]
    | parameter others =>
      have : ¬maxArity ≤ count := by simp at hc; omega
      have ih := ih (count + 1) others (by simp at hb; omega) (by simp at hc; omega)
      simp [commaSeparated, this, Cursor.sees, ih]

theorem finds_argumentList (hr : r.Finds d) {es : List Expr} (count : Nat)
    (h : Derives .nearest .argumentList ts n (.exprs es) m) (hd : ts.length ≤ d)
    (hb : ts.length < bound) (hc : count + es.length ≤ maxArity) {l : Nat} :
    (commaSeparated .tooManyArguments r.expression bound count).Finds ts n es m
      (sym .rightParen l :: rest) := by
  intro line errors
  induction bound generalizing ts es count n with
  | zero => omega
  | succ bound ih =>
    have : ¬maxArity ≤ count := by cases h <;> simp at hc <;> omega
    cases h with
    | lastArgument last =>
      have first := hr.expression (sym .rightParen l :: rest) last hd rfl line errors
      simp [commaSeparated, this, first, Cursor.sees]
    | @argument ts us _ es l' _ k _ first others =>
      simp only [List.length_append, List.length_cons] at hd hb hc
      have first :=
        hr.expression (sym .comma l' :: (us ++ sym .rightParen l :: rest)) first
          (by omega) rfl line errors
      have ih := ih (count + 1) others (by omega) (by omega) (by omega)
      simp [commaSeparated, this, first, Cursor.sees, ih]

/-- Declarations are found in front of tokens that open none. -/
theorem finds_declarations (stop : Cursor → Bool) (hr : r.Finds d) {ss : List Stmt}
    (h : Derives .nearest .declarations ts n (.stmts ss) m) (hd : ts.length ≤ d)
    (hb : ts.length < bound)
    (hopen : ∀ {us line n errors}, startsWith startsAny us = true →
      stop ⟨us ++ rest, line, n, errors⟩ = false)
    (hstop : ∀ {line n errors}, stop ⟨rest, line, n, errors⟩ = true)
    (hend : Category.declaration.EndsBefore rest) (line : Nat) (errors : Array SyntaxError) :
    ∃ items : List (Option Stmt), items.filterMap id = ss ∧
      itemsUntil stop r.declaration bound ⟨ts ++ rest, line, n, errors⟩ =
        .ok items ⟨rest, line, m, errors⟩ := by
  induction bound generalizing ts ss n with
  | zero => omega
  | succ bound ih =>
    cases h with
    | noDeclarations => exact ⟨[], rfl, by simp [itemsUntil, hstop]⟩
    | @declarations ts us s ss _ k _ first others =>
      simp only [List.length_append] at hd hb
      have hopens := startsAny_of_opens first.opens
      have hpos : 0 < ts.length := List.length_pos_iff.2 (by rintro rfl; cases hopens)
      have hus : Category.declaration.EndsBefore (us ++ rest) := by
        cases others with
        | noDeclarations => exact hend
        | declarations second =>
          rw [List.append_assoc]
          exact endsBefore_of_startsAny (startsAny_of_opens second.opens) _
      have first := hr.declaration _ first (by omega) hus line errors
      obtain ⟨items, hitems, ih⟩ := ih others (by omega) (by omega)
      have hopen : stop ⟨ts ++ us ++ rest, line, n, errors⟩ = false :=
        hopen (startsWith_append hopens us)
      refine ⟨some s :: items, congrArg (s :: ·) hitems, ?_⟩
      simp only [List.append_assoc] at hopen ⊢
      simp [itemsUntil, hopen, first, ih]

/-! ### Functions -/

theorem finds_block (hr : r.Finds d) {ss : List Stmt} {l : Nat}
    (h : Derives .nearest .declarations ts n (.stmts ss) m) (hd : ts.length ≤ d)
    (hb : ts.length < bound) :
    (r.block bound).Finds (ts ++ [sym .rightBrace l]) n ss m rest := by
  intro line errors
  obtain ⟨items, rfl, hitems⟩ := finds_declarations bound (sym .rightBrace l :: rest)
    Cursor.atBlockEnd hr h hd hb
    (by
      intro us line n errors h
      have hsees : Cursor.sees ⟨us ++ sym .rightBrace l :: rest, line, n, errors⟩
          (.symbol .rightBrace) = false := Cursor.sees_of_startsWith h rfl
      cases us with
      | nil => cases h
      | cons t us => simpa [Cursor.atBlockEnd, Cursor.atEnd] using hsees)
    rfl rfl line errors
  simp [block, hitems]

theorem finds_functionTail (hr : r.Finds d) {us : List Token} {xs : List Ident}
    {ss : List Stmt} (params : Derives .nearest .parameters ts n (.names xs) n)
    (body : Derives .nearest .block us n (.stmts ss) m) (hd : us.length ≤ d)
    (hb : ts.length < bound) (hb' : us.length < bound) (form : FunctionForm) (l : Nat) :
    (r.functionTail bound form).Finds (ts ++ sym .rightParen l :: us) n (xs, ss) m rest := by
  intro line errors
  obtain ⟨vs, l', l'', rfl, hbody⟩ := body.block_cases
  simp only [List.length_cons, List.length_append] at hd hb'
  have body := finds_block bound rest (l := l'') hr hbody (by omega)
    (by omega) line errors
  cases params with
  | noParameters => simp_all [functionTail, Cursor.sees]
  | someParameters list hlen =>
    have hsees {rest} : Cursor.sees ⟨ts ++ rest, line, n, errors⟩ (.symbol .rightParen) = false :=
      Cursor.sees_of_startsWith list.opens rfl
    have list := finds_parameterList bound
      (sym .leftBrace l' :: (vs ++ sym .rightBrace l'' :: rest)) 0 (l := l) list hb (by omega)
      line errors
    simp_all [functionTail]

theorem finds_function (hr : r.Finds d) {f : FunctionDecl}
    (h : Derives .nearest .function ts n (.function f) m) (hd : ts.length ≤ d)
    (hb : ts.length < bound) (form : FunctionForm) :
    (r.function bound form).Finds ts n f m rest := by
  intro line errors
  cases h with
  | @function _ _ _ _ _ _ l' _ _ params body =>
    simp only [List.length_cons, List.length_append] at hd hb
    have tail := finds_functionTail bound rest hr params body (by omega)
      (by omega) (by omega) form l' line errors
    simp only [List.append_assoc, List.cons_append] at tail
    simp [function, tail]

/-! ### Operands -/

theorem finds_primary (hr : r.Finds d) {e : Expr}
    (h : Derives .nearest .primary ts n (.expr e) m) (hd : ts.length ≤ d + 1)
    (hb : ts.length < bound) : (r.primary bound).Finds ts n e m rest := by
  intro line errors
  cases h with
  | @constant kind v l _ h =>
    cases kind with
    | keyword k => cases k <;> cases h <;> rfl
    | number text => cases h; rfl
    | string contents => cases h; rfl
    | _ => cases h
  | name => rfl
  | this => rfl
  | super => simp [primary]
  | @grouping ts _ _ l _ _ inner =>
    simp only [List.length_cons, List.length_append] at hd
    have inner := hr.expression (sym .rightParen l :: rest) inner (by omega) rfl line errors
    simp [primary, inner]
  | @lambda _ _ _ _ _ _ l' _ _ params body =>
    simp only [List.length_cons, List.length_append] at hd hb
    have tail := finds_functionTail bound rest hr params body (by omega)
      (by omega) (by omega) .lambda l' line errors
    simp only [List.append_assoc, List.cons_append] at tail
    simp [primary, tail]

/-! ### Calls and properties -/

/-- A loop with turns left goes on with one turn less. -/
theorem exists_turns_left {turns bound : Nat} (h : turns < bound) :
    ∃ k, bound - turns = k + 1 ∧ bound - (turns + 1) = k :=
  ⟨bound - turns - 1, by omega, by omega⟩

/-- Along an operand with calls and properties, the loop behind its first part is followed to the
end of the operand; each turn took at least one token. -/
theorem call_along (hr : r.Finds d) {e : Expr}
    (h : Derives .nearest .call ts n (.expr e) m) (hd : ts.length ≤ d + 1)
    (hb : ts.length < bound) (line : Nat) (errors : Array SyntaxError) :
    ∃ turns < ts.length, r.call bound ⟨ts ++ rest, line, n, errors⟩ =
      callTail r bound (bound - turns) e ⟨rest, line, m, errors⟩ := by
  generalize hc : Category.call = c at h
  generalize ht : Tree.expr e = t at h
  induction h generalizing e rest with
  | operand inner =>
    cases ht
    have hpos := length_pos_of_opensExpression inner.opens
    have inner := finds_primary _ rest hr inner hd hb line errors
    exact ⟨0, hpos, by simp [call, inner]⟩
  | @call ts us _ es l l' _ _ _ _ arguments ih =>
    cases ht
    simp only [List.length_append, List.length_cons] at hd hb ⊢
    obtain ⟨turns, hturns, ih⟩ :=
      ih (sym .leftParen l :: (us ++ sym .rightParen l' :: rest)) (by omega) (by omega)
        rfl rfl
    refine ⟨turns + 1, by omega, ?_⟩
    obtain ⟨k, hk, hk'⟩ := exists_turns_left (show turns < bound by omega)
    cases arguments with
    | noArguments =>
      simp_all [callTail, finishCall, Cursor.sees]
    | someArguments list hlen =>
      have hsees {rest n errors} :
          Cursor.sees ⟨us ++ rest, line, n, errors⟩ (.symbol .rightParen) = false :=
        Cursor.sees_of_opensExpression list.opens rfl (by simp)
      have list := finds_argumentList bound rest hr 0 (l := l') list (by omega) (by omega)
        (by omega) line errors
      simp_all [callTail, finishCall, Cursor.sees]
  | @get ts _ x l _ _ _ ih =>
    cases ht
    simp only [List.length_append, List.length_cons] at hd hb ⊢
    obtain ⟨turns, hturns, ih⟩ :=
      ih (sym .dot l :: named x :: rest) (by omega) (by omega) rfl rfl
    refine ⟨turns + 1, by omega, ?_⟩
    obtain ⟨k, hk, hk'⟩ := exists_turns_left (show turns < bound by omega)
    simp_all [callTail, Cursor.sees]
  | _ => cases hc

theorem finds_call (hr : r.Finds d) {e : Expr}
    (h : Derives .nearest .call ts n (.expr e) m) (hd : ts.length ≤ d + 1)
    (hb : ts.length < bound) (hrest : Category.call.EndsBefore rest) :
    (r.call bound).Finds ts n e m rest := by
  intro line errors
  obtain ⟨turns, hturns, h⟩ := call_along _ rest hr h hd hb line errors
  obtain ⟨k, hk, -⟩ := exists_turns_left (Nat.lt_trans hturns hb)
  rw [h, hk]
  cases rest with
  | nil => simp [callTail, Cursor.sees, Cursor.token]
  | cons t rest =>
    simp only [Category.EndsBefore, startsWith_cons, Category.continuedBy, continuesCall,
      Bool.or_eq_false_iff] at hrest
    simp [callTail, Cursor.sees, hrest]

/-! ### Operators -/

theorem unaryOp?_eq_prefix? : unaryOp? = prefix? := by
  funext kind
  rfl

theorem finds_unaryLevel (hr : r.Finds d) {e : Expr}
    (h : Derives .nearest .unary ts n (.expr e) m) (hd : ts.length ≤ d + 1)
    (hb : ts.length < bound) (hrest : Category.unary.EndsBefore rest) :
    (r.unaryLevel bound).Finds ts n e m rest := by
  intro line errors
  cases h with
  | unprefixed inner =>
    have found := finds_call _ _ hr inner hd hb hrest line errors
    have hop : prefix? (Cursor.token ⟨ts ++ rest, line, n, errors⟩).kind = none := by
      have hstart := inner.startsWith_unprefixed
      cases ts with
      | nil => cases hstart
      | cons t ts => simpa using hstart
    simp [unaryLevel, unaryOp?_eq_prefix?, hop, found]
  | prefixed hop operand =>
    simp only [List.length_cons] at hd
    have operand := hr.unary _ operand (by omega) hrest line errors
    simp [unaryLevel, unaryOp?_eq_prefix?, hop, operand]

section Level

variable {β : Type} {op? : TokenKind → Option β} {l : Level}
  {join : Nat → β → Nat → Expr → Expr → Expr} {operand : Parse Expr}
  (hop : ∀ kind, l.join? kind = (op? kind).map fun op id line a b ↦ join id op line a b)
  (hoperand : ∀ {us : List Token} {e : Expr} {n m : Nat} {rest : List Token},
    Derives .nearest l.operand us n (.expr e) m → us.length ≤ d + 1 → us.length < bound →
      l.operand.EndsBefore rest → operand.Finds us n e m rest)

include hop hoperand

/-- Along operands and their operators, the loop behind the first operand is followed to the end;
each turn took at least one token. -/
theorem level_along {e : Expr} (h : Derives .nearest (.level l) ts n (.expr e) m)
    (hd : ts.length ≤ d + 1) (hb : ts.length < bound) (hrest : l.operand.EndsBefore rest)
    (line : Nat) (errors : Array SyntaxError) :
    ∃ turns < ts.length, level bound op? join operand ⟨ts ++ rest, line, n, errors⟩ =
      operatorTail op? join operand (bound - turns) e ⟨rest, line, m, errors⟩ := by
  generalize hc : Category.level l = c at h
  generalize ht : Tree.expr e = t at h
  induction h generalizing e rest with
  | @tighter _ ts _ _ _ inner =>
    cases hc
    cases ht
    have hpos : 0 < ts.length := by
      have hopens := inner.opens
      cases l <;> exact length_pos_of_opensExpression hopens
    have inner := hoperand inner hd hb hrest line errors
    exact ⟨0, hpos, by simp [level, inner]⟩
  | @joined _ kind j ts us _ _ line' _ _ _ hkind _ right ih =>
    cases hc
    cases ht
    simp only [List.length_append, List.length_cons] at hd hb ⊢
    obtain ⟨turns, hturns, ih⟩ := ih (⟨kind, line'⟩ :: (us ++ rest)) (by omega) (by omega)
      (Level.endsBefore_isOperator (by simp [Level.isOperator, hkind])) rfl rfl
    refine ⟨turns + 1, by omega, ?_⟩
    obtain ⟨k, hk, hk'⟩ := exists_turns_left (show turns < bound by omega)
    have right := hoperand right (by omega) (by omega) hrest line errors
    rw [hop kind, Option.map_eq_some_iff] at hkind
    obtain ⟨op, hkind, rfl⟩ := hkind
    simp_all [operatorTail]
  | _ => cases hc

theorem finds_level {e : Expr} (h : Derives .nearest (.level l) ts n (.expr e) m)
    (hd : ts.length ≤ d + 1) (hb : ts.length < bound)
    (hrest : (Category.level l).EndsBefore rest) :
    (level bound op? join operand).Finds ts n e m rest := by
  intro line errors
  obtain ⟨turns, hturns, h⟩ :=
    level_along bound rest hop hoperand h hd hb (Level.endsBefore_operand hrest) line errors
  obtain ⟨k, hk, -⟩ := exists_turns_left (Nat.lt_trans hturns hb)
  have hnone : op? (Cursor.token ⟨rest, line, m, errors⟩).kind = none := by
    have hjoin : l.join? (Cursor.token ⟨rest, line, m, errors⟩).kind = none := by
      cases rest with
      | nil => cases l <;> rfl
      | cons t rest =>
        simpa [Level.isOperator] using Level.isOperator_of_endsBefore hrest
    rwa [hop, Option.map_eq_none_iff] at hjoin
  rw [h, hk]
  simp [operatorTail, hnone]

end Level

/-- The loosest level, through all the levels below it. -/
theorem finds_logicOr (hr : r.Finds d) {e : Expr}
    (h : Derives .nearest (.level .disjunction) ts n (.expr e) m) (hd : ts.length ≤ d + 1)
    (hb : ts.length < bound) (hrest : (Category.level .disjunction).EndsBefore rest) :
    (r.logicOr bound).Finds ts n e m rest := by
  refine finds_level bound rest (l := .disjunction) ?_ (finds_level bound _ (l := .conjunction) ?_
    (finds_level bound _ (l := .equality) ?_ (finds_level bound _ (l := .comparison) ?_
      (finds_level bound _ (l := .term) ?_ (finds_level bound _ (l := .factor) ?_
        (finds_unaryLevel bound _ hr))))))
    h hd hb hrest
  all_goals
    rintro (s | k | _ | _ | _ | _) <;> first | rfl | (cases s <;> rfl) | (cases k <;> rfl)

/-! ### Assignments -/

theorem finds_assignment (hr : r.Finds d) {e : Expr}
    (h : Derives .nearest .expression ts n (.expr e) m) (hd : ts.length ≤ d + 1)
    (hb : ts.length < bound) (hrest : Category.expression.EndsBefore rest) :
    (r.assignment bound).Finds ts n e m rest := by
  intro line errors
  cases h with
  | value inner =>
    have hrest' : (Category.level .disjunction).EndsBefore rest := by
      cases rest with
      | nil => rfl
      | cons t rest => simp_all [Category.EndsBefore, Category.continuedBy]
    have hequal : (Cursor.token ⟨rest, line, m, errors⟩).kind ≠ .symbol .equal := by
      cases rest with
      | nil => simp [Cursor.token]
      | cons t rest => simp_all [Category.EndsBefore, Category.continuedBy]
    have inner := finds_logicOr _ _ hr inner hd hb hrest' line errors
    simp [assignment, inner, hequal]
  | @assign ts x _ l _ _ value =>
    simp only [List.length_cons] at hd hb
    have target := finds_logicOr bound (sym .equal l :: (ts ++ rest)) hr
      (Derives.operand (.name (x := x) (n := n))).toLevels (by simp) (by simp; omega) rfl line
        errors
    have value := hr.expression _ value (by omega) hrest line errors
    simp only [List.cons_append, List.nil_append] at target
    simp [assignment, target, value, assignTo]
  | @set ts us _ _ x l l' _ _ _ object value =>
    simp only [List.length_append, List.length_cons] at hd hb
    have target := finds_logicOr bound (sym .equal l' :: (us ++ rest)) hr
      (Derives.get (l := l) (x := x) object).toLevels (by simp; omega) (by simp; omega) rfl line
        errors
    have value := hr.expression _ value (by omega) hrest line errors
    simp only [List.append_assoc, List.cons_append, List.nil_append] at target
    simp [assignment, target, value, assignTo]

/-! ### Statements -/

theorem exists_varWord {rule : ElseRule} {s : Stmt} (h : Derives rule .varDecl ts n (.stmt s) m) :
    ∃ l us, ts = word .varWord l :: us := by
  cases h <;> exact ⟨_, _, rfl⟩

theorem finds_varDeclaration (hr : r.Finds d) {s : Stmt} {l : Nat}
    (h : Derives .nearest .varDecl (word .varWord l :: ts) n (.stmt s) m) (hd : ts.length ≤ d)
    (hb : ts.length < bound) : (r.varDeclaration bound).Finds ts n s m rest := by
  intro line errors
  cases h with
  | varNil => simp [varDeclaration, Cursor.sees]
  | @varValue ts _ _ _ _ l' _ _ value =>
    simp only [List.length_append, List.length_cons] at hd hb
    have value := finds_assignment bound (sym .semicolon l' :: rest) hr value
      (by omega) (by omega) rfl line errors
    simp [varDeclaration, Cursor.sees, value]

theorem finds_expressionStatement (hr : r.Finds d) {s : Stmt}
    (h : Derives .nearest .exprStmt ts n (.stmt s) m) (hd : ts.length ≤ d + 1)
    (hb : ts.length < bound) : (r.expressionStatement bound).Finds ts n s m rest := by
  intro line errors
  cases h with
  | @exprStmt ts _ l _ _ value =>
    simp only [List.length_append, List.length_cons] at hd hb
    have value := finds_assignment bound (sym .semicolon l :: rest) hr value
      (by omega) (by omega) rfl line errors
    simp [expressionStatement, value]

theorem finds_optionalExpression (hr : r.Finds d) {e : Option Expr} {s : Symbol} {l : Nat}
    (h : Derives .nearest .optionalExpression ts n (.optExpr e) m) (hd : ts.length ≤ d + 1)
    (hb : ts.length < bound) (hs : startsExpression (.symbol s) = false)
    (hend : Category.expression.continuedBy (.symbol s) = false) :
    (r.optionalExpression bound s).Finds ts n e m (sym s l :: rest) := by
  intro line errors
  cases h with
  | noExpression => simp [optionalExpression, Cursor.sees]
  | someExpression inner =>
    have hsees : Cursor.sees ⟨ts ++ sym s l :: rest, line, n, errors⟩ (.symbol s) = false :=
      Cursor.sees_of_opensExpression inner.opens hs (by simp)
    have inner := finds_assignment bound (sym s l :: rest) hr inner hd hb hend line errors
    simp [optionalExpression, hsees, inner]

theorem finds_forInitializer (hr : r.Finds d) {s : Option Stmt}
    (h : Derives .nearest .forInitializer ts n (.optStmt s) m) (hd : ts.length ≤ d + 1)
    (hb : ts.length < bound) : (r.forInitializer bound).Finds ts n s m rest := by
  intro line errors
  cases h with
  | noInitializer => simp [forInitializer, Cursor.sees]
  | varInitializer inner =>
    obtain ⟨l, us, rfl⟩ := exists_varWord inner
    simp only [List.length_cons] at hd hb
    have inner := finds_varDeclaration bound rest hr inner (by omega)
      (by omega) line errors
    simp [forInitializer, Cursor.sees, inner]
  | exprInitializer inner =>
    have hsees {kind : TokenKind} (hk : startsExpression kind = false)
        (hf : kind ≠ .keyword .funWord) :
        Cursor.sees ⟨ts ++ rest, line, n, errors⟩ kind = false :=
      Cursor.sees_of_opensExpression inner.opens hk hf
    have inner := finds_expressionStatement bound rest hr inner hd hb
      line errors
    simp [forInitializer, hsees, startsExpression, constant?, prefix?, inner]

theorem forLoop_eq (i : Option Stmt) (c : Expr) (a : Option Expr) (s : Stmt) :
    forLoop i c a s = withInitializer i (.whileLoop c (withIncrement a s)) := by
  cases i <;> cases a <;> rfl

/-- A statement that does not open as another form is an expression. -/
theorem plainStatement_eq {t : Token} (h : startsStatement t.kind = false) (line n : Nat)
    (errors : Array SyntaxError) :
    r.plainStatement bound ⟨t :: ts, line, n, errors⟩ =
      r.expressionStatement bound ⟨t :: ts, line, n, errors⟩ := by
  obtain ⟨kind, l⟩ := t
  rcases kind with s | k | _ | _ | _ | _
  · cases s <;> first | rfl | cases h
  · cases k <;> first | rfl | cases h
  all_goals rfl

theorem finds_plainStatement (hr : r.Finds d) {s : Stmt} {o : Bool}
    (h : Derives .nearest (.statement o) ts n (.stmt s) m) (hd : ts.length ≤ d + 1)
    (hb : ts.length < bound) (hrest : (Category.statement o).EndsBefore rest) :
    (r.plainStatement bound).Finds ts n s m rest := by
  intro line errors
  cases h with
  | expression inner =>
    have found := finds_expressionStatement bound rest hr inner hd hb
      line errors
    have hopens := inner.opens
    cases ts with
    | nil => cases hopens
    | cons t ts =>
      rw [List.cons_append, plainStatement_eq bound (startsStatement_of_opensExpression hopens)]
      exact found
  | @print ts _ _ l _ _ value =>
    simp only [List.length_cons, List.length_append] at hd hb
    have value := finds_assignment bound (sym .semicolon l :: rest) hr value
      (by omega) (by omega) rfl line errors
    simp [plainStatement, printStatement, value]
  | @returns ts _ _ l _ _ value =>
    simp only [List.length_cons, List.length_append] at hd hb
    have value := finds_optionalExpression bound rest (s := .semicolon) (l := l) hr value
      (by omega) (by omega) rfl rfl line errors
    simp [plainStatement, returnStatement, value]
  | blockStmt body =>
    obtain ⟨vs, l', l'', rfl, hbody⟩ := body.block_cases
    simp only [List.length_cons, List.length_append] at hd hb
    have body := finds_block bound rest (l := l'') hr hbody (by omega)
      (by omega) line errors
    simp only [List.append_assoc, List.cons_append, List.nil_append] at body
    simp [plainStatement, body]
  | @ifThen ts us _ _ o _ _ l _ _ _ condition thenBranch =>
    simp only [List.length_cons, List.length_append] at hd hb
    have condition := finds_assignment bound (sym .rightParen l :: (us ++ rest))
      hr condition (by omega) (by omega) rfl line errors
    have helse : Cursor.sees ⟨rest, line, m, errors⟩ (.keyword .elseWord) = false := by
      cases rest with
      | nil => rfl
      | cons t rest => simpa [Category.EndsBefore, Category.continuedBy, Cursor.sees] using hrest
    have thenBranch := hr.statement rest thenBranch (by omega)
      (by cases o
          · cases rest <;> rfl
          · exact hrest) line errors
    simp [plainStatement, ifStatement, condition, thenBranch, helse]
  | @ifElse ts us vs _ _ _ o _ _ _ l l' _ _ _ _ condition thenBranch closed elseBranch =>
    simp only [List.length_cons, List.length_append] at hd hb
    have condition := finds_assignment bound
      (sym .rightParen l :: (us ++ word .elseWord l' :: (vs ++ rest)))
      hr condition (by omega) (by omega) rfl line errors
    obtain rfl := closed rfl
    have thenBranch := hr.statement (word .elseWord l' :: (vs ++ rest)) thenBranch (by omega) rfl
      line errors
    have elseBranch := hr.statement rest elseBranch (by omega) hrest line errors
    simp [plainStatement, ifStatement, condition, thenBranch, elseBranch, Cursor.sees]
  | @whileLoop ts us _ _ _ _ _ l _ _ _ condition body =>
    simp only [List.length_cons, List.length_append] at hd hb
    have condition := finds_assignment bound (sym .rightParen l :: (us ++ rest))
      hr condition (by omega) (by omega) rfl line errors
    have body := hr.statement rest body (by omega) hrest line errors
    simp [plainStatement, whileStatement, condition, body]
  | @forLoop ts us vs ws i c a _ _ _ _ l l' _ _ _ _ _ initializer condition increment body =>
    simp only [List.length_cons, List.length_append] at hd hb
    have initializer := finds_forInitializer bound
      (us ++ sym .semicolon l :: (vs ++ sym .rightParen l' :: (ws ++ rest)))
      hr initializer (by omega) (by omega) line errors
    have condition := finds_optionalExpression bound (vs ++ sym .rightParen l' :: (ws ++ rest))
      (s := .semicolon) (l := l) hr condition (by omega) (by omega)
      rfl rfl line errors
    have increment := finds_optionalExpression bound (ws ++ rest) (s := .rightParen) (l := l')
      hr increment (by omega) (by omega) rfl rfl line errors
    have body := hr.statement rest body (by omega) hrest line errors
    cases c <;>
      simp [plainStatement, forStatement, initializer, condition, increment, body, loopCondition,
        forLoop_eq]

/-! ### Declarations -/

theorem finds_functions (size : Nat) (hr : r.Finds d) {fs : List FunctionDecl} {l : Nat}
    (h : Derives .nearest .functions ts n (.functions fs) m) (hd : ts.length ≤ d)
    (hs : ts.length < size) (hb : ts.length < bound) :
    (itemsUntil Cursor.atBlockEnd (r.function bound .method) size).Finds ts n fs m
      (sym .rightBrace l :: rest) := by
  intro line errors
  induction size generalizing ts fs n with
  | zero => omega
  | succ size ih =>
    cases h with
    | noFunctions => simp [itemsUntil, Cursor.atBlockEnd, Cursor.sees]
    | @functions ts us _ _ _ _ _ first others =>
      simp only [List.length_append] at hd hs hb
      have hopens := first.opens
      have hpos : 0 < ts.length := List.length_pos_iff.2 (by rintro rfl; cases hopens)
      have hstop : Cursor.atBlockEnd
          ⟨ts ++ (us ++ sym .rightBrace l :: rest), line, n, errors⟩ = false := by
        rw [Cursor.atBlockEnd, Cursor.sees_of_startsWith hopens rfl]
        simp [Cursor.atEnd]
      have first := finds_function bound (us ++ sym .rightBrace l :: rest) hr
        first (by omega) (by omega) .method line errors
      have ih := ih others (by omega) (by omega) (by omega)
      simp [itemsUntil, hstop, first, ih]

/-- A declaration that does not open with its own keyword is a statement; so is one that opens
with a `fun` that is not followed by a name. -/
theorem plainDeclaration_eq {t : Token} {line n : Nat} {errors : Array SyntaxError}
    (h : startsDeclaration t.kind = false ∨
      t.kind = .keyword .funWord ∧
        Cursor.seesNameNext ⟨t :: ts, line, n, errors⟩ = false) :
    r.plainDeclaration bound ⟨t :: ts, line, n, errors⟩ =
      r.plainStatement bound ⟨t :: ts, line, n, errors⟩ := by
  obtain ⟨kind, l⟩ := t
  rcases h with h | ⟨rfl, h⟩
  · rcases kind with s | k | _ | _ | _ | _
    · rfl
    · cases k <;> first | rfl | cases h
    all_goals rfl
  · simp [plainDeclaration, h]

theorem finds_plainDeclaration (hr : r.Finds d) {s : Stmt}
    (h : Derives .nearest .declaration ts n (.stmt s) m) (hd : ts.length ≤ d + 1)
    (hb : ts.length < bound) (hrest : Category.declaration.EndsBefore rest) :
    (r.plainDeclaration bound).Finds ts n s m rest := by
  intro line errors
  cases h with
  | @statement _ _ o _ _ inner =>
    have hrest' : (Category.statement o).EndsBefore rest := by
      cases o with
      | false => cases rest <;> rfl
      | true => exact hrest
    have found := finds_plainStatement _ _ hr inner hd hb hrest' line errors
    have hopens := inner.opens
    cases ts with
    | nil => cases hopens
    | cons t ts =>
      rw [List.cons_append, plainDeclaration_eq]
      · exact found
      · simp only [Category.opens, Bool.or_eq_true] at hopens
        rcases hopens with hopens | hopens
        · by_cases hf : t.kind = .keyword .funWord
          · exact .inr ⟨hf, seesNameNext_of_opensExpression hopens hf ..⟩
          · exact .inl (startsDeclaration_of_opensExpression hopens hf)
        · exact .inl (startsDeclaration_of_startsStatement hopens)
  | varDecl inner =>
    obtain ⟨l, us, rfl⟩ := exists_varWord inner
    simp only [List.length_cons] at hd hb
    have inner := finds_varDeclaration bound rest hr inner (by omega)
      (by omega) line errors
    simp [plainDeclaration, inner]
  | @funDecl ts _ _ _ _ decl =>
    simp only [List.length_cons] at hd hb
    have found := finds_function bound rest hr decl (by omega) (by omega)
      .function line errors
    obtain ⟨x, us, rfl⟩ : ∃ x us, ts = named x :: us := by
      cases decl
      exact ⟨_, _, rfl⟩
    simp only [List.cons_append] at found
    simp [plainDeclaration, Cursor.seesNameNext, found]
  | @classDecl ts _ _ _ _ l _ _ methods =>
    simp only [List.length_append, List.length_cons] at hd hb
    have methods := finds_functions bound rest bound (l := l) hr
      methods (by omega) (by omega) (by omega) line errors
    simp [plainDeclaration, classDeclaration, superclassClause, Cursor.sees, methods]
  | @subclassDecl ts _ _ _ _ _ _ l _ _ methods =>
    simp only [List.length_append, List.length_cons] at hd hb
    have methods := finds_functions bound rest bound (l := l) hr
      methods (by omega) (by omega) (by omega) line errors
    simp [plainDeclaration, classDeclaration, superclassClause, Cursor.sees, methods]

/-! ### All rules -/

theorem finds_outer (hr : r.Finds d) {d' : Nat} (hd : d' ≤ d + 1) (hb : d' < bound) :
    (r.outer bound).Finds d' where
  expression rest _ _ _ _ h hl hrest := finds_assignment bound rest hr h (by omega) (by omega) hrest
  unary rest _ _ _ _ h hl hrest := finds_unaryLevel bound rest hr h (by omega) (by omega) hrest
  statement rest _ _ _ _ _ h hl hrest :=
    finds_plainStatement bound rest hr h (by omega) (by omega) hrest
  declaration rest _ _ _ _ h hl hrest := by
    intro line errors
    have found := finds_plainDeclaration bound rest hr h (by omega) (by omega) hrest line
      errors
    simp [outer, recover, found]

/-- The rules find every phrase that is not longer than they are deep. -/
theorem finds_atDepth (depth : Nat) (hd : d ≤ depth) (hb : d < bound) :
    (atDepth bound depth).Finds d := by
  induction depth generalizing d with
  | zero =>
    obtain rfl : d = 0 := by omega
    -- Without a token there is no phrase.
    have empty {c : Category} {ts : List Token} {t : Tree} {n m : Nat}
        (h : Derives .nearest c ts n t m) (hl : ts.length ≤ 0) : c.opens [] = true := by
      obtain rfl := List.eq_nil_of_length_eq_zero (Nat.le_zero.1 hl)
      exact h.opens
    exact {
      expression := fun _ _ _ _ _ h hl _ ↦ nomatch empty h hl
      unary := fun _ _ _ _ _ h hl _ ↦ nomatch empty h hl
      statement := fun _ _ _ _ _ _ h hl _ ↦ nomatch empty h hl
      declaration := fun _ _ _ _ _ h hl _ ↦ nomatch empty h hl }
  | succ depth ih => exact finds_outer bound (ih (d := d - 1) (by omega) (by omega)) (by omega) hb

end Rules

/-- Parsing yields the program of a derivation, without an error and with the same ids. -/
theorem parse_eq_of_derives {firstId m : Nat} {tokens : List Token} {program : List Stmt}
    (h : Derives .nearest .declarations (tokens.takeWhile (!Cursor.isEnd ·)) firstId
      (.stmts program) m) :
    parse firstId tokens = ⟨program, [], m⟩ := by
  have hlen : (tokens.takeWhile (!Cursor.isEnd ·)).length ≤ tokens.length :=
    (List.takeWhile_prefix _).length_le
  have hr := Rules.finds_atDepth (enoughDepth tokens) (enoughDepth tokens)
    (d := tokens.length) (by simp [enoughDepth]) (by simp [enoughDepth])
  obtain ⟨items, rfl, hitems⟩ := Rules.finds_declarations (enoughDepth tokens) []
    Cursor.atEnd hr h hlen (by simp [enoughDepth]; omega)
    (by
      intro us line n errors h
      cases us with
      | nil => cases h
      | cons t us => rfl)
    rfl rfl (Cursor.start firstId tokens).endLine #[]
  rw [List.append_nil] at hitems
  have hstart : Cursor.start firstId tokens =
      ⟨tokens.takeWhile (!Cursor.isEnd ·), (Cursor.start firstId tokens).endLine, firstId, #[]⟩ :=
    rfl
  simp only [parse, Rules.forTokens]
  rw [hstart, hitems]

end LexScript
