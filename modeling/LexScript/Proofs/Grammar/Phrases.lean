import LexScript.Proofs.Grammar.Derivation

/-!
# How phrases open and end

A parser that looks one token ahead tells phrases apart by their first token, in one case by
their first two: a `fun` opens a function without a name only if a parenthesis follows. It knows
where a phrase ends because the token behind it does not continue the phrase.

## Main definitions

* `Grammar.opensExpression`, `Grammar.Category.opens` : the first tokens of phrases.
* `Grammar.Category.continuedBy`, `Grammar.Category.EndsBefore` : what a phrase must not be
  followed by.

## Main statements

* `Grammar.Derives.opens` : every phrase opens as its category says.
* `Grammar.Derives.le` : ids only go up.
* `Grammar.Derives.nearest` : an `else` can always be given to the nearest conditional.
-/

namespace LexScript.Grammar

variable {rule : ElseRule}

/-! ### First tokens -/

/-- Whether a token other than `fun` opens an expression. -/
def startsExpression (kind : TokenKind) : Bool :=
  (constant? kind).isSome || (prefix? kind).isSome ||
    match kind with
    | .identifier _ | .keyword .thisWord | .keyword .superWord | .symbol .leftParen => true
    | _ => false

/-- Whether the first token has one of the given kinds. -/
def startsWith (p : TokenKind → Bool) : List Token → Bool
  | t :: _ => p t.kind
  | [] => false

/-- Whether tokens open an expression. -/
def opensExpression (tokens : List Token) : Bool :=
  startsWith startsExpression tokens ||
    startsWith (· == .keyword .funWord) tokens &&
      startsWith (· == .symbol .leftParen) tokens.tail

/-- Whether a token opens a statement that is no expression. -/
def startsStatement : TokenKind → Bool
  | .keyword .forWord | .keyword .ifWord | .keyword .whileWord | .keyword .returnWord
  | .keyword .printWord | .symbol .leftBrace => true
  | _ => false

/-- Whether a token opens a declaration that is no statement; a `fun` may do either. -/
def startsDeclaration : TokenKind → Bool
  | .keyword .classWord | .keyword .varWord | .keyword .funWord => true
  | _ => false

/-- Whether a token is an identifier. -/
def isName : TokenKind → Bool
  | .identifier _ => true
  | _ => false

/-- Whether tokens open as a phrase of the category does; a category with an empty phrase asks
for nothing. -/
def Category.opens : Category → List Token → Bool
  | primary, ts | call, ts | unary, ts | level _, ts | expression, ts | argumentList, ts
  | exprStmt, ts => opensExpression ts
  | statement _, ts => opensExpression ts || startsWith startsStatement ts
  | declaration, ts =>
    opensExpression ts || startsWith startsStatement ts || startsWith startsDeclaration ts
  | function, ts | parameterList, ts => startsWith isName ts
  | varDecl, ts => startsWith (· == .keyword .varWord) ts
  | block, ts => startsWith (· == .symbol .leftBrace) ts
  | _, _ => true

@[simp] theorem startsWith_nil (p : TokenKind → Bool) : startsWith p [] = false := rfl

@[simp] theorem startsWith_cons (p : TokenKind → Bool) (t : Token) (ts : List Token) :
    startsWith p (t :: ts) = p t.kind := rfl

theorem startsWith_append {p : TokenKind → Bool} {ts : List Token}
    (h : startsWith p ts = true) (us : List Token) : startsWith p (ts ++ us) = true := by
  cases ts with
  | nil => simp at h
  | cons t ts => simpa using h

theorem opensExpression_append {ts : List Token} (h : opensExpression ts = true)
    (us : List Token) : opensExpression (ts ++ us) = true := by
  simp only [opensExpression, Bool.or_eq_true, Bool.and_eq_true] at h ⊢
  rcases h with h | ⟨h, h'⟩
  · exact .inl (startsWith_append h us)
  · refine .inr ⟨startsWith_append h us, ?_⟩
    cases ts with
    | nil => simp at h
    | cons t ts => exact startsWith_append h' us

theorem startsWith_imp {p q : TokenKind → Bool} (hpq : ∀ k, p k = true → q k = true)
    {ts : List Token} (h : startsWith p ts = true) : startsWith q ts = true := by
  cases ts with
  | nil => simp at h
  | cons t ts => exact hpq t.kind h

theorem startsStatement_of_opensExpression {t : Token} {ts : List Token}
    (h : opensExpression (t :: ts) = true) : startsStatement t.kind = false := by
  obtain ⟨kind, line⟩ := t
  rcases kind with s | k | _ | _ | _ | _
  · cases s <;> first | rfl | cases h
  · cases k <;> first | rfl | cases h
  all_goals rfl

theorem startsDeclaration_of_opensExpression {t : Token} {ts : List Token}
    (h : opensExpression (t :: ts) = true) (hf : t.kind ≠ .keyword .funWord) :
    startsDeclaration t.kind = false := by
  obtain ⟨kind, line⟩ := t
  rcases kind with s | k | _ | _ | _ | _
  · rfl
  · cases k <;> first | rfl | cases h | simp at hf
  all_goals rfl

theorem startsDeclaration_of_startsStatement {kind : TokenKind}
    (h : startsStatement kind = true) : startsDeclaration kind = false := by
  rcases kind with s | k | _ | _ | _ | _
  · rfl
  · cases k <;> first | rfl | cases h
  all_goals rfl

/-- The `fun` of an expression is not followed by a name. -/
theorem seesNameNext_of_opensExpression {t : Token} {ts : List Token}
    (h : opensExpression (t :: ts) = true) (ht : t.kind = .keyword .funWord)
    (rest : List Token) (line n : Nat) (errors : Array SyntaxError) :
    Cursor.seesNameNext ⟨t :: (ts ++ rest), line, n, errors⟩ = false := by
  obtain ⟨kind, l⟩ := t
  obtain rfl : kind = .keyword .funWord := ht
  rcases ts with _ | ⟨⟨kind, l'⟩, ts⟩
  · cases h
  · obtain rfl : kind = .symbol .leftParen := by
      simpa [opensExpression, startsExpression, constant?, prefix?] using h
    rfl

theorem length_pos_of_opensExpression {ts : List Token} (h : opensExpression ts = true) :
    0 < ts.length := by
  cases ts with
  | nil => cases h
  | cons t ts => simp

/-- Every phrase opens as its category says. -/
theorem Derives.opens {c : Category} {ts : List Token} {t : Tree} {n m : Nat}
    (h : Derives rule c ts n t m) : c.opens ts = true := by
  induction h with
  | constant h | prefixed h => simp [Category.opens, opensExpression, startsExpression, h]
  | call _ _ ih | get _ ih | joined _ _ _ ih | set _ _ ih | exprStmt _ ih | argument _ _ ih =>
    exact opensExpression_append ih _
  | @tighter l _ _ _ _ _ ih => cases l <;> exact ih
  | blockStmt _ ih =>
    have := startsWith_imp (p := (· == .symbol .leftBrace)) (q := startsStatement)
      (by simp +contextual [startsStatement]) ih
    simp [Category.opens, this]
  | varDecl _ ih =>
    have := startsWith_imp (p := (· == .keyword .varWord)) (q := startsDeclaration)
      (by simp +contextual [startsDeclaration]) ih
    simp [Category.opens, this]
  | expression _ ih | statement _ ih => simp_all [Category.opens]
  | _ =>
    simp_all [Category.opens, opensExpression, startsExpression, startsStatement, isName,
      startsDeclaration]

/-- A call does not open with an operator. -/
theorem Derives.startsWith_unprefixed {ts : List Token} {t : Tree} {n m : Nat}
    (h : Derives rule .call ts n t m) :
    startsWith (fun kind ↦ (prefix? kind).isNone) ts = true := by
  generalize hc : Category.call = c at h
  induction h with
  | operand inner =>
    cases inner with
    | @constant kind _ _ _ h =>
      rcases kind with s | k | _ | _ | _ | _
      · cases h
      · cases k <;> cases h <;> rfl
      all_goals rfl
    | _ => rfl
  | call _ _ ih | get _ ih => exact startsWith_append (ih rfl) _
  | _ => cases hc

/-- Whether a token opens a declaration, alone or together with the next token. -/
def startsAny (kind : TokenKind) : Bool :=
  startsExpression kind || startsStatement kind || startsDeclaration kind

theorem startsAny_of_opens {ts : List Token} (h : Category.declaration.opens ts = true) :
    startsWith startsAny ts = true := by
  cases ts with
  | nil => simp [Category.opens, opensExpression] at h
  | cons t ts =>
    simp only [Category.opens, opensExpression, startsWith_cons, Bool.or_eq_true,
      Bool.and_eq_true, beq_iff_eq] at h
    simp only [startsWith_cons, startsAny, Bool.or_eq_true]
    rcases h with ((h | ⟨h, -⟩) | h) | h
    · exact .inl (.inl h)
    · exact .inr (by rw [h]; rfl)
    · exact .inl (.inr h)
    · exact .inr h

/-- A block is declarations between braces. -/
theorem Derives.block_cases {ts : List Token} {ss : List Stmt} {n m : Nat}
    (h : Derives rule .block ts n (.stmts ss) m) :
    ∃ us l l', ts = sym .leftBrace l :: (us ++ [sym .rightBrace l']) ∧
      Derives rule .declarations us n (.stmts ss) m := by
  cases h with
  | block body => exact ⟨_, _, _, rfl, body⟩

/-- A call or property is an operand of every level. -/
theorem Derives.toLevels {ts : List Token} {e : Expr} {n m : Nat}
    (h : Derives rule .call ts n (.expr e) m) :
    Derives rule (.level .disjunction) ts n (.expr e) m := by
  have factor : Derives rule (.level .factor) ts n (.expr e) m := .tighter (.unprefixed h)
  have term : Derives rule (.level .term) ts n (.expr e) m := .tighter factor
  have comparison : Derives rule (.level .comparison) ts n (.expr e) m := .tighter term
  have equality : Derives rule (.level .equality) ts n (.expr e) m := .tighter comparison
  have conjunction : Derives rule (.level .conjunction) ts n (.expr e) m := .tighter equality
  exact .tighter conjunction

/-- What the operators with two operands make. -/
theorem Level.join?_cases {l : Level} {kind : TokenKind}
    {join : Nat → Nat → Expr → Expr → Expr} (h : l.join? kind = some join) :
    (∃ op : BinaryOp, op.kind = kind ∧ join = fun id line a b ↦ .binary id op line a b) ∨
      ∃ op : LogicalOp, op.kind = kind ∧ join = fun id line a b ↦ .logical id op line a b := by
  unfold Level.join? at h
  split at h <;> cases h <;> first | exact .inl ⟨_, rfl, rfl⟩ | exact .inr ⟨_, rfl, rfl⟩

/-- The token of an operator with one operand. -/
theorem kind_of_prefix? {kind : TokenKind} {op : UnaryOp} (h : prefix? kind = some op) :
    op.kind = kind := by
  unfold prefix? at h
  split at h <;> cases h <;> rfl

/-! ### Ids -/

/-- Ids only go up. -/
theorem Derives.le {c : Category} {ts : List Token} {t : Tree} {n m : Nat}
    (h : Derives rule c ts n t m) : n ≤ m := by
  induction h with
  | @forLoop _ _ _ _ _ c =>
    cases c <;> simp only [loopCondition] <;> omega
  | _ => omega

/-- Parameters take no ids and contain no `else`. -/
theorem Derives.parameters {rule' : ElseRule} {ts : List Token} {xs : List Ident} {n : Nat}
    (h : Derives rule .parameters ts n (.names xs) n) (k : Nat) :
    Derives rule' .parameters ts k (.names xs) k := by
  have list {ts xs n m} (h : Derives rule .parameterList ts n (.names xs) m) :
      Derives rule' .parameterList ts k (.names xs) k := by
    generalize hc : Category.parameterList = c at h
    generalize ht : Tree.names xs = t at h
    induction h generalizing xs with
    | lastParameter => cases ht; exact .lastParameter
    | parameter _ ih => cases ht; exact .parameter (ih rfl rfl)
    | _ => cases hc
  cases h with
  | noParameters => exact .noParameters
  | someParameters h hl => exact .someParameters (list h) hl

/-- The tokens of a phrase do not end a program. -/
theorem Derives.not_isEnd {c : Category} {ts : List Token} {t : Tree}
    {n m : Nat} (h : Derives rule c ts n t m) : ∀ x ∈ ts, Cursor.isEnd x = false := by
  induction h with
  | @constant kind _ _ _ h | @prefixed kind _ _ _ _ _ _ h =>
    have : kind ≠ .endOfFile := by
      rintro rfl
      cases h
    simp_all [Cursor.isEnd]
  | @joined l kind _ _ _ _ _ _ _ _ _ h =>
    have : kind ≠ .endOfFile := by
      rintro rfl
      cases l <;> cases h
    simp_all [Cursor.isEnd, or_imp]
  | _ => simp_all [Cursor.isEnd, or_imp]

/-- A program behind a program is a program. -/
theorem Derives.append {ts us : List Token} {ss ss' : List Stmt} {n m k : Nat}
    (h : Derives rule .declarations ts n (.stmts ss) m)
    (h' : Derives rule .declarations us m (.stmts ss') k) :
    Derives rule .declarations (ts ++ us) n (.stmts (ss ++ ss')) k := by
  generalize hc : Category.declarations = c at h
  generalize ht : Tree.stmts ss = t at h
  induction h generalizing ss with
  | noDeclarations => cases ht; exact h'
  | declarations first _ _ ih =>
    cases ht
    rw [List.append_assoc]
    exact .declarations first (ih h' rfl rfl)
  | _ => cases hc

/-- Behind a statement that lacks an `else`, the `else` is given to the nearest conditional that
lacks one. -/
theorem Derives.attachElse {ts us : List Token} {s : Stmt} {line n m : Nat}
    (h : Derives .nearest (.statement true) ts n (.stmt s) m)
    (h' : ∀ n, ∃ o s' m, Derives .nearest (.statement o) us n (.stmt s') m) :
    ∃ o s' m, Derives .nearest (.statement o) (ts ++ word .elseWord line :: us) n
      (.stmt s') m := by
  generalize hc : Category.statement true = c at h
  generalize ht : Tree.stmt s = t at h
  induction h generalizing s with
  | @ifThen _ _ _ _ o _ _ _ _ _ k condition thenBranch _ ih =>
    cases o with
    | false =>
      obtain ⟨o', s', m', h'⟩ := h' k
      exact ⟨_, _, _, by simpa using .ifElse condition thenBranch (fun _ ↦ rfl) h'⟩
    | true =>
      obtain ⟨o', s', m', h'⟩ := ih rfl rfl
      exact ⟨_, _, _, by simpa using .ifThen condition h'⟩
  | ifElse condition thenBranch closed _ _ _ ih =>
    cases hc
    obtain ⟨o', s', m', h'⟩ := ih rfl rfl
    exact ⟨_, _, _, by simpa using .ifElse condition thenBranch closed h'⟩
  | whileLoop condition _ _ ih =>
    cases hc
    obtain ⟨o', s', m', h'⟩ := ih rfl rfl
    exact ⟨_, _, _, by simpa using .whileLoop condition h'⟩
  | forLoop initializer condition increment _ _ _ _ ih =>
    cases hc
    obtain ⟨o', s', m', h'⟩ := ih rfl rfl
    exact ⟨_, _, _, by simpa using .forLoop initializer condition increment h'⟩
  | _ => cases hc

/-- What `Derives.nearest` says of a phrase: from any id on, its tokens are a phrase of the same
category and the same shape in which every `else` belongs to the nearest conditional. -/
def Nearest (c : Category) (ts : List Token) (t : Tree) : Prop :=
  ∀ n, match c, t with
    | .statement _, .stmt _ => ∃ o s m, Derives .nearest (.statement o) ts n (.stmt s) m
    | c, .expr _ => ∃ e m, Derives .nearest c ts n (.expr e) m
    | c, .optExpr _ => ∃ e m, Derives .nearest c ts n (.optExpr e) m
    | c, .exprs es => ∃ es' m, Derives .nearest c ts n (.exprs es') m ∧ es'.length = es.length
    | c, .names xs => Derives .nearest c ts n (.names xs) n
    | c, .stmt _ => ∃ s m, Derives .nearest c ts n (.stmt s) m
    | c, .optStmt _ => ∃ s m, Derives .nearest c ts n (.optStmt s) m
    | c, .stmts _ => ∃ ss m, Derives .nearest c ts n (.stmts ss) m
    | c, .function _ => ∃ f m, Derives .nearest c ts n (.function f) m
    | c, .functions _ => ∃ fs m, Derives .nearest c ts n (.functions fs) m

/-- An `else` can always be given to the nearest conditional. -/
theorem Derives.nearest {rule : ElseRule} {c : Category} {ts : List Token} {t : Tree} {n m : Nat}
    (h : Derives rule c ts n t m) : Nearest c ts t := by
  induction h with
  | constant h => exact fun n ↦ ⟨_, _, .constant h⟩
  | name => exact fun n ↦ ⟨_, _, .name⟩
  | this => exact fun n ↦ ⟨_, _, .this⟩
  | super => exact fun n ↦ ⟨_, _, .super⟩
  | grouping _ ih =>
    intro n
    obtain ⟨e, m, h⟩ := ih n
    exact ⟨_, _, .grouping h⟩
  | lambda params _ _ ih =>
    intro n
    obtain ⟨ss, m, h⟩ := ih n
    exact ⟨_, _, .lambda (params.parameters n) h⟩
  | operand _ ih =>
    intro n
    obtain ⟨e, m, h⟩ := ih n
    exact ⟨_, _, .operand h⟩
  | call _ _ ih ih' =>
    intro n
    obtain ⟨e, m, h⟩ := ih n
    obtain ⟨es, k, h', _⟩ := ih' m
    exact ⟨_, _, .call h h'⟩
  | get _ ih =>
    intro n
    obtain ⟨e, m, h⟩ := ih n
    exact ⟨_, _, .get h⟩
  | unprefixed _ ih =>
    intro n
    obtain ⟨e, m, h⟩ := ih n
    exact ⟨_, _, .unprefixed h⟩
  | prefixed hop _ ih =>
    intro n
    obtain ⟨e, m, h⟩ := ih n
    exact ⟨_, _, .prefixed hop h⟩
  | @tighter l _ _ _ _ _ ih =>
    intro n
    obtain ⟨e, m, h⟩ : ∃ e m, Derives .nearest l.operand _ n (.expr e) m := by
      cases l <;> exact ih n
    exact ⟨_, _, .tighter h⟩
  | @joined l _ _ _ _ _ _ _ _ _ _ hop _ _ ih ih' =>
    intro n
    obtain ⟨e, m, h⟩ := ih n
    obtain ⟨e', k, h'⟩ : ∃ e k, Derives .nearest l.operand _ m (.expr e) k := by
      cases l <;> exact ih' m
    exact ⟨_, _, .joined hop h h'⟩
  | value _ ih =>
    intro n
    obtain ⟨e, m, h⟩ := ih n
    exact ⟨_, _, .value h⟩
  | assign _ ih =>
    intro n
    obtain ⟨e, m, h⟩ := ih (n + 1)
    exact ⟨_, _, .assign h⟩
  | set _ _ ih ih' =>
    intro n
    obtain ⟨e, m, h⟩ := ih n
    obtain ⟨e', k, h'⟩ := ih' (m + 1)
    exact ⟨_, _, .set h h'⟩
  | noExpression => exact fun n ↦ ⟨_, _, .noExpression⟩
  | someExpression _ ih =>
    intro n
    obtain ⟨e, m, h⟩ := ih n
    exact ⟨_, _, .someExpression h⟩
  | noArguments => exact fun n ↦ ⟨_, _, .noArguments, rfl⟩
  | someArguments _ hl ih =>
    intro n
    obtain ⟨es, m, h, hlen⟩ := ih n
    exact ⟨_, _, .someArguments h (by omega), hlen⟩
  | lastArgument _ ih =>
    intro n
    obtain ⟨e, m, h⟩ := ih n
    exact ⟨_, _, .lastArgument h, rfl⟩
  | argument _ _ ih ih' =>
    intro n
    obtain ⟨e, m, h⟩ := ih n
    obtain ⟨es, k, h', hlen⟩ := ih' m
    exact ⟨_, _, .argument h h', by simp [hlen]⟩
  | noParameters => exact fun n ↦ .noParameters
  | someParameters list hl _ => exact fun n ↦ Derives.parameters (.someParameters list hl) n
  | lastParameter => exact fun n ↦ .lastParameter
  | parameter _ ih => exact fun n ↦ .parameter (ih n)
  | block _ ih =>
    intro n
    obtain ⟨ss, m, h⟩ := ih n
    exact ⟨_, _, .block h⟩
  | function params _ _ ih =>
    intro n
    obtain ⟨ss, m, h⟩ := ih n
    exact ⟨_, _, .function (params.parameters n) h⟩
  | noFunctions => exact fun n ↦ ⟨_, _, .noFunctions⟩
  | functions _ _ ih ih' =>
    intro n
    obtain ⟨f, m, h⟩ := ih n
    obtain ⟨fs, k, h'⟩ := ih' m
    exact ⟨_, _, .functions h h'⟩
  | varNil => exact fun n ↦ ⟨_, _, .varNil⟩
  | varValue _ ih =>
    intro n
    obtain ⟨e, m, h⟩ := ih n
    exact ⟨_, _, .varValue h⟩
  | exprStmt _ ih =>
    intro n
    obtain ⟨e, m, h⟩ := ih n
    exact ⟨_, _, .exprStmt h⟩
  | expression _ ih =>
    intro n
    obtain ⟨s, m, h⟩ := ih n
    exact ⟨_, _, _, .expression h⟩
  | print _ ih =>
    intro n
    obtain ⟨e, m, h⟩ := ih n
    exact ⟨_, _, _, .print h⟩
  | returns _ ih =>
    intro n
    obtain ⟨e, m, h⟩ := ih n
    exact ⟨_, _, _, .returns h⟩
  | blockStmt _ ih =>
    intro n
    obtain ⟨ss, m, h⟩ := ih n
    exact ⟨_, _, _, .blockStmt h⟩
  | ifThen _ _ ih ih' =>
    intro n
    obtain ⟨e, m, h⟩ := ih n
    obtain ⟨o, s, k, h'⟩ := ih' m
    exact ⟨_, _, _, .ifThen h h'⟩
  | ifElse _ _ _ _ ih ih' ih'' =>
    intro n
    obtain ⟨e, m, h⟩ := ih n
    obtain ⟨o, s, k, h'⟩ := ih' m
    cases o with
    | false =>
      obtain ⟨o', s', j, h''⟩ := ih'' k
      exact ⟨_, _, _, .ifElse h h' (fun _ ↦ rfl) h''⟩
    | true =>
      obtain ⟨o', s', j, h''⟩ := h'.attachElse ih''
      exact ⟨_, _, _, .ifThen h h''⟩
  | whileLoop _ _ ih ih' =>
    intro n
    obtain ⟨e, m, h⟩ := ih n
    obtain ⟨o, s, k, h'⟩ := ih' m
    exact ⟨_, _, _, .whileLoop h h'⟩
  | noInitializer => exact fun n ↦ ⟨_, _, .noInitializer⟩
  | varInitializer _ ih =>
    intro n
    obtain ⟨s, m, h⟩ := ih n
    exact ⟨_, _, .varInitializer h⟩
  | exprInitializer _ ih =>
    intro n
    obtain ⟨s, m, h⟩ := ih n
    exact ⟨_, _, .exprInitializer h⟩
  | forLoop _ _ _ _ ih ih' ih'' ih₃ =>
    intro n
    obtain ⟨i, m, h⟩ := ih n
    obtain ⟨c, k, h'⟩ := ih' m
    obtain ⟨a, j, h''⟩ := ih'' k
    obtain ⟨o, s, p, h₃⟩ := ih₃ j
    exact ⟨_, _, _, .forLoop h h' h'' h₃⟩
  | statement _ ih =>
    intro n
    obtain ⟨o, s, m, h⟩ := ih n
    exact ⟨_, _, .statement h⟩
  | varDecl _ ih =>
    intro n
    obtain ⟨s, m, h⟩ := ih n
    exact ⟨_, _, .varDecl h⟩
  | funDecl _ ih =>
    intro n
    obtain ⟨f, m, h⟩ := ih n
    exact ⟨_, _, .funDecl h⟩
  | classDecl _ ih =>
    intro n
    obtain ⟨fs, m, h⟩ := ih n
    exact ⟨_, _, .classDecl h⟩
  | subclassDecl _ ih =>
    intro n
    obtain ⟨fs, m, h⟩ := ih (n + 1)
    exact ⟨_, _, .subclassDecl h⟩
  | noDeclarations => exact fun n ↦ ⟨_, _, .noDeclarations⟩
  | declarations _ _ ih ih' =>
    intro n
    obtain ⟨s, m, h⟩ := ih n
    obtain ⟨ss, k, h'⟩ := ih' m
    exact ⟨_, _, .declarations h h'⟩

/-! ### Ends of phrases -/

/-- Whether a token continues an operand with a call or a property. -/
def continuesCall (kind : TokenKind) : Bool :=
  kind == .symbol .leftParen || kind == .symbol .dot

namespace Level

/-- Whether a token is an operator of the level. -/
def isOperator (l : Level) (kind : TokenKind) : Bool := (l.join? kind).isSome

/-- The level and those of tighter operators. -/
def inward : Level → List Level
  | disjunction => [disjunction, conjunction, equality, comparison, term, factor]
  | conjunction => [conjunction, equality, comparison, term, factor]
  | equality => [equality, comparison, term, factor]
  | comparison => [comparison, term, factor]
  | term => [term, factor]
  | factor => [factor]

/-- Whether a token is an operator of the level or of a tighter one. -/
def continuedBy (l : Level) (kind : TokenKind) : Bool := l.inward.any (·.isOperator kind)

end Level

/-- Whether a token behind a phrase of the category would be taken as a part of it. -/
def Category.continuedBy : Category → TokenKind → Bool
  | call, k | unary, k => continuesCall k
  | level l, k => continuesCall k || l.continuedBy k
  | expression, k =>
    continuesCall k || Level.disjunction.continuedBy k || k == .symbol .equal
  | statement isOpen, k => isOpen && k == .keyword .elseWord
  | declaration, k => k == .keyword .elseWord
  | _, _ => false

/-- Whether a phrase of the category ends in front of the given tokens. -/
def Category.EndsBefore (c : Category) (rest : List Token) : Prop :=
  startsWith c.continuedBy rest = false

/-- No declaration opens with a token that continues another one. -/
theorem endsBefore_of_startsAny {ts : List Token} (h : startsWith startsAny ts = true)
    (us : List Token) : Category.declaration.EndsBefore (ts ++ us) := by
  cases ts with
  | nil => simp at h
  | cons t ts =>
    simp only [Category.EndsBefore, List.cons_append, startsWith_cons, Category.continuedBy,
      beq_eq_false_iff_ne, ne_eq]
    intro ht
    simp [ht, startsAny, startsExpression, constant?, prefix?, startsStatement,
      startsDeclaration] at h

theorem Level.endsBefore_operand {l : Level} {rest : List Token}
    (h : (Category.level l).EndsBefore rest) : l.operand.EndsBefore rest := by
  cases rest with
  | nil => rfl
  | cons t rest =>
    cases l <;>
      simp_all [Category.EndsBefore, Category.continuedBy, operand, continuedBy, inward]

theorem Level.isOperator_of_endsBefore {l : Level} {t : Token} {rest : List Token}
    (h : (Category.level l).EndsBefore (t :: rest)) : l.isOperator t.kind = false := by
  cases l <;> simp_all [Category.EndsBefore, Category.continuedBy, continuedBy, inward]

/-- An operator of a level ends the operands of the level. -/
theorem Level.endsBefore_isOperator {l : Level} {t : Token} {rest : List Token}
    (h : l.isOperator t.kind = true) : l.operand.EndsBefore (t :: rest) := by
  obtain ⟨kind, line⟩ := t
  cases kind with
  | symbol s => cases s <;> cases l <;> first | rfl | cases h
  | keyword k => cases k <;> cases l <;> first | rfl | cases h
  | _ => cases l <;> cases h

end LexScript.Grammar
