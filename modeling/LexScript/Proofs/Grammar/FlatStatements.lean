import LexScript.Proofs.Grammar.Completeness

/-!
# Flat statements

A flat statement ends with its only semicolon and has no braces, no loop with three clauses and no
`else`; a word that starts a declaration or statement is at most its first token. Many flat
statements are no statements at all: an operand is missing, a parenthesis does not match, or a
function has no body.

A parser that starts with a flat statement never comes to the semicolon but at the end of the
statement. It takes the whole statement or fails in front of one of its tokens, and after that
failure parsing goes on right behind the semicolon.

## Main definitions

* `IsFlat` : the tokens of a flat statement, well formed or not.
* `Cursor.InStatement` : a cursor inside a flat statement.
* `Parse.Stays` : a parser that fails inside a flat statement or leaves a cursor of some kind.

## Main statements

* `Rules.stays_declaration` : a flat statement is taken up or fails inside.
* `Cursor.resume_of_inStatement` : after a failure parsing goes on behind the statement.
-/

namespace LexScript

/-- The tokens of a flat statement. -/
structure IsFlat (ts : List Token) : Prop where
  semicolon : ∃ t ∈ ts.getLast?, t.kind = .symbol .semicolon
  onlySemicolon : ∀ t ∈ ts.dropLast, t.kind ≠ .symbol .semicolon
  noBrace : ∀ t ∈ ts, t.kind ≠ .symbol .leftBrace ∧ t.kind ≠ .symbol .rightBrace
  noFor : ∀ t ∈ ts, t.kind ≠ .keyword .forWord
  noElse : ∀ t ∈ ts, t.kind ≠ .keyword .elseWord
  noStart : ∀ t ∈ ts.tail, Cursor.startsStatement t = false

instance (ts : List Token) : Decidable (IsFlat ts) :=
  decidable_of_iff
    ((∃ t ∈ ts.getLast?, t.kind = .symbol .semicolon) ∧
      (∀ t ∈ ts.dropLast, t.kind ≠ .symbol .semicolon) ∧
      (∀ t ∈ ts, t.kind ≠ .symbol .leftBrace ∧ t.kind ≠ .symbol .rightBrace) ∧
      (∀ t ∈ ts, t.kind ≠ .keyword .forWord) ∧ (∀ t ∈ ts, t.kind ≠ .keyword .elseWord) ∧
      ∀ t ∈ ts.tail, Cursor.startsStatement t = false)
    ⟨fun ⟨h₁, h₂, h₃, h₄, h₅, h₆⟩ ↦ ⟨h₁, h₂, h₃, h₄, h₅, h₆⟩,
      fun ⟨h₁, h₂, h₃, h₄, h₅, h₆⟩ ↦ ⟨h₁, h₂, h₃, h₄, h₅, h₆⟩⟩

/-- Whether a token can stand inside a flat statement. -/
def Token.isInner (t : Token) : Bool :=
  match t.kind with
  | .symbol .semicolon | .symbol .leftBrace | .symbol .rightBrace | .keyword .elseWord => false
  | _ => !Cursor.startsStatement t

/-- The tokens ahead are the rest of a flat statement. -/
def Cursor.InStatement (c : Cursor) : Prop :=
  ∃ ts line, c.rest = ts ++ [⟨.symbol .semicolon, line⟩] ∧ ∀ t ∈ ts, t.isInner = true

/-- No token is left. -/
def Cursor.IsDone (c : Cursor) : Prop := c.rest = []

/-! ### The tokens of a flat statement -/

/-- A semicolon in its place, and tokens in theirs, make a flat statement. -/
theorem IsFlat.cases {ts : List Token} (h : IsFlat ts) :
    (∃ line, ts = [⟨.symbol .semicolon, line⟩]) ∨
      ∃ t us line, ts = t :: (us ++ [⟨.symbol .semicolon, line⟩]) ∧
        (Cursor.startsStatement t = false → t.isInner = true) ∧ ∀ u ∈ us, u.isInner = true := by
  obtain ⟨⟨kind, line⟩, hlast, rfl⟩ := h.semicolon
  obtain ⟨us, rfl⟩ := List.getLast?_eq_some_iff.1 hlast
  have hinner {t : Token} (ht : t ∈ us) (hstart : Cursor.startsStatement t = false) :
      t.isInner = true := by
    have hmem : t ∈ us ++ [⟨.symbol .semicolon, line⟩] := List.mem_append_left _ ht
    have hsemicolon := h.onlySemicolon t (by rwa [List.dropLast_concat])
    have hbrace := h.noBrace t hmem
    have helse := h.noElse t hmem
    unfold Token.isInner
    split <;> simp_all
  cases us with
  | nil => exact .inl ⟨line, rfl⟩
  | cons t us =>
    refine .inr ⟨t, us, line, rfl, hinner List.mem_cons_self, fun u hu ↦ ?_⟩
    exact hinner (List.mem_cons_of_mem t hu) (h.noStart u (List.mem_append_left _ hu))

namespace Cursor

variable {c : Cursor}

/-- Inside a flat statement either the semicolon is ahead or a token that can be taken. -/
theorem InStatement.cases (h : c.InStatement) :
    (∃ line, c.rest = [⟨.symbol .semicolon, line⟩]) ∨
      ∃ t ts, c.rest = t :: ts ∧ t.isInner = true ∧ { c with rest := ts }.InStatement := by
  obtain ⟨ts, line, hrest, hts⟩ := h
  cases ts with
  | nil => exact .inl ⟨line, hrest⟩
  | cons t ts =>
    exact .inr ⟨t, _, hrest, hts t List.mem_cons_self, ts, line, rfl, fun u hu ↦
      hts u (List.mem_cons_of_mem t hu)⟩

theorem InStatement.rest_ne_nil (h : c.InStatement) : c.rest ≠ [] := by
  obtain ⟨ts, line, hrest, -⟩ := h
  simp [hrest]

/-- What is ahead inside a flat statement. -/
theorem InStatement.token (h : c.InStatement) :
    c.token.kind = .symbol .semicolon ∨ c.token.isInner = true := by
  rcases h.cases with ⟨line, hrest⟩ | ⟨t, ts, hrest, ht, -⟩
  · exact .inl (by rw [Cursor.token, hrest])
  · exact .inr (by rwa [Cursor.token, hrest])

/-- No brace and no word that starts a statement is ahead inside a flat statement. -/
theorem InStatement.kind_ne (h : c.InStatement) {kind : TokenKind}
    (hkind : ∀ line, Token.isInner ⟨kind, line⟩ = false) (hne : kind ≠ .symbol .semicolon) :
    c.token.kind ≠ kind := by
  rintro rfl
  rcases h.token with hsemicolon | hinner
  · exact hne hsemicolon
  · exact Bool.false_ne_true ((hkind c.token.line).symm.trans hinner)

/-- After a failure inside a flat statement parsing goes on behind the statement. -/
theorem resume_of_inStatement {ts : List Token} {line : Nat} (hts : ∀ t ∈ ts, t.isInner = true)
    (us : List Token) : resume (ts ++ ⟨.symbol .semicolon, line⟩ :: us) = us := by
  have hinner {t : Token} (ht : t.isInner = true) :
      t.kind ≠ .symbol .semicolon ∧ startsStatement t = false := by
    unfold Token.isInner at ht
    split at ht <;> simp_all
  induction ts with
  | nil => simp [resume]
  | cons t ts ih =>
    have ht := hinner (hts t List.mem_cons_self)
    have hnext : (ts ++ ⟨.symbol .semicolon, line⟩ :: us).head?.any startsStatement = false := by
      cases ts with
      | nil => rfl
      | cons u ts => exact (hinner (hts u (by simp))).2
    rw [List.cons_append, resume, hnext]
    simpa [ht.1] using ih fun u hu ↦ hts u (List.mem_cons_of_mem t hu)

end Cursor

namespace Parse

variable {α β : Type} {p : Parse α} {f : α → Parse β} {after : Cursor → Prop} {c : Cursor}

/-- A parser fails inside a flat statement, or succeeds and leaves a cursor of the given kind. -/
def Stays (after : Cursor → Prop) (p : Parse α) (c : Cursor) : Prop :=
  match p c with
  | .ok _ c' => after c'
  | .error _ c' => c'.InStatement

/-! ### Composed parsers -/

theorem Stays.bind {between : Cursor → Prop} (hp : Stays between p c)
    (hf : ∀ a c', between c' → Stays after (f a) c') : Stays after (p >>= f) c := by
  unfold Stays at hp ⊢
  rw [bind_apply]
  cases hpc : p c with
  | ok a c' =>
    rw [hpc] at hp
    exact hf a c' hp
  | error e c' =>
    rw [hpc] at hp
    exact hp

/-- A parser that always fails leaves no cursor of another kind either. -/
theorem Stays.fails (hp : Stays (fun _ ↦ False) p c) : Stays after p c := by
  unfold Stays at hp ⊢
  split at hp
  · exact hp.elim
  · exact hp

/-- What would come behind a parser that always fails does not matter. -/
theorem Stays.never (hp : Stays (fun _ ↦ False) p c) : Stays after (p >>= f) c :=
  hp.bind fun _ _ ↦ False.elim

theorem stays_pure (a : α) (hc : after c) : Stays after (pure a) c := hc

theorem stays_fail (fault : SyntaxFault) (hc : c.InStatement) :
    Stays after (fail fault : Parse α) c := hc

theorem stays_throw (e : SyntaxError) (hc : c.InStatement) :
    Stays after (throw e : Parse α) c := hc

theorem Stays.map (hp : Stays after p c) (g : α → β) : Stays after (g <$> p) c := by
  have hbind : Stays after (p >>= fun a ↦ pure (g a)) c := hp.bind fun _ _ ↦ stays_pure _
  exact hbind

theorem stays_cursor {f : Cursor → Parse α} (h : Stays after (f c) c) :
    Stays after (cursor >>= f) c := h

theorem stays_cond {q : Parse α} (b : Bool) (hp : b = true → Stays after p c)
    (hq : b = false → Stays after q c) : Stays after (if b then p else q) c := by
  cases b
  · exact hq rfl
  · exact hp rfl

/-! ### Moving on -/

theorem stays_freshId (hc : c.InStatement) : Stays Cursor.InStatement freshId c := hc

theorem stays_record (fault : SyntaxFault) (hc : c.InStatement) :
    Stays Cursor.InStatement (record fault) c := hc

/-- A token that is no semicolon is one inside the statement. -/
theorem stays_skip (hc : c.InStatement) (hkind : c.token.kind ≠ .symbol .semicolon) :
    Stays Cursor.InStatement skip c := by
  rcases hc.cases with ⟨line, hrest⟩ | ⟨t, ts, hrest, -, hc'⟩
  · simp [Cursor.token, hrest] at hkind
  · simpa [Stays, hrest] using hc'

theorem stays_accept {kind : TokenKind} (hkind : kind ≠ .symbol .semicolon) (hc : c.InStatement) :
    Stays Cursor.InStatement (accept kind) c := by
  refine stays_cursor (stays_cond _ (fun hsees ↦ ?_) fun _ ↦ stays_pure _ hc)
  exact (stays_skip hc (beq_iff_eq.1 hsees ▸ hkind)).bind fun _ _ ↦ stays_pure _

theorem stays_expectSymbol {s : Symbol} (spot : Spot) (hs : s ≠ .semicolon) (hc : c.InStatement) :
    Stays Cursor.InStatement (expectSymbol s spot) c := by
  refine stays_cursor (stays_cond _ (fun hsees ↦ ?_) fun _ ↦ stays_fail _ hc)
  have hkind : c.token.kind ≠ .symbol .semicolon := by
    rw [beq_iff_eq.1 hsees]
    simpa using hs
  exact (stays_skip hc hkind).bind fun _ _ ↦ stays_pure _

/-- There is no brace in a flat statement. -/
theorem stays_expectBrace (spot : Spot) (hc : c.InStatement) :
    Stays (fun _ ↦ False) (expectSymbol .leftBrace spot) c :=
  stays_cursor (stays_cond _
    (fun hsees ↦ absurd (beq_iff_eq.1 hsees) (hc.kind_ne (fun _ ↦ rfl) nofun))
    fun _ ↦ stays_fail _ hc)

/-- The semicolon ends a flat statement. -/
theorem stays_expectSemicolon (spot : Spot) (hc : c.InStatement) :
    Stays Cursor.IsDone (expectSymbol .semicolon spot) c := by
  refine stays_cursor (stays_cond _ (fun hsees ↦ ?_) fun _ ↦ stays_fail _ hc)
  rcases hc.cases with ⟨line, hrest⟩ | ⟨t, ts, hrest, ht, -⟩
  · simp [Stays, Cursor.IsDone, hrest]
  · rw [Cursor.token, hrest] at hsees
    simp [Token.isInner, beq_iff_eq.1 hsees] at ht

theorem stays_expectName (role : NameRole) (hc : c.InStatement) :
    Stays Cursor.InStatement (expectName role) c := by
  refine stays_cursor ?_
  split
  · next htoken =>
    have hkind : c.token.kind ≠ .symbol .semicolon := by simp [htoken]
    exact (stays_skip hc hkind).bind fun _ _ ↦ stays_pure _
  · exact stays_fail _ hc

theorem stays_commaSeparated (h : ∀ c, c.InStatement → Stays Cursor.InStatement p c)
    (excess : SyntaxFault) (bound count : Nat) (hc : c.InStatement) :
    Stays Cursor.InStatement (commaSeparated excess p bound count) c := by
  induction bound generalizing count c with
  | zero => exact stays_fail _ hc
  | succ bound ih =>
    have hlist (c : Cursor) (hc : c.InStatement) : Stays Cursor.InStatement
        (do
          let first ← p
          if ← accept (.symbol .comma) then
            let others ← commaSeparated excess p bound (count + 1)
            pure (first :: others)
          else
            pure [first]) c :=
      (h c hc).bind fun _ _ hc ↦ (stays_accept (by nofun) hc).bind fun _ _ hc ↦ stays_cond _
        (fun _ ↦ (ih (count + 1) hc).bind fun _ _ ↦ stays_pure _) fun _ ↦ stays_pure _ hc
    unfold commaSeparated
    split
    · exact (stays_record excess hc).bind fun _ ↦ hlist
    · exact hlist c hc

end Parse

namespace Rules

open Parse

/-- The rules stay inside a flat statement, and a statement takes all of it. -/
structure Stay (r : Rules) : Prop where
  expression : ∀ c, c.InStatement → Stays Cursor.InStatement r.expression c
  unary : ∀ c, c.InStatement → Stays Cursor.InStatement r.unary c
  statement : ∀ c, c.InStatement → Stays Cursor.IsDone r.statement c

variable {r : Rules} (bound : Nat) {after : Cursor → Prop} {c : Cursor}

/-! ### Expressions -/

theorem stays_fresh {make : Nat → Expr} (hc : c.InStatement) :
    Stays Cursor.InStatement (do pure (make (← freshId))) c :=
  (stays_freshId hc).bind fun _ _ ↦ stays_pure _

theorem stays_leaf {make : Nat → Expr} (hc : c.InStatement)
    (hkind : c.token.kind ≠ .symbol .semicolon) : Stays Cursor.InStatement (leaf make) c :=
  (stays_skip hc hkind).bind fun _ _ ↦ stays_fresh

/-- A function in a flat statement lacks its body. -/
theorem stays_behindParameters (form : FunctionForm) (params : List Ident)
    (hc : c.InStatement) : Stays (fun _ ↦ False) (r.behindParameters bound form params) c :=
  (stays_expectSymbol _ (by nofun) hc).bind fun _ _ hc ↦ (stays_expectBrace _ hc).never

theorem stays_functionTail (form : FunctionForm) (hc : c.InStatement) :
    Stays (fun _ ↦ False) (r.functionTail bound form) c := by
  have hparams := stays_commaSeparated (fun _ hc ↦ stays_expectName .parameter hc)
    .tooManyParameters bound 0 hc
  exact stays_cursor (stays_cond _ (fun _ ↦ stays_behindParameters bound form [] hc) fun _ ↦
    hparams.bind fun params _ hc ↦ stays_behindParameters bound form params hc)

theorem stays_function (form : FunctionForm) (hc : c.InStatement) :
    Stays (fun _ ↦ False) (r.function bound form) c :=
  (stays_expectName _ hc).bind fun _ _ hc ↦ (stays_expectSymbol _ (by nofun) hc).bind fun _ _ hc ↦
    (stays_functionTail bound form hc).never

theorem stays_assignTo (target : Expr) (equals : Token) (value : Expr) (hc : c.InStatement) :
    Stays Cursor.InStatement (assignTo target equals value) c := by
  unfold assignTo
  split
  · exact stays_fresh hc
  · exact stays_fresh hc
  · exact stays_throw _ hc

section Inside

variable (hr : r.Stay)

include hr

theorem stays_primary (hc : c.InStatement) :
    Stays Cursor.InStatement (r.primary bound) c := by
  refine stays_cursor ?_
  dsimp only
  split
  case h_8 hkind =>
    exact (stays_skip hc (by simp [hkind])).bind fun _ _ hc ↦
      (stays_expectSymbol _ (by nofun) hc).bind fun _ _ hc ↦ (stays_expectName _ hc).bind
        fun _ _ ↦ stays_fresh
  case h_9 hkind =>
    exact (stays_skip hc (by simp [hkind])).bind fun _ c hc ↦ (hr.expression c hc).bind
      fun _ _ hc ↦ (stays_expectSymbol _ (by nofun) hc).bind fun _ _ ↦ stays_fresh
  case h_10 hkind => exact absurd hkind (hc.kind_ne (fun _ ↦ rfl) nofun)
  case h_11 => exact stays_fail _ hc
  all_goals
    next hkind => exact stays_leaf hc (by simp [hkind])

theorem stays_finishCall (callee : Expr) (hc : c.InStatement) :
    Stays Cursor.InStatement (r.finishCall bound callee) c := by
  have harguments := stays_commaSeparated hr.expression .tooManyArguments bound 0 hc
  have hrest (es : List Expr) (c : Cursor) (hc : c.InStatement) : Stays Cursor.InStatement
      (do
        let line ← expectSymbol .rightParen .afterArguments
        pure (Expr.call (← freshId) callee line es)) c :=
    (stays_expectSymbol _ (by nofun) hc).bind fun _ _ ↦ stays_fresh
  exact stays_cursor (stays_cond _ (fun _ ↦ hrest [] c hc) fun _ ↦ harguments.bind hrest)

theorem stays_callTail (turns : Nat) (e : Expr) (hc : c.InStatement) :
    Stays Cursor.InStatement (r.callTail bound turns e) c := by
  induction turns generalizing e c with
  | zero => exact stays_fail _ hc
  | succ turns ih =>
    refine (stays_accept (by nofun) hc).bind fun _ _ hc ↦ stays_cond _
      (fun _ ↦ (stays_finishCall bound hr e hc).bind fun e _ ↦ ih e) fun _ ↦ ?_
    refine (stays_accept (by nofun) hc).bind fun _ _ hc ↦ stays_cond _
      (fun _ ↦ ?_) fun _ ↦ stays_pure e hc
    exact (stays_expectName _ hc).bind fun _ _ hc ↦ (stays_freshId hc).bind fun _ _ ↦ ih _

theorem stays_unaryLevel (hc : c.InStatement) :
    Stays Cursor.InStatement (r.unaryLevel bound) c := by
  refine stays_cursor ?_
  dsimp only
  split
  · next hop =>
    have hkind : c.token.kind ≠ .symbol .semicolon := fun h ↦ by simp [h, unaryOp?] at hop
    exact (stays_skip hc hkind).bind fun _ c hc ↦ (hr.unary c hc).bind fun _ _ ↦ stays_fresh
  · exact (stays_primary bound hr hc).bind fun e _ ↦ stays_callTail bound hr bound e

omit hr in
theorem stays_level {β : Type} {op? : TokenKind → Option β}
    (hop? : op? (.symbol .semicolon) = none) (join : Nat → β → Nat → Expr → Expr → Expr)
    {operand : Parse Expr} (h : ∀ c, c.InStatement → Stays Cursor.InStatement operand c)
    (c : Cursor) (hc : c.InStatement) :
    Stays Cursor.InStatement (level bound op? join operand) c := by
  suffices htail : ∀ turns e c, c.InStatement →
      Stays Cursor.InStatement (operatorTail op? join operand turns e) c from
    (h c hc).bind (htail bound)
  intro turns
  induction turns with
  | zero => exact fun _ _ ↦ stays_fail _
  | succ turns ih =>
    refine fun e c hc ↦ stays_cursor ?_
    dsimp only
    split
    · next hop =>
      have hkind : c.token.kind ≠ .symbol .semicolon := fun h ↦ by simp [h, hop?] at hop
      exact (stays_skip hc hkind).bind fun _ c hc ↦ (h c hc).bind fun _ _ hc ↦
        (stays_freshId hc).bind fun _ ↦ ih _
    · exact stays_pure e hc

theorem stays_assignment (c : Cursor) (hc : c.InStatement) :
    Stays Cursor.InStatement (r.assignment bound) c := by
  have hor : Stays Cursor.InStatement (r.logicOr bound) c :=
    stays_level bound rfl _ (stays_level bound rfl _ <| stays_level bound rfl _ <|
      stays_level bound rfl _ <| stays_level bound rfl _ <| stays_level bound rfl _
        fun _ ↦ stays_unaryLevel bound hr) c hc
  refine hor.bind fun target c hc ↦ stays_cursor (stays_cond _ (fun hequals ↦ ?_)
    fun _ ↦ stays_pure target hc)
  have hkind : c.token.kind ≠ .symbol .semicolon := by simp [beq_iff_eq.1 hequals]
  exact (stays_skip hc hkind).bind fun _ c hc ↦ (hr.expression c hc).bind
    fun value _ ↦ stays_assignTo target _ value

/-! ### Statements -/

theorem stays_expressionStatement (hc : c.InStatement) :
    Stays Cursor.IsDone (r.expressionStatement bound) c :=
  (stays_assignment bound hr c hc).bind fun _ _ hc ↦ (stays_expectSemicolon _ hc).bind
    fun _ _ ↦ stays_pure _

theorem stays_varDeclaration (hc : c.InStatement) :
    Stays Cursor.IsDone (r.varDeclaration bound) c := by
  have hrest (x : Ident) (value : Option Expr) (c : Cursor) (hc : c.InStatement) :
      Stays Cursor.IsDone
        (do
          let _ ← expectSymbol .semicolon .afterVariableDeclaration
          pure (Stmt.varDecl x value)) c :=
    (stays_expectSemicolon _ hc).bind fun _ _ ↦ stays_pure _
  exact (stays_expectName _ hc).bind fun x _ hc ↦ (stays_accept (by nofun) hc).bind
    fun _ c hc ↦ stays_cond _
      (fun _ ↦ ((stays_assignment bound hr c hc).map some).bind (hrest x)) fun _ ↦ hrest x none c hc

theorem stays_ifStatement (hc : c.InStatement) :
    Stays Cursor.IsDone (r.ifStatement bound) c := by
  refine (stays_expectSymbol _ (by nofun) hc).bind fun _ c hc ↦
    (stays_assignment bound hr c hc).bind
    fun _ _ hc ↦ (stays_expectSymbol _ (by nofun) hc).bind fun _ c hc ↦ (hr.statement c hc).bind
      fun s c hend ↦ ?_
  -- Behind the statement there is no `else`.
  have hend : c.rest = [] := hend
  simp [Stays, Cursor.IsDone, Cursor.sees, Cursor.token, hend]

theorem stays_whileStatement (hc : c.InStatement) :
    Stays Cursor.IsDone (r.whileStatement bound) c :=
  (stays_expectSymbol _ (by nofun) hc).bind fun _ c hc ↦ (stays_assignment bound hr c hc).bind
    fun _ _ hc ↦ (stays_expectSymbol _ (by nofun) hc).bind fun _ c hc ↦ (hr.statement c hc).bind
      fun _ _ ↦ stays_pure _

theorem stays_printStatement (line : Nat) (hc : c.InStatement) :
    Stays Cursor.IsDone (r.printStatement bound line) c :=
  (stays_assignment bound hr c hc).bind fun _ _ hc ↦ (stays_expectSemicolon _ hc).bind
    fun _ _ ↦ stays_pure _

theorem stays_returnStatement (line : Nat) (hc : c.InStatement) :
    Stays Cursor.IsDone (r.returnStatement bound line) c := by
  have hvalue : Stays Cursor.InStatement (r.optionalExpression bound .semicolon) c :=
    stays_cursor (stays_cond _ (fun _ ↦ stays_pure none hc)
      fun _ ↦ (stays_assignment bound hr c hc).map some)
  exact hvalue.bind fun _ _ hc ↦ (stays_expectSemicolon _ hc).bind fun _ _ ↦ stays_pure _

/-- Behind its first token a flat statement has only an expression statement in it. -/
theorem stays_plainStatement (c : Cursor) (hc : c.InStatement) :
    Stays Cursor.IsDone (r.plainStatement bound) c := by
  refine stays_cursor ?_
  dsimp only
  split
  case h_7 => exact stays_expressionStatement bound hr hc
  all_goals
    next hkind => exact absurd hkind (hc.kind_ne (fun _ ↦ rfl) nofun)

end Inside

theorem Stay.outer (hr : r.Stay) : (r.outer bound).Stay where
  expression := stays_assignment bound hr
  unary _ := stays_unaryLevel bound hr
  statement := stays_plainStatement bound hr

theorem stay_atDepth (depth : Nat) : (atDepth bound depth).Stay := by
  induction depth with
  | zero => exact ⟨fun _ ↦ stays_fail _, fun _ ↦ stays_fail _, fun _ ↦ stays_fail _⟩
  | succ depth ih => exact ih.outer bound

/-! ### Declarations -/

theorem stays_classDeclaration (hc : c.InStatement) :
    Stays (fun _ ↦ False) (r.classDeclaration bound) c := by
  have hsuperclass {c : Cursor} (hc : c.InStatement) :
      Stays Cursor.InStatement superclassClause c :=
    (stays_accept (by nofun) hc).bind fun _ _ hc ↦ stays_cond _
      (fun _ ↦ (stays_expectName _ hc).bind fun _ _ hc ↦ (stays_freshId hc).bind
        fun _ _ ↦ stays_pure _)
      fun _ ↦ stays_pure _ hc
  exact (stays_expectName _ hc).bind fun _ _ hc ↦ (hsuperclass hc).bind fun _ _ hc ↦
    (stays_expectBrace _ hc).never

/-- A function at the start of a flat statement lacks its body, also if it has no name. -/
theorem stays_fun {line : Nat} {ts : List Token} (hrest : c.rest = ⟨.keyword .funWord, line⟩ :: ts)
    (hc : { c with rest := ts }.InStatement) : Stays after (r.plainStatement bound) c := by
  have hprimary : Stays (fun _ ↦ False) (r.primary bound) c := by
    refine stays_cursor ?_
    simp only [Cursor.token, hrest]
    have hskip : Stays Cursor.InStatement skip c := by simpa [Stays, hrest] using hc
    exact hskip.bind fun _ _ hc ↦ (stays_expectSymbol _ (by simp) hc).bind fun _ _ hc ↦
      (stays_functionTail bound _ hc).never
  unfold Stays at hprimary ⊢
  cases hfail : r.primary bound c with
  | ok e c' =>
    rw [hfail] at hprimary
    exact hprimary.elim
  | error e c' =>
    rw [hfail] at hprimary
    have hplain : r.plainStatement bound c = .error e c' := by
      simp [plainStatement, expressionStatement, assignment, logicOr, logicAnd, equality,
        comparison, term, factor, level, unaryLevel, unaryOp?, call, hfail, Cursor.token, hrest]
    rw [hplain]
    exact hprimary

/-- A word that starts a declaration or statement is the first token of a flat statement. -/
theorem stays_started (hr : r.Stay) (hstart : Cursor.startsStatement c.token = true)
    (hfor : c.token.kind ≠ .keyword .forWord) (hskip : Stays Cursor.InStatement skip c)
    (hfun : c.token.kind = .keyword .funWord → Stays Cursor.IsDone (r.plainStatement bound) c) :
    Stays Cursor.IsDone (r.plainDeclaration bound) c := by
  refine stays_cursor ?_
  split
  case h_1 => exact hskip.bind fun _ _ hc ↦ (stays_classDeclaration bound hc).fails
  case h_2 => exact hskip.bind fun _ _ ↦ stays_varDeclaration bound hr
  case h_3 hkind =>
    exact stays_cond _
      (fun _ ↦ hskip.bind fun _ _ hc ↦ ((stays_function bound .function hc).map _).fails)
      fun _ ↦ hfun hkind
  case h_4 =>
    refine stays_cursor ?_
    dsimp only
    split
    case h_1 hkind => exact absurd hkind hfor
    case h_2 => exact hskip.bind fun _ _ ↦ stays_ifStatement bound hr
    case h_3 => exact hskip.bind fun _ _ ↦ stays_whileStatement bound hr
    case h_4 => exact hskip.bind fun _ _ ↦ stays_returnStatement bound hr _
    case h_5 hkind => simp [Cursor.startsStatement, hkind] at hstart
    case h_6 => exact hskip.bind fun _ _ ↦ stays_printStatement bound hr _
    case h_7 =>
      unfold Cursor.startsStatement at hstart
      split at hstart <;> simp_all

/-- A flat statement is taken as a whole, or fails in front of one of its tokens. -/
theorem stays_declaration (hr : r.Stay) (hc : IsFlat c.rest) :
    Stays Cursor.IsDone (r.plainDeclaration bound) c := by
  have hplain (hc : c.InStatement) : Stays Cursor.IsDone (r.plainDeclaration bound) c := by
    refine stays_cursor ?_
    split
    case h_4 => exact stays_plainStatement bound hr c hc
    all_goals
      next hkind => exact absurd hkind (hc.kind_ne (fun _ ↦ rfl) nofun)
  rcases hc.cases with ⟨line, hrest⟩ | ⟨⟨kind, l⟩, us, line, hrest, hfirst, hus⟩
  · exact hplain ⟨[], line, hrest, nofun⟩
  · have hc' : Cursor.InStatement { c with rest := us ++ [⟨.symbol .semicolon, line⟩] } :=
      ⟨us, line, rfl, hus⟩
    have hskip : Stays Cursor.InStatement skip c := by simpa [Stays, hrest] using hc'
    by_cases hstart : Cursor.startsStatement ⟨kind, l⟩ = true
    · have htoken : c.token = ⟨kind, l⟩ := by rw [Cursor.token, hrest]
      have hfor : kind ≠ .keyword .forWord := hc.noFor ⟨kind, l⟩ (by simp [hrest])
      refine stays_started bound hr (htoken ▸ hstart) (htoken ▸ hfor) hskip fun hkind ↦ ?_
      rw [htoken] at hkind
      subst hkind
      exact stays_fun bound hrest hc'
    · refine hplain ⟨⟨kind, l⟩ :: us, line, hrest, ?_⟩
      rintro t (_ | ⟨_, ht⟩)
      · exact hfirst (Bool.eq_false_iff.2 hstart)
      · exact hus t ht

end Rules

end LexScript
