import LexScript.Proofs.Grammar.Acceptance
import LexScript.Proofs.Grammar.Neighbours

/-!
# Expressions on their own

An expression is parsed on its own exactly if it is parsed as a statement once a semicolon is put
behind it, as the same tree with the same ids. Both ways to parse it are compared with the grammar.
On its own a list of tokens is accepted if it is an expression; with a semicolon behind it, it is
accepted as one statement that is an expression, and no other statement or declaration has this
form, so again it is an expression in front of the semicolon.

No error gets lost on the way. What has been recorded inside of an expression, in the body of a
function without a name or for an argument or a parameter beyond the limit, is reported in both
cases.

## Main statements

* `parseExpression_eq_iff_derives` : what is parsed on its own are the expressions of the grammar.
* `derives_singleton_iff` : a program of one statement that is an expression.
* `parseExpression_agrees_with_parse` : the two ways to parse an expression agree.
-/

namespace LexScript

open Grammar Parse Cursor

variable {ts : List Token} {e : Expr} {n m : Nat}

/-! ### Expressions on their own -/

/-- An expression up to the end of its tokens is found, with the ids of its derivation. -/
theorem wholeExpression_of_derives (hts : IsEndless ts)
    (h : Derives .nearest .expression ts n (.expr e) m) :
    ∃ c, wholeExpression ts (start n ts) = .ok e c ∧ c.nextId = m ∧ c.errors = #[] := by
  have hr := Rules.finds_atDepth (enoughDepth ts) (enoughDepth ts)
    (d := ts.length) (by simp [enoughDepth]) (by simp [enoughDepth])
  have hfinds := hr.expression [] h (Nat.le_refl _) rfl (start n ts).endLine #[]
  rw [List.append_nil] at hfinds
  refine ⟨⟨[], (start n ts).endLine, m, #[]⟩, ?_, rfl, rfl⟩
  rw [hts.start_eq] at hfinds ⊢
  simp [wholeExpression, Rules.forTokens, hfinds, Cursor.atEnd]

/-- What an expression leaves behind if it is accepted on its own. -/
theorem expression_of_wholeExpression {c : Cursor}
    (h : wholeExpression ts (start n ts) = .ok e c) :
    (Rules.forTokens ts).expression (start n ts) = .ok e c ∧ c.rest = [] ∧ c.errors = #[] := by
  unfold wholeExpression at h
  rw [bind_apply] at h
  cases hp : (Rules.forTokens ts).expression (start n ts) with
  | error e' c' =>
    rw [hp] at h
    cases h
  | ok e' c' =>
    simp only [hp, bind_apply, cursor_apply] at h
    cases hend : c'.atEnd with
    | false =>
      rw [hend] at h
      cases h
    | true =>
      rw [hend] at h
      cases herrors : c'.errors[0]? with
      | some first =>
        rw [herrors] at h
        cases h
      | none =>
        rw [herrors] at h
        cases h
        exact ⟨rfl, by simpa [atEnd] using hend, by simpa using herrors⟩

/-- What is accepted as an expression on its own has a derivation. -/
theorem derives_of_wholeExpression (hts : IsEndless ts) {c : Cursor}
    (h : wholeExpression ts (start n ts) = .ok e c) :
    Derives .nearest .expression ts n (.expr e) c.nextId := by
  obtain ⟨hparse, hend, herrors⟩ := expression_of_wholeExpression h
  have hyields := (Rules.sound_atDepth (enoughDepth ts) (enoughDepth ts)).expression (start n ts)
  unfold Parse.Yields at hyields
  unfold Rules.forTokens at hparse
  rw [hparse] at hyields
  obtain ⟨us, hus, hderives⟩ := hyields.2 (by rw [herrors]; rfl)
  obtain rfl : us = ts := by simpa [hend, hts.start_eq] using hus.symm
  -- The parser may find another derivation than this one, but it finds only one.
  obtain ⟨e', m, hnearest⟩ := hderives.nearest n
  obtain ⟨c', hparse', rfl, -⟩ := wholeExpression_of_derives hts hnearest
  rw [h] at hparse'
  cases hparse'
  exact hnearest

/-- What is accepted on its own are the expressions of the grammar. -/
theorem parseExpression_eq_iff_derives (hts : IsEndless ts) :
    parseExpression n ts = ⟨.ok e, m⟩ ↔ Derives .nearest .expression ts n (.expr e) m := by
  constructor
  · intro h
    unfold parseExpression at h
    split at h
    · rename_i hparse
      cases h
      exact derives_of_wholeExpression hts hparse
    · cases h
  · intro h
    obtain ⟨c, hparse, rfl, -⟩ := wholeExpression_of_derives hts h
    rw [parseExpression, hparse]

/-! ### Programs of one expression -/

/-- Of all statements only an expression and its semicolon stand for an expression. -/
theorem Grammar.Derives.exprStmt_of_statement {rule : ElseRule} {o : Bool} {s : Stmt}
    (h : Derives rule (.statement o) ts n (.stmt s) m) (hs : s = .expression e) :
    Derives rule .exprStmt ts n (.stmt s) m := by
  cases h with
  | expression inner => exact inner
  | @forLoop _ _ _ _ i => cases i <;> cases hs
  | _ => cases hs

/-- Of all declarations only an expression and its semicolon stand for an expression. -/
theorem Grammar.Derives.exprStmt_of_declaration {rule : ElseRule} {s : Stmt}
    (h : Derives rule .declaration ts n (.stmt s) m) (hs : s = .expression e) :
    Derives rule .exprStmt ts n (.stmt s) m := by
  cases h with
  | statement inner => exact inner.exprStmt_of_statement hs
  | varDecl inner => cases inner <;> cases hs
  | _ => cases hs

/-- A program is a single expression if it is an expression in front of its last semicolon. -/
theorem derives_singleton_iff {rule : ElseRule} {line : Nat} :
    Derives rule .declarations (ts ++ [sym .semicolon line]) n (.stmts [.expression e]) m ↔
      Derives rule .expression ts n (.expr e) m := by
  constructor
  · intro h
    generalize htokens : ts ++ [sym .semicolon line] = us at h
    cases h with
    | declarations first others =>
      cases others
      cases first.exprStmt_of_declaration rfl with
      | exprStmt value =>
        rw [List.append_nil] at htokens
        obtain ⟨rfl, -⟩ := List.append_inj' htokens rfl
        exact value
  · intro h
    have hstatement : Derives rule .declaration (ts ++ [sym .semicolon line]) n
        (.stmt (.expression e)) m := .statement (.expression (.exprStmt h))
    simpa using hstatement.declarations .noDeclarations

/-- With a semicolon behind them, the expressions of the grammar are parsed as programs of one
statement. -/
theorem parse_eq_singleton_iff_derives (hts : IsEndless ts) {line : Nat} :
    parse n (ts ++ [sym .semicolon line]) = ⟨[.expression e], [], m⟩ ↔
      Derives .nearest .expression ts n (.expr e) m := by
  have hwhole : (ts ++ [sym .semicolon line]).takeWhile (!isEnd ·) = ts ++ [sym .semicolon line] :=
    (hts.append (List.forall_mem_singleton.2 rfl)).takeWhile_eq
  constructor
  · intro h
    have hderives := ((derivable_of_parse (by rw [h])).derives n).1
    rw [h, hwhole] at hderives
    exact derives_singleton_iff.1 hderives
  · intro h
    refine parse_eq_of_derives ?_
    rw [hwhole]
    exact derives_singleton_iff.2 h

/-- The two ways to parse an expression agree. A list of tokens is accepted as an expression on its
own if and only if with a semicolon behind it it is parsed without an error as a program of a single
statement, which is this expression, with the same ids; and then as many ids have been given out. So
nothing that has been recorded inside of an expression is lost if it is parsed on its own. -/
theorem parseExpression_agrees_with_parse (hts : IsEndless ts) (firstId line : Nat) :
    (∀ e, (parseExpression firstId ts).outcome = .ok e ↔
      (parse firstId (ts ++ [sym .semicolon line])).errors = [] ∧
        (parse firstId (ts ++ [sym .semicolon line])).statements = [.expression e]) ∧
    (∀ e, (parseExpression firstId ts).outcome = .ok e →
      (parseExpression firstId ts).nextId =
        (parse firstId (ts ++ [sym .semicolon line])).nextId) ∧
    ((wholeExpression ts).problems (start firstId ts) ≠ [] →
      ∃ error, (parseExpression firstId ts).outcome = .error error) := by
  have hiff (e m) : parseExpression firstId ts = ⟨.ok e, m⟩ ↔
      parse firstId (ts ++ [sym .semicolon line]) = ⟨[.expression e], [], m⟩ := by
    rw [parseExpression_eq_iff_derives hts, parse_eq_singleton_iff_derives hts]
  have hok {e} (h : (parseExpression firstId ts).outcome = .ok e) :
      parse firstId (ts ++ [sym .semicolon line]) =
        ⟨[.expression e], [], (parseExpression firstId ts).nextId⟩ :=
    (hiff _ _).1 (by rw [← h])
  refine ⟨fun e ↦ ⟨fun h ↦ ?_, fun h ↦ ?_⟩, fun e h ↦ by rw [hok h], fun h ↦ ?_⟩
  · rw [hok h]
    exact ⟨rfl, rfl⟩
  · rw [(hiff e (parse firstId (ts ++ [sym .semicolon line])).nextId).2 (by rw [← h.1, ← h.2])]
  · cases hparse : wholeExpression ts (start firstId ts) with
    | error error c => exact ⟨error, by rw [parseExpression, hparse]⟩
    | ok e c =>
      obtain ⟨-, -, herrors⟩ := expression_of_wholeExpression hparse
      refine absurd ?_ h
      simp only [Parse.problems, hparse, herrors]

/-- A function without a name is the same expression in front of a semicolon and on its own. If an
operand is missing in its body, this is reported although parsing goes on behind it. -/
theorem parseExpression_agrees_with_parse_lambda :
    let ahead : List Token :=
      [word .funWord 1, sym .leftParen 1, sym .rightParen 1, sym .leftBrace 1]
    let behind : List Token := [sym .semicolon 1, sym .rightBrace 1]
    (∃ e, (parseExpression 0 (ahead ++ named ⟨"x", 1⟩ :: behind)).outcome = .ok e ∧
      (parse 0 (ahead ++ named ⟨"x", 1⟩ :: behind ++ [sym .semicolon 2])).statements =
        [.expression e]) ∧
      ∃ error, (parseExpression 0 (ahead ++ behind)).outcome = .error error := by
  intro ahead behind
  constructor
  · have hts : IsEndless (ahead ++ named ⟨"x", 1⟩ :: behind) := by decide
    have hparse :
        (parseExpression 0 (ahead ++ named ⟨"x", 1⟩ :: behind)).outcome.isOk = true := by
      decide +kernel
    cases houtcome : (parseExpression 0 (ahead ++ named ⟨"x", 1⟩ :: behind)).outcome with
    | error error =>
      rw [houtcome] at hparse
      cases hparse
    | ok e => exact ⟨e, rfl, (((parseExpression_agrees_with_parse hts 0 2).1 e).1 houtcome).2⟩
  · have hts : IsEndless (ahead ++ behind) := by decide
    -- The error is there as one recorded on the way and as the error of the whole.
    have hproblems : (wholeExpression (ahead ++ behind)).problems (start 0 (ahead ++ behind)) =
        [⟨.noExpression, sym .semicolon 1⟩, ⟨.noExpression, sym .semicolon 1⟩] := by
      decide +kernel
    refine (parseExpression_agrees_with_parse hts 0 2).2.2 ?_
    rw [hproblems]
    exact List.cons_ne_nil _ _

end LexScript
