import LexScript.Program.Printer
import LexScript.Proofs.Printing.Lexemes

/-!
# The tokens of printed programs

Without looking at blanks, a printed program is a list of token kinds, which a tree determines.
If the contents of these tokens are spelled, scanning a printed program yields exactly them: the
printer leaves between any two tokens what keeps them apart.

An infinite literal is printed as a name, so its kind is that of an identifier.

## Main definitions

* `Expr.kinds`, `Stmt.kinds`, `programKinds` : the token kinds of printed trees.

## Main statements

* `Expr.scans`, `Stmt.scans` : the text of a tree is scanned as the kinds of the tree.
* `scans_printProgram` : so is the text of a program.
-/

namespace LexScript

/-! ### Kinds -/

/-- The token kind of a printed constant. -/
def Literal.kind : Literal → TokenKind
  | number x => if x.isInfinite then .identifier x.literalText else .number x.literalText
  | string s => .string s
  | boolean true => .keyword .trueWord
  | boolean false => .keyword .falseWord
  | nil => .keyword .nilWord

/-- The token kinds of identifiers with commas between them. -/
def identKinds : List Ident → List TokenKind
  | [] => []
  | [x] => [.identifier x.text]
  | x :: y :: xs => .identifier x.text :: .symbol .comma :: identKinds (y :: xs)

mutual

/-- The token kinds of a printed expression. -/
def Expr.kinds : Expr → List TokenKind
  | .literal _ value => [value.kind]
  | .grouping _ inner => .symbol .leftParen :: (inner.kinds ++ [.symbol .rightParen])
  | .unary _ op _ operand => op.kind :: operand.kinds
  | .binary _ op _ left right => left.kinds ++ op.kind :: right.kinds
  | .logical _ op _ left right => left.kinds ++ op.kind :: right.kinds
  | .read _ name => [.identifier name.text]
  | .assign _ name value => .identifier name.text :: .symbol .equal :: value.kinds
  | .call _ callee _ arguments =>
    callee.kinds ++ .symbol .leftParen :: (argumentKinds arguments ++ [.symbol .rightParen])
  | .lambda _ _ params body =>
    .keyword .funWord :: .symbol .leftParen ::
      (identKinds params ++ .symbol .rightParen :: blockKinds body)
  | .get _ object name => object.kinds ++ [.symbol .dot, .identifier name.text]
  | .set _ object name value =>
    object.kinds ++ .symbol .dot :: .identifier name.text :: .symbol .equal :: value.kinds
  | .this _ _ => [.keyword .thisWord]
  | .super _ _ method => [.keyword .superWord, .symbol .dot, .identifier method.text]

/-- The token kinds of expressions with commas between them. -/
def argumentKinds : List Expr → List TokenKind
  | [] => []
  | e :: es => e.kinds ++ furtherKinds es

/-- The token kinds of expressions with a comma before each. -/
def furtherKinds : List Expr → List TokenKind
  | [] => []
  | e :: es => .symbol .comma :: (e.kinds ++ furtherKinds es)

/-- The token kinds of a printed statement. -/
def Stmt.kinds : Stmt → List TokenKind
  | .expression e => e.kinds ++ [.symbol .semicolon]
  | .print _ value => .keyword .printWord :: (value.kinds ++ [.symbol .semicolon])
  | .varDecl name none =>
    [.keyword .varWord, .identifier name.text, .symbol .semicolon]
  | .varDecl name (some value) =>
    .keyword .varWord :: .identifier name.text :: .symbol .equal ::
      (value.kinds ++ [.symbol .semicolon])
  | .block body => blockKinds body
  | .ifElse condition thenBranch none =>
    .keyword .ifWord :: .symbol .leftParen ::
      (condition.kinds ++ .symbol .rightParen :: thenBranch.kinds)
  | .ifElse condition thenBranch (some elseBranch) =>
    .keyword .ifWord :: .symbol .leftParen ::
      (condition.kinds ++ .symbol .rightParen ::
        (thenBranch.kinds ++ .keyword .elseWord :: elseBranch.kinds))
  | .whileLoop condition body =>
    .keyword .whileWord :: .symbol .leftParen ::
      (condition.kinds ++ .symbol .rightParen :: body.kinds)
  | .funDecl decl => .keyword .funWord :: decl.kinds
  | .returns _ none => [.keyword .returnWord, .symbol .semicolon]
  | .returns _ (some value) => .keyword .returnWord :: (value.kinds ++ [.symbol .semicolon])
  | .classDecl name none methods =>
    .keyword .classWord :: .identifier name.text :: .symbol .leftBrace ::
      (methodKinds methods ++ [.symbol .rightBrace])
  | .classDecl name (some s) methods =>
    .keyword .classWord :: .identifier name.text :: .symbol .less :: .identifier s.ident.text ::
      .symbol .leftBrace :: (methodKinds methods ++ [.symbol .rightBrace])

/-- The token kinds of a function from its name on. -/
def FunctionDecl.kinds : FunctionDecl → List TokenKind
  | .mk name params body =>
    .identifier name.text :: .symbol .leftParen ::
      (identKinds params ++ .symbol .rightParen :: blockKinds body)

/-- The token kinds of a block. -/
def blockKinds (body : List Stmt) : List TokenKind :=
  .symbol .leftBrace :: (programKinds body ++ [.symbol .rightBrace])

/-- The token kinds of statements one behind the other. -/
def programKinds : List Stmt → List TokenKind
  | [] => []
  | s :: ss => s.kinds ++ programKinds ss

/-- The token kinds of methods one behind the other. -/
def methodKinds : List FunctionDecl → List TokenKind
  | [] => []
  | m :: ms => m.kinds ++ methodKinds ms

end

/-! ### Lexemes behind one another -/

theorem Literal.text_eq_lexeme (v : Literal) : v.text = v.kind.lexeme := by
  cases v with
  | number x =>
    simp only [text, kind]
    split <;> rfl
  | boolean b => cases b <;> rfl
  | _ => rfl

/-- The text of a token is scanned as that token. -/
theorem scans_lexeme {k : TokenKind} (hk : k.IsSpelled) (hend : k ≠ .endOfFile)
    {rest : List Char} (hrest : breaksOff rest = true) :
    Scans (k.lexeme.toList ++ rest) [k] rest := by
  cases k with
  | symbol s => exact scans_symbol s (endsSymbol_of_breaksOff hrest)
  | keyword k => exact scans_keyword k hrest
  | identifier name => exact scans_identifier hk hrest
  | string contents =>
    simpa [TokenKind.lexeme] using scans_string hk rest
  | number text => exact scans_number hk hrest
  | endOfFile => exact absurd rfl hend

theorem Literal.kind_ne_endOfFile (v : Literal) : v.kind ≠ .endOfFile := by
  cases v with
  | number x =>
    simp only [kind]
    split <;> simp
  | boolean b => cases b <;> simp [kind]
  | _ => simp [kind]

namespace Scans

variable {c : Char} {cs rest : List Char} {k : TokenKind} {ks : List TokenKind}

theorem skip (h : Piece.at c cs = (.gap, 0)) (hcs : Scans cs ks rest) : Scans (c :: cs) ks rest :=
  (of_gap h).append hcs

theorem step (h : Piece.at c cs = (.token k, 0)) (hcs : Scans cs ks rest) :
    Scans (c :: cs) (k :: ks) rest := (of_token h).append hcs

theorem word (w : Keyword) (hcs : breaksOff cs = true) (h : Scans cs ks rest) :
    Scans (w.spelling.toList ++ cs) (.keyword w :: ks) rest := (scans_keyword w hcs).append h

theorem lexeme (hk : k.IsSpelled) (hend : k ≠ .endOfFile) (hcs : breaksOff cs = true)
    (h : Scans cs ks rest) : Scans (k.lexeme.toList ++ cs) (k :: ks) rest :=
  (scans_lexeme hk hend hcs).append h

theorem indent (depth : Nat) (h : Scans cs ks rest) :
    Scans ((indentation depth).toList ++ cs) ks rest := by
  rw [indentation, String.toList_ofList]
  exact (blanks _ cs).append h

theorem name {x : String} (hx : TokenKind.IsSpelled (.identifier x)) (hcs : breaksOff cs = true)
    (h : Scans cs ks rest) : Scans (x.toList ++ cs) (.identifier x :: ks) rest :=
  (scans_identifier hx hcs).append h

end Scans

theorem breaksOff_point {name : String} (h : IsIdentifier name.toList) (rest : List Char) :
    breaksOff ('.' :: (name.toList ++ rest)) = true := by
  obtain ⟨c, ds, hname, hc, -⟩ := h
  have := isDigit_eq_false_of_startsWord hc
  simp [breaksOff, hname, this, continuesWord]

/-! ### First characters of operands -/

theorem EndsSymbol.append {cs ds : List Char} (h : EndsSymbol cs) (h' : EndsSymbol ds) :
    EndsSymbol (cs ++ ds) := by
  cases cs with
  | nil => exact h'
  | cons c cs => simpa [EndsSymbol] using h

theorem EndsSymbol.cons {c : Char} (h : c ≠ '=' ∧ c ≠ '/') (cs : List Char) :
    EndsSymbol (c :: cs) := by
  simpa [EndsSymbol] using h

theorem endsSymbol_identifier {cs : List Char} (h : IsIdentifier cs) : EndsSymbol cs := by
  obtain ⟨c, ds, rfl, hc, -⟩ := h
  refine .cons ⟨?_, ?_⟩ ds
  all_goals
    rintro rfl
    exact absurd hc (by decide)

theorem endsSymbol_numeral {cs : List Char} (h : IsNumeral cs) : EndsSymbol cs := by
  obtain ⟨c, ds, rfl, hc⟩ : ∃ c ds, cs = c :: ds ∧ c.isDigit = true := by
    cases h with
    | whole hne h =>
      obtain ⟨c, ds, rfl⟩ := List.exists_cons_of_ne_nil hne
      exact ⟨c, ds, rfl, h c (by simp)⟩
    | point hne _ h =>
      obtain ⟨c, ds, rfl⟩ := List.exists_cons_of_ne_nil hne
      exact ⟨c, _, rfl, h c (by simp)⟩
  refine .cons ⟨?_, ?_⟩ ds
  all_goals
    rintro rfl
    exact absurd hc (by decide)

theorem Literal.endsSymbol (v : Literal) (h : v.kind.IsSpelled) : EndsSymbol v.text.toList := by
  cases v with
  | number x =>
    simp only [kind] at h
    split at h
    · exact endsSymbol_identifier h
    · exact endsSymbol_numeral h
  | string s =>
    simp only [text, String.toList_append, String.reduceToList]
    exact .cons (by decide) _
  | boolean b => cases b <;> exact .cons (by decide) _
  | nil => exact .cons (by decide) _

/-- The text of an expression does not continue a symbol in front of it. -/
theorem Expr.endsSymbol : (e : Expr) → (∀ k ∈ e.kinds, k.IsSpelled) → EndsSymbol e.text.toList
  | .literal _ v, h => by
    rw [Expr.text]
    exact v.endsSymbol (h v.kind (by simp [Expr.kinds]))
  | .unary _ op _ e, h => by
    simp only [Expr.text, String.toList_append]
    refine .append ?_ (e.endsSymbol fun k hk ↦ h k (by simp [Expr.kinds, hk]))
    cases op <;> exact .cons (by decide) _
  | .binary _ op _ l r, h => by
    simp only [Expr.text, String.toList_append, List.append_assoc]
    exact (l.endsSymbol fun k hk ↦ h k (by simp [Expr.kinds, hk])).append (.cons (by decide) _)
  | .logical _ op _ l r, h => by
    simp only [Expr.text, String.toList_append, List.append_assoc]
    exact (l.endsSymbol fun k hk ↦ h k (by simp [Expr.kinds, hk])).append (.cons (by decide) _)
  | .read _ x, h => by
    rw [Expr.text]
    exact endsSymbol_identifier (h (.identifier x.text) (by simp [Expr.kinds]))
  | .assign _ x e, h => by
    simp only [Expr.text, String.toList_append, List.append_assoc]
    exact (endsSymbol_identifier (h (.identifier x.text) (by simp [Expr.kinds]))).append
      (.cons (by decide) _)
  | .call _ e _ es, h => by
    simp only [Expr.text, String.toList_append, List.append_assoc]
    exact (e.endsSymbol fun k hk ↦ h k (by simp [Expr.kinds, hk])).append (.cons (by decide) _)
  | .get _ e x, h => by
    simp only [Expr.text, String.toList_append, List.append_assoc]
    exact (e.endsSymbol fun k hk ↦ h k (by simp [Expr.kinds, hk])).append (.cons (by decide) _)
  | .set _ e x e', h => by
    simp only [Expr.text, String.toList_append, List.append_assoc]
    exact (e.endsSymbol fun k hk ↦ h k (by simp [Expr.kinds, hk])).append (.cons (by decide) _)
  | .grouping .., _ | .lambda .., _ | .this .., _ | .super .., _ => by
    simp only [Expr.text, String.toList_append, List.append_assoc]
    exact .cons (by decide) _

/-! ### Printed trees -/

theorem scans_identList {xs : List Ident} (h : ∀ k ∈ identKinds xs, k.IsSpelled)
    {rest : List Char} (hrest : breaksOff rest = true) :
    Scans ((identList xs).toList ++ rest) (identKinds xs) rest := by
  induction xs with
  | nil => exact .nil rest
  | cons x xs ih =>
    cases xs with
    | nil =>
      simp only [identKinds, List.forall_mem_cons] at h
      simpa [identList, identKinds] using Scans.name h.1 hrest (.nil rest)
    | cons y xs =>
      rw [identKinds, List.forall_mem_cons, List.forall_mem_cons] at h
      have ih := ih h.2.2
      simp only [identList, List.map_cons, String.intercalate_cons_cons, String.toList_append,
        String.reduceToList, List.append_assoc, List.cons_append, List.nil_append] at ih ⊢
      exact .name h.1 rfl (.step rfl (.skip rfl ih))

theorem breaksOff_furtherText (es : List Expr) (rest : List Char) :
    breaksOff ((furtherText es).toList ++ ')' :: rest) = true := by
  cases es with
  | nil =>
    rw [furtherText]
    rfl
  | cons e es =>
    simp only [furtherText, String.toList_append, List.append_assoc]
    rfl

theorem breaksOff_classBody (depth : Nat) (ms : List FunctionDecl) (rest : List Char) :
    breaksOff ((classBody depth ms).toList ++ rest) = true := by
  cases ms with
  | nil =>
    rw [classBody]
    rfl
  | cons m ms =>
    simp only [classBody, String.toList_append, List.append_assoc]
    rfl

mutual

theorem Expr.scans : (e : Expr) → (∀ k ∈ e.kinds, k.IsSpelled) → {rest : List Char} →
    breaksOff rest = true → Scans (e.text.toList ++ rest) e.kinds rest
  | .literal _ v, h, rest, hrest => by
    have h := h v.kind (by simp [Expr.kinds])
    rw [Expr.text, Literal.text_eq_lexeme, Expr.kinds]
    exact scans_lexeme h v.kind_ne_endOfFile hrest
  | .grouping _ e, h, rest, hrest => by
    simp only [Expr.kinds, List.forall_mem_cons, List.forall_mem_append] at h
    simp only [Expr.text, Expr.kinds, String.toList_append, String.reduceToList,
      List.append_assoc, List.cons_append, List.nil_append]
    exact .step rfl (.append (e.scans h.2.1 rfl) (.step rfl (.nil _)))
  | .unary _ op _ e, h, rest, hrest => by
    simp only [Expr.kinds, List.forall_mem_cons] at h
    simp only [Expr.text, Expr.kinds, String.toList_append, List.append_assoc]
    have hend : EndsSymbol (e.text.toList ++ rest) :=
      (e.endsSymbol h.2).append (endsSymbol_of_breaksOff hrest)
    have he := e.scans h.2 hrest
    cases op with
    | not => exact (scans_symbol .bang hend).append he
    | negate => exact (scans_symbol .minus hend).append he
  | .binary _ op _ l r, h, rest, hrest => by
    simp only [Expr.kinds, List.forall_mem_cons, List.forall_mem_append] at h
    simp only [Expr.text, Expr.kinds, String.toList_append, String.reduceToList,
      List.append_assoc, List.cons_append, List.nil_append]
    exact .append (l.scans h.1 rfl) (.skip rfl
      (.lexeme h.2.1 (by cases op <;> simp [BinaryOp.kind]) rfl
        (.skip rfl (r.scans h.2.2 hrest))))
  | .logical _ op _ l r, h, rest, hrest => by
    simp only [Expr.kinds, List.forall_mem_cons, List.forall_mem_append] at h
    simp only [Expr.text, Expr.kinds, String.toList_append, String.reduceToList,
      List.append_assoc, List.cons_append, List.nil_append]
    exact .append (l.scans h.1 rfl) (.skip rfl
      (.lexeme h.2.1 (by cases op <;> simp [LogicalOp.kind]) rfl
        (.skip rfl (r.scans h.2.2 hrest))))
  | .read _ x, h, rest, hrest => by
    simp only [Expr.kinds, List.forall_mem_cons] at h
    rw [Expr.text, Expr.kinds]
    exact .name h.1 hrest (.nil _)
  | .assign _ x e, h, rest, hrest => by
    simp only [Expr.kinds, List.forall_mem_cons] at h
    simp only [Expr.text, Expr.kinds, String.toList_append, String.reduceToList,
      List.append_assoc, List.cons_append, List.nil_append]
    exact .name h.1 rfl (.skip rfl (.step rfl (.skip rfl (e.scans h.2.2 hrest))))
  | .call _ e _ es, h, rest, hrest => by
    simp only [Expr.kinds, List.forall_mem_append, List.forall_mem_cons] at h
    simp only [Expr.text, Expr.kinds, String.toList_append, String.reduceToList,
      List.append_assoc, List.cons_append, List.nil_append]
    exact .append (e.scans h.1 rfl) (.step rfl (.append (scans_argumentText es h.2.2.1 _)
      (.step rfl (.nil _))))
  | .lambda _ _ xs ss, h, rest, hrest => by
    simp only [Expr.kinds, List.forall_mem_append, List.forall_mem_cons] at h
    simp only [Expr.text, Expr.kinds, String.toList_append, String.reduceToList,
      List.append_assoc, List.cons_append, List.nil_append]
    exact .word .funWord rfl (.skip rfl (.step rfl (.append (scans_identList h.2.2.1 rfl)
      (.step rfl (.skip rfl (scans_blockText 0 ss h.2.2.2.2 rest))))))
  | .get _ e x, h, rest, hrest => by
    simp only [Expr.kinds, List.forall_mem_append, List.forall_mem_cons] at h
    simp only [Expr.text, Expr.kinds, String.toList_append, String.reduceToList,
      List.append_assoc, List.cons_append, List.nil_append]
    exact .append (e.scans h.1 (breaksOff_point h.2.2.1 rest))
      (.step rfl (.name h.2.2.1 hrest (.nil _)))
  | .set _ e x e', h, rest, hrest => by
    simp only [Expr.kinds, List.forall_mem_append, List.forall_mem_cons] at h
    simp only [Expr.text, Expr.kinds, String.toList_append, String.reduceToList,
      List.append_assoc, List.cons_append, List.nil_append]
    exact .append (e.scans h.1 (breaksOff_point h.2.2.1 _)) (.step rfl (.name h.2.2.1 rfl
      (.skip rfl (.step rfl (.skip rfl (e'.scans h.2.2.2.2 hrest))))))
  | .this .., _, rest, hrest => by
    rw [Expr.text, Expr.kinds]
    exact scans_keyword .thisWord hrest
  | .super _ _ x, h, rest, hrest => by
    simp only [Expr.kinds, List.forall_mem_cons] at h
    simp only [Expr.text, Expr.kinds, String.toList_append, String.reduceToList,
      List.cons_append, List.nil_append]
    exact .word .superWord (breaksOff_point h.2.2.1 rest)
      (.step rfl (.name h.2.2.1 hrest (.nil _)))

theorem scans_argumentText : (es : List Expr) → (∀ k ∈ argumentKinds es, k.IsSpelled) →
    (rest : List Char) →
    Scans ((argumentText es).toList ++ ')' :: rest) (argumentKinds es) (')' :: rest)
  | [], _, _ => by
    rw [argumentText, argumentKinds]
    exact .nil _
  | e :: es, h, rest => by
    simp only [argumentKinds, List.forall_mem_append] at h
    simp only [argumentText, argumentKinds, String.toList_append, List.append_assoc]
    exact .append (e.scans h.1 (breaksOff_furtherText es rest)) (scans_furtherText es h.2 rest)

theorem scans_furtherText : (es : List Expr) → (∀ k ∈ furtherKinds es, k.IsSpelled) →
    (rest : List Char) →
    Scans ((furtherText es).toList ++ ')' :: rest) (furtherKinds es) (')' :: rest)
  | [], _, _ => by
    rw [furtherText, furtherKinds]
    exact .nil _
  | e :: es, h, rest => by
    simp only [furtherKinds, List.forall_mem_cons, List.forall_mem_append] at h
    simp only [furtherText, furtherKinds, String.toList_append, String.reduceToList,
      List.append_assoc, List.cons_append, List.nil_append]
    exact .step rfl (.skip rfl (.append (e.scans h.2.1 (breaksOff_furtherText es rest))
      (scans_furtherText es h.2.2 rest)))

theorem Stmt.scans (depth : Nat) : (s : Stmt) → (∀ k ∈ s.kinds, k.IsSpelled) →
    (rest : List Char) → Scans ((s.text depth).toList ++ rest) s.kinds rest
  | .expression e, h, rest => by
    simp only [Stmt.kinds, List.forall_mem_append] at h
    simp only [Stmt.text, Stmt.kinds, String.toList_append, String.reduceToList,
      List.append_assoc, List.cons_append, List.nil_append]
    exact .append (e.scans h.1 rfl) (.step rfl (.nil _))
  | .print _ e, h, rest => by
    simp only [Stmt.kinds, List.forall_mem_cons, List.forall_mem_append] at h
    simp only [Stmt.text, Stmt.kinds, String.toList_append, String.reduceToList,
      List.append_assoc, List.cons_append, List.nil_append]
    exact .word .printWord rfl (.skip rfl (.append (e.scans h.2.1 rfl) (.step rfl (.nil _))))
  | .varDecl x none, h, rest => by
    simp only [Stmt.kinds, List.forall_mem_cons] at h
    simp only [Stmt.text, Stmt.kinds, String.toList_append, String.reduceToList,
      List.append_assoc, List.cons_append, List.nil_append]
    exact .word .varWord rfl (.skip rfl (.name h.2.1 rfl (.step rfl (.nil _))))
  | .varDecl x (some e), h, rest => by
    simp only [Stmt.kinds, List.forall_mem_cons, List.forall_mem_append] at h
    simp only [Stmt.text, Stmt.kinds, String.toList_append, String.reduceToList,
      List.append_assoc, List.cons_append, List.nil_append]
    exact .word .varWord rfl (.skip rfl (.name h.2.1 rfl (.skip rfl (.step rfl (.skip rfl
      (.append (e.scans h.2.2.2.1 rfl) (.step rfl (.nil _))))))))
  | .block ss, h, rest => by
    simp only [Stmt.kinds] at h
    rw [Stmt.text, Stmt.kinds]
    exact scans_blockText depth ss h rest
  | .ifElse e s none, h, rest => by
    simp only [Stmt.kinds, List.forall_mem_cons, List.forall_mem_append] at h
    simp only [Stmt.text, Stmt.kinds, String.toList_append, String.reduceToList,
      List.append_assoc, List.cons_append, List.nil_append]
    exact .word .ifWord rfl (.skip rfl (.step rfl (.append (e.scans h.2.2.1 rfl)
      (.step rfl (.skip rfl (s.scans depth h.2.2.2.2 rest))))))
  | .ifElse e s (some s'), h, rest => by
    simp only [Stmt.kinds, List.forall_mem_cons, List.forall_mem_append] at h
    simp only [Stmt.text, Stmt.kinds, String.toList_append, String.reduceToList,
      List.append_assoc, List.cons_append, List.nil_append]
    exact .word .ifWord rfl (.skip rfl (.step rfl (.append (e.scans h.2.2.1 rfl)
      (.step rfl (.skip rfl (.append (s.scans depth h.2.2.2.2.1 _) (.skip rfl
        (.word .elseWord rfl (.skip rfl (s'.scans depth h.2.2.2.2.2.2 rest))))))))))
  | .whileLoop e s, h, rest => by
    simp only [Stmt.kinds, List.forall_mem_cons, List.forall_mem_append] at h
    simp only [Stmt.text, Stmt.kinds, String.toList_append, String.reduceToList,
      List.append_assoc, List.cons_append, List.nil_append]
    exact .word .whileWord rfl (.skip rfl (.step rfl (.append (e.scans h.2.2.1 rfl)
      (.step rfl (.skip rfl (s.scans depth h.2.2.2.2 rest))))))
  | .funDecl f, h, rest => by
    simp only [Stmt.kinds, List.forall_mem_cons] at h
    simp only [Stmt.text, Stmt.kinds, String.toList_append, String.reduceToList,
      List.cons_append, List.nil_append]
    exact .word .funWord rfl (.skip rfl (f.scans depth h.2 rest))
  | .returns _ none, _, rest => by
    rw [Stmt.text, Stmt.kinds]
    exact .word .returnWord rfl (.step rfl (.nil _))
  | .returns _ (some e), h, rest => by
    simp only [Stmt.kinds, List.forall_mem_cons, List.forall_mem_append] at h
    simp only [Stmt.text, Stmt.kinds, String.toList_append, String.reduceToList,
      List.append_assoc, List.cons_append, List.nil_append]
    exact .word .returnWord rfl (.skip rfl (.append (e.scans h.2.1 rfl) (.step rfl (.nil _))))
  | .classDecl x none ms, h, rest => by
    simp only [Stmt.kinds, List.forall_mem_cons, List.forall_mem_append] at h
    simp only [Stmt.text, superclassText, Stmt.kinds, String.toList_append, String.reduceToList,
      List.append_assoc, List.cons_append, List.nil_append]
    have body := scans_classBody depth ms h.2.2.2.1 rest
    exact .word .classWord rfl (.skip rfl (.name h.2.1 (breaksOff_classBody depth ms rest) body))
  | .classDecl x (some y) ms, h, rest => by
    simp only [Stmt.kinds, List.forall_mem_cons, List.forall_mem_append] at h
    simp only [Stmt.text, superclassText, Stmt.kinds, String.toList_append, String.reduceToList,
      List.append_assoc, List.cons_append, List.nil_append]
    have body := scans_classBody depth ms h.2.2.2.2.2.1 rest
    exact .word .classWord rfl (.skip rfl (.name h.2.1 rfl (.skip rfl (.step rfl (.skip rfl
      (.name h.2.2.2.1 (breaksOff_classBody depth ms rest) body))))))

theorem FunctionDecl.scans (depth : Nat) : (f : FunctionDecl) → (∀ k ∈ f.kinds, k.IsSpelled) →
    (rest : List Char) → Scans ((f.text depth).toList ++ rest) f.kinds rest
  | .mk x xs ss, h, rest => by
    simp only [FunctionDecl.kinds, List.forall_mem_append, List.forall_mem_cons] at h
    simp only [FunctionDecl.text, FunctionDecl.kinds, String.toList_append, String.reduceToList,
      List.append_assoc, List.cons_append, List.nil_append]
    exact .name h.1 rfl (.step rfl (.append (scans_identList h.2.2.1 rfl)
      (.step rfl (.skip rfl (scans_blockText depth ss h.2.2.2.2 rest)))))

theorem scans_blockText (depth : Nat) : (ss : List Stmt) → (∀ k ∈ blockKinds ss, k.IsSpelled) →
    (rest : List Char) → Scans ((blockText depth ss).toList ++ rest) (blockKinds ss) rest
  | [], _, _ => by
    rw [blockText, blockKinds, programKinds]
    exact .step rfl (.step rfl (.nil _))
  | s :: ss, h, rest => by
    simp only [blockKinds, programKinds, List.forall_mem_cons, List.forall_mem_append] at h
    simp only [blockText, blockKinds, programKinds, String.toList_append, String.reduceToList,
      List.append_assoc, List.cons_append, List.nil_append]
    exact .step rfl (.skip rfl (.indent _ (.append (s.scans (depth + 1) h.2.1.1 _)
      (.skip rfl (.append (scans_statementLines (depth + 1) ss h.2.1.2 _)
        (.indent _ (.step rfl (.nil _))))))))

theorem scans_statementLines (depth : Nat) : (ss : List Stmt) →
    (∀ k ∈ programKinds ss, k.IsSpelled) → (rest : List Char) →
    Scans ((statementLines depth ss).toList ++ rest) (programKinds ss) rest
  | [], _, _ => by
    rw [statementLines, programKinds]
    exact .nil _
  | s :: ss, h, rest => by
    simp only [programKinds, List.forall_mem_append] at h
    simp only [statementLines, programKinds, String.toList_append, String.reduceToList,
      List.append_assoc, List.cons_append, List.nil_append]
    exact .indent _ (.append (s.scans depth h.1 _) (.skip rfl
      (scans_statementLines depth ss h.2 rest)))

theorem scans_classBody (depth : Nat) : (ms : List FunctionDecl) →
    (∀ k ∈ methodKinds ms, k.IsSpelled) → (rest : List Char) →
    Scans ((classBody depth ms).toList ++ rest)
      (.symbol .leftBrace :: (methodKinds ms ++ [.symbol .rightBrace])) rest
  | [], _, _ => by
    rw [classBody, methodKinds]
    exact .skip rfl (.step rfl (.step rfl (.nil _)))
  | m :: ms, h, rest => by
    simp only [methodKinds, List.forall_mem_append] at h
    simp only [classBody, methodKinds, String.toList_append, String.reduceToList,
      List.append_assoc, List.cons_append, List.nil_append]
    exact .skip rfl (.step rfl (.skip rfl (.indent _ (.append (m.scans (depth + 1) h.1 _)
      (.skip rfl (.append (scans_methodLines (depth + 1) ms h.2 _)
        (.indent _ (.step rfl (.nil _)))))))))

theorem scans_methodLines (depth : Nat) : (ms : List FunctionDecl) →
    (∀ k ∈ methodKinds ms, k.IsSpelled) → (rest : List Char) →
    Scans ((methodLines depth ms).toList ++ rest) (methodKinds ms) rest
  | [], _, _ => by
    rw [methodLines, methodKinds]
    exact .nil _
  | m :: ms, h, rest => by
    simp only [methodKinds, List.forall_mem_append] at h
    simp only [methodLines, methodKinds, String.toList_append, String.reduceToList,
      List.append_assoc, List.cons_append, List.nil_append]
    exact .indent _ (.append (m.scans depth h.1 _) (.skip rfl
      (scans_methodLines depth ms h.2 rest)))

end

/-- The text of a program is scanned as the kinds of the program. -/
theorem scans_printProgram {ss : List Stmt} (h : ∀ k ∈ programKinds ss, k.IsSpelled) :
    Scans (printProgram ss).toList (programKinds ss) [] := by
  induction ss with
  | nil =>
    rw [programKinds]
    exact .nil _
  | cons s ss ih =>
    rw [programKinds, List.forall_mem_append] at h
    rw [programKinds]
    cases ss with
    | nil =>
      have hs := s.scans 0 h.1 []
      simpa [printProgram, programKinds] using hs
    | cons s' ss =>
      have htext : printProgram (s :: s' :: ss) = s.text 0 ++ "\n" ++ printProgram (s' :: ss) := by
        simp [printProgram, String.intercalate_cons_cons]
      simp only [htext, String.toList_append, String.reduceToList, List.append_assoc,
        List.cons_append, List.nil_append]
      exact .append (s.scans 0 h.1 _) (.skip rfl (ih h.2))

/-- Scanning a printed program yields tokens of its kinds and the end. -/
theorem scan_printProgram {ss : List Stmt} (h : ∀ k ∈ programKinds ss, k.IsSpelled) :
    ∃ (ts : List Token) (line : Nat), ts.map Token.kind = programKinds ss ∧
      scan (printProgram ss) = (ts ++ [(⟨.endOfFile, line⟩ : Token)]).map Item.token := by
  obtain ⟨ts, line, hts, hscan⟩ := scans_printProgram h 1
  exact ⟨ts, line, hts, by simp [scan_eq, hscan, scanFrom]⟩

end LexScript
