import LexScript.Program.Alike
import LexScript.Proofs.Grammar.Phrases
import LexScript.Proofs.Printing.Kinds

/-!
# Printed programs are derived again

Tokens of the kinds of a derived tree have a derivation too, whatever their lines are and from
any first id on. The tree of that derivation is printed as the same text, and it is alike the
tree that was printed unless that one has an infinite literal: it is read as a name.

No parentheses are printed but those of groupings, so the derivation follows that of the printed
tree production by production. A loop with three clauses is the exception, being printed as the
blocks and the loop that it stands for. What is printed never ends with a conditional that lacks
an `else` unless what was read did, so each `else` stays where it was.

## Main definitions

* `Expr.isFinite`, `Stmt.isFinite`, `isFiniteProgram` : trees without an infinite literal.
* `Expr.Echoes`, `Stmt.Echoes` : trees with the same text that are alike if they can be.

## Main statements

* `Grammar.Derives.rereads` : tokens of the kinds of a derived tree are derived to an echo of it.
-/

namespace LexScript

/-! ### Infinite literals -/

/-- Whether a constant is not an infinite number. -/
def Literal.isFinite : Literal → Bool
  | number x => !x.isInfinite
  | _ => true

mutual

/-- Whether no literal in an expression is infinite. -/
def Expr.isFinite : Expr → Bool
  | .literal _ value => value.isFinite
  | .grouping _ inner => inner.isFinite
  | .unary _ _ _ operand => operand.isFinite
  | .binary _ _ _ left right => left.isFinite && right.isFinite
  | .logical _ _ _ left right => left.isFinite && right.isFinite
  | .assign _ _ value => value.isFinite
  | .call _ callee _ arguments => callee.isFinite && isFiniteList arguments
  | .lambda _ _ _ body => isFiniteProgram body
  | .get _ object _ => object.isFinite
  | .set _ object _ value => object.isFinite && value.isFinite
  | .read _ _ | .this _ _ | .super _ _ _ => true

/-- Whether no literal in a list of expressions is infinite. -/
def isFiniteList : List Expr → Bool
  | [] => true
  | e :: es => e.isFinite && isFiniteList es

/-- Whether no literal in a statement is infinite. -/
def Stmt.isFinite : Stmt → Bool
  | .expression e => e.isFinite
  | .print _ value => value.isFinite
  | .varDecl _ none => true
  | .varDecl _ (some value) => value.isFinite
  | .block body => isFiniteProgram body
  | .ifElse condition thenBranch none => condition.isFinite && thenBranch.isFinite
  | .ifElse condition thenBranch (some elseBranch) =>
    condition.isFinite && thenBranch.isFinite && elseBranch.isFinite
  | .whileLoop condition body => condition.isFinite && body.isFinite
  | .funDecl decl => decl.isFinite
  | .returns _ none => true
  | .returns _ (some value) => value.isFinite
  | .classDecl _ _ methods => isFiniteMethods methods

/-- Whether no literal in the body of a function is infinite. -/
def FunctionDecl.isFinite : FunctionDecl → Bool
  | .mk _ _ body => isFiniteProgram body

/-- Whether no literal in a program is infinite. -/
def isFiniteProgram : List Stmt → Bool
  | [] => true
  | s :: ss => s.isFinite && isFiniteProgram ss

/-- Whether no literal in a list of methods is infinite. -/
def isFiniteMethods : List FunctionDecl → Bool
  | [] => true
  | m :: ms => m.isFinite && isFiniteMethods ms

end

/-! ### Echoes -/

/-- The same text, and alike exactly if no literal is infinite. -/
structure Expr.Echoes (e' e : Expr) : Prop where
  text : e'.text = e.text
  alike : e'.alike e = e.isFinite

/-- Expressions that echo others one by one. -/
structure EchoesList (es' es : List Expr) : Prop where
  arguments : argumentText es' = argumentText es
  further : furtherText es' = furtherText es
  length : es'.length = es.length
  alike : alikeExprs es' es = isFiniteList es

/-- The same text at every depth, and alike exactly if no literal is infinite. -/
structure Stmt.Echoes (s' s : Stmt) : Prop where
  text (depth : Nat) : s'.text depth = s.text depth
  alike : s'.alike s = s.isFinite

/-- Statements that echo others one by one. -/
structure EchoesProgram (ss' ss : List Stmt) : Prop where
  texts (depth : Nat) : ss'.map (Stmt.text depth) = ss.map (Stmt.text depth)
  alike : alikeStmts ss' ss = isFiniteProgram ss

/-- The same text at every depth, and alike exactly if no literal is infinite. -/
structure FunctionDecl.Echoes (f' f : FunctionDecl) : Prop where
  text (depth : Nat) : f'.text depth = f.text depth
  alike : f'.alike f = f.isFinite

/-- Methods that echo others one by one. -/
structure EchoesMethods (ms' ms : List FunctionDecl) : Prop where
  texts (depth : Nat) : ms'.map (FunctionDecl.text depth) = ms.map (FunctionDecl.text depth)
  alike : alikeFunctions ms' ms = isFiniteMethods ms

theorem statementLines_eq_join (depth : Nat) (ss : List Stmt) :
    statementLines depth ss =
      String.join ((ss.map (Stmt.text depth)).map fun text ↦
        indentation depth ++ text ++ "\n") := by
  induction ss with
  | nil => rfl
  | cons s ss ih => simp [statementLines, ih]

theorem EchoesProgram.block {ss' ss : List Stmt} (h : EchoesProgram ss' ss) (depth : Nat) :
    blockText depth ss' = blockText depth ss := by
  have htexts := h.texts (depth + 1)
  cases ss with
  | nil =>
    rw [List.map_nil, List.map_eq_nil_iff] at htexts
    rw [htexts]
  | cons s ss =>
    cases ss' with
    | nil => cases htexts
    | cons s' ss' =>
      rw [List.map_cons, List.map_cons, List.cons.injEq] at htexts
      rw [blockText, blockText, statementLines_eq_join, statementLines_eq_join, htexts.1, htexts.2]

theorem methodLines_eq_join (depth : Nat) (ms : List FunctionDecl) :
    methodLines depth ms = String.join
      ((ms.map (FunctionDecl.text depth)).map fun text ↦ indentation depth ++ text ++ "\n") := by
  induction ms with
  | nil => rfl
  | cons m ms ih => simp [methodLines, ih]

theorem EchoesMethods.body {ms' ms : List FunctionDecl} (h : EchoesMethods ms' ms)
    (depth : Nat) : classBody depth ms' = classBody depth ms := by
  have htexts := h.texts (depth + 1)
  cases ms with
  | nil =>
    rw [List.map_nil, List.map_eq_nil_iff] at htexts
    rw [htexts]
  | cons m ms =>
    cases ms' with
    | nil => cases htexts
    | cons m' ms' =>
      rw [List.map_cons, List.map_cons, List.cons.injEq] at htexts
      rw [classBody, classBody, methodLines_eq_join, methodLines_eq_join, htexts.1, htexts.2]

/-! ### Tokens of given kinds -/

namespace Grammar

theorem kinds_eq_cons {us : List Token} {k : TokenKind} {ks : List TokenKind} :
    us.map Token.kind = k :: ks ↔ ∃ line vs, us = ⟨k, line⟩ :: vs ∧ vs.map Token.kind = ks := by
  rw [List.map_eq_cons_iff]
  constructor
  · rintro ⟨⟨kind, line⟩, vs, rfl, rfl, hvs⟩
    exact ⟨line, vs, rfl, hvs⟩
  · rintro ⟨line, vs, rfl, hvs⟩
    exact ⟨⟨k, line⟩, vs, rfl, rfl, hvs⟩

/-- What `Derives.rereads` says of a phrase: tokens of its kinds are, from any id on, a phrase
whose tree echoes that of the phrase. What a loop with three clauses does first is a declaration
in the block that the loop is printed as. -/
def Rereads : Category → Tree → Prop
  | .statement o, .stmt s => ∀ us n, us.map Token.kind = s.kinds → ∃ o' s' m,
      (o' = true → o = true) ∧ Derives .nearest (.statement o') us n (.stmt s') m ∧ s'.Echoes s
  | .forInitializer, .optStmt i => ∀ s, i = some s → ∀ us n, us.map Token.kind = s.kinds →
      ∃ s' m, Derives .nearest .declaration us n (.stmt s') m ∧ s'.Echoes s
  | .optionalExpression, .optExpr i => ∀ e, i = some e → ∀ us n, us.map Token.kind = e.kinds →
      ∃ e' m, Derives .nearest .expression us n (.expr e') m ∧ e'.Echoes e
  | .argumentList, .exprs es => ∀ us n, us.map Token.kind = argumentKinds es →
      ∃ es' m, Derives .nearest .argumentList us n (.exprs es') m ∧ EchoesList es' es
  | .arguments, .exprs es => ∀ us n, us.map Token.kind = argumentKinds es →
      ∃ es' m, Derives .nearest .arguments us n (.exprs es') m ∧ EchoesList es' es
  | c, .names xs => ∀ us n, us.map Token.kind = identKinds xs →
      ∃ xs', Derives .nearest c us n (.names xs') n ∧ xs'.map Ident.text = xs.map Ident.text
  | .block, .stmts ss => ∀ us n, us.map Token.kind = blockKinds ss →
      ∃ ss' m, Derives .nearest .block us n (.stmts ss') m ∧ EchoesProgram ss' ss
  | c, .stmts ss => ∀ us n, us.map Token.kind = programKinds ss →
      ∃ ss' m, Derives .nearest c us n (.stmts ss') m ∧ EchoesProgram ss' ss
  | c, .function f => ∀ us n, us.map Token.kind = f.kinds →
      ∃ f' m, Derives .nearest c us n (.function f') m ∧ f'.Echoes f
  | c, .functions fs => ∀ us n, us.map Token.kind = methodKinds fs →
      ∃ fs' m, Derives .nearest c us n (.functions fs') m ∧ EchoesMethods fs' fs
  | c, .expr e => ∀ us n, us.map Token.kind = e.kinds →
      ∃ e' m, Derives .nearest c us n (.expr e') m ∧ e'.Echoes e
  | c, .stmt s => ∀ us n, us.map Token.kind = s.kinds →
      ∃ s' m, Derives .nearest c us n (.stmt s') m ∧ s'.Echoes s
  | _, _ => True

/-- A number that a token denotes has no sign. -/
theorem isNegative_isNaN_of_constant? {kind : TokenKind} {x : Number}
    (h : constant? kind = some (.number x)) : x.isNegative = false ∧ x.isNaN = false := by
  obtain ⟨text, rfl⟩ : ∃ text, Number.ofText text = x := by
    unfold constant? at h
    split at h <;> cases h
    exact ⟨_, rfl⟩
  exact ⟨Number.isNegative_ofText text, Number.isNaN_ofText text⟩

theorem rereads_constant {kind : TokenKind} {v : Literal} (h : constant? kind = some v)
    (i : Nat) : Rereads .primary (.expr (.literal i v)) := by
  intro us n hus
  simp only [Expr.kinds, kinds_eq_cons, List.map_eq_nil_iff] at hus
  obtain ⟨line, _, rfl, rfl⟩ := hus
  cases v with
  | number x =>
    obtain ⟨hn, hnan⟩ := isNegative_isNaN_of_constant? h
    cases hi : x.isInfinite with
    | true =>
      refine ⟨.read n ⟨x.literalText, line⟩, n + 1, ?_, ?_, ?_⟩
      · simpa [Literal.kind, hi] using Derives.name (x := ⟨x.literalText, line⟩)
      · simp [Expr.text, Literal.text]
      · simp [Expr.alike, Expr.isFinite, Literal.isFinite, hi]
    | false =>
      have hf : x.isFinite = true := by rw [Number.isFinite_eq hnan, hi, Bool.not_false]
      refine ⟨.literal n (.number x), n + 1, .constant ?_, ?_, ?_⟩
      · simp [Literal.kind, hi, constant?, Number.ofText_literalText hn hf]
      · simp [Expr.text]
      · simp [Expr.alike, Literal.alike, Number.equals_self hnan, Expr.isFinite,
          Literal.isFinite, hi]
  | string s =>
    exact ⟨_, _, .constant rfl, by simp [Expr.text],
      by simp [Expr.alike, Literal.alike, Expr.isFinite, Literal.isFinite]⟩
  | boolean b =>
    refine ⟨.literal n (.boolean b), _, .constant ?_, by simp [Expr.text],
      by simp [Expr.alike, Literal.alike, Expr.isFinite, Literal.isFinite]⟩
    cases b <;> rfl
  | nil =>
    exact ⟨_, _, .constant rfl, by simp [Expr.text],
      by simp [Expr.alike, Literal.alike, Expr.isFinite, Literal.isFinite]⟩

/-! ### Lists with commas -/

theorem furtherKinds_of_ne_nil {es : List Expr} (h : es ≠ []) :
    furtherKinds es = .symbol .comma :: argumentKinds es := by
  obtain ⟨e, es, rfl⟩ := List.exists_cons_of_ne_nil h
  rw [furtherKinds, argumentKinds]

theorem identKinds_of_ne_nil {x : Ident} {xs : List Ident} (h : xs ≠ []) :
    identKinds (x :: xs) = .identifier x.text :: .symbol .comma :: identKinds xs := by
  obtain ⟨y, xs, rfl⟩ := List.exists_cons_of_ne_nil h
  rfl

theorem Derives.arguments_ne_nil {rule : ElseRule} {ts : List Token} {es : List Expr}
    {n m : Nat} (h : Derives rule .argumentList ts n (.exprs es) m) : es ≠ [] := by
  cases h <;> simp

theorem Derives.names_ne_nil {rule : ElseRule} {ts : List Token} {xs : List Ident}
    {n m : Nat} (h : Derives rule .parameterList ts n (.names xs) m) : xs ≠ [] := by
  cases h <;> simp

/-! ### Loops with three clauses -/

/-- The body of a printed loop with the increment behind it. -/
theorem rereads_withIncrement {o : Bool} {s : Stmt} {a : Option Expr}
    (hs : Rereads (.statement o) (.stmt s)) (ha : Rereads .optionalExpression (.optExpr a)) :
    Rereads (.statement o) (.stmt (withIncrement a s)) := by
  cases a with
  | none => exact hs
  | some e =>
    intro us n hus
    simp only [withIncrement, Stmt.kinds, blockKinds, programKinds, kinds_eq_cons,
      List.map_eq_append_iff, List.map_eq_nil_iff] at hus
    obtain ⟨l, _, rfl, _, _, rfl, ⟨us, _, rfl, hus, _, _, rfl, ⟨vs, _, rfl, hvs, l', _, rfl, rfl⟩,
      rfl⟩, l'', _, rfl, rfl⟩ := hus
    obtain ⟨o', s', m, -, h, echo⟩ := hs us n hus
    obtain ⟨e', k, h', echo'⟩ := ha e rfl vs m hvs
    refine ⟨false, _, k, by simp, .blockStmt (.block (.declarations (.statement h)
      (.declarations (.statement (.expression (.exprStmt h'))) .noDeclarations))), ?_, ?_⟩
    · intro depth
      simp [withIncrement, Stmt.text, blockText, statementLines, echo.text, echo'.text]
    · simp [withIncrement, Stmt.alike, alikeStmts, Stmt.isFinite, isFiniteProgram, echo.alike,
        echo'.alike]

/-- The condition of a printed loop. -/
theorem rereads_loopCondition {c : Option Expr} (h : Rereads .optionalExpression (.optExpr c))
    (p : Nat) : Rereads .expression (.expr (loopCondition c p).1) := by
  cases c with
  | some e => exact h e rfl
  | none =>
    intro us n hus
    obtain ⟨e, m, he, echoes⟩ := @rereads_constant (.keyword .trueWord) _ rfl p us n hus
    exact ⟨e, m, .value (Derives.operand he).toLevels, echoes⟩

theorem rereads_whileLoop {o : Bool} {e : Expr} {s : Stmt}
    (he : Rereads .expression (.expr e)) (hs : Rereads (.statement o) (.stmt s)) :
    Rereads (.statement o) (.stmt (.whileLoop e s)) := by
  intro us n hus
  simp only [Stmt.kinds, kinds_eq_cons, List.map_eq_append_iff] at hus
  obtain ⟨l, _, rfl, l', _, rfl, us, _, rfl, hus, l'', vs, rfl, hvs⟩ := hus
  obtain ⟨e', m, h, echo⟩ := he us n hus
  obtain ⟨o', s', k, ho, h', echo'⟩ := hs vs m hvs
  exact ⟨o', _, k, ho, .whileLoop h h', fun depth ↦ by simp [Stmt.text, echo.text, echo'.text],
    by simp [Stmt.alike, Stmt.isFinite, echo.alike, echo'.alike]⟩

/-- A printed loop behind what it does first. -/
theorem rereads_withInitializer {o : Bool} {i : Option Stmt} {s : Stmt}
    (hi : Rereads .forInitializer (.optStmt i)) (hs : Rereads (.statement o) (.stmt s)) :
    Rereads (.statement o) (.stmt (withInitializer i s)) := by
  cases i with
  | none => exact hs
  | some s₀ =>
    intro us n hus
    simp only [withInitializer, Stmt.kinds, blockKinds, programKinds, kinds_eq_cons,
      List.map_eq_append_iff, List.map_eq_nil_iff] at hus
    obtain ⟨l, _, rfl, _, _, rfl, ⟨us, _, rfl, hus, vs, _, rfl, hvs, rfl⟩, l', _, rfl, rfl⟩ := hus
    obtain ⟨s₀', m, h, echo⟩ := hi s₀ rfl us n hus
    obtain ⟨o', s', k, -, h', echo'⟩ := hs vs m hvs
    refine ⟨false, _, k, by simp, .blockStmt (.block (.declarations h
      (.declarations (.statement h') .noDeclarations))), ?_, ?_⟩
    · intro depth
      simp [withInitializer, Stmt.text, blockText, statementLines, echo.text, echo'.text]
    · simp [withInitializer, Stmt.alike, alikeStmts, Stmt.isFinite, isFiniteProgram, echo.alike,
        echo'.alike]

/-! ### All phrases -/

theorem Derives.rereads {c : Category} {ts : List Token} {t : Tree} {n m : Nat}
    (h : Derives .nearest c ts n t m) : Rereads c t := by
  induction h with
  | constant h => exact rereads_constant h _
  | name =>
    intro us n hus
    simp only [Expr.kinds, kinds_eq_cons, List.map_eq_nil_iff] at hus
    obtain ⟨line, _, rfl, rfl⟩ := hus
    exact ⟨_, _, .name (x := ⟨_, line⟩), by simp [Expr.text],
      by simp [Expr.alike, Ident.alike, Expr.isFinite]⟩
  | this =>
    intro us n hus
    simp only [Expr.kinds, kinds_eq_cons, List.map_eq_nil_iff] at hus
    obtain ⟨line, _, rfl, rfl⟩ := hus
    exact ⟨_, _, .this, by simp [Expr.text], by simp [Expr.alike, Expr.isFinite]⟩
  | super =>
    intro us n hus
    simp only [Expr.kinds, kinds_eq_cons, List.map_eq_nil_iff] at hus
    obtain ⟨line, _, rfl, l, _, rfl, l', _, rfl, rfl⟩ := hus
    exact ⟨_, _, .super (x := ⟨_, l'⟩), by simp [Expr.text],
      by simp [Expr.alike, Ident.alike, Expr.isFinite]⟩
  | grouping _ ih =>
    intro us n hus
    simp only [Expr.kinds, kinds_eq_cons, List.map_eq_append_iff, List.map_eq_nil_iff] at hus
    obtain ⟨l, _, rfl, us, _, rfl, hus, l', _, rfl, rfl⟩ := hus
    obtain ⟨e, m, he, htext, halike⟩ := ih us n hus
    exact ⟨_, _, .grouping he, by simp [Expr.text, htext],
      by simp [Expr.alike, Expr.isFinite, halike]⟩
  | lambda _ _ ih ih' =>
    intro us n hus
    simp only [Expr.kinds, kinds_eq_cons, List.map_eq_append_iff] at hus
    obtain ⟨line, _, rfl, l, _, rfl, us, _, rfl, hus, l', vs, rfl, hvs⟩ := hus
    obtain ⟨xs, hxs, hnames⟩ := ih us n hus
    obtain ⟨ss, m, hss, echoes⟩ := ih' vs n hvs
    exact ⟨_, _, .lambda hxs hss, by simp [Expr.text, identList, hnames, echoes.block],
      by simp [Expr.alike, alikeIdents, hnames, Expr.isFinite, echoes.alike]⟩
  | operand _ ih =>
    intro us n hus
    obtain ⟨e, m, he, echoes⟩ := ih us n hus
    exact ⟨e, m, .operand he, echoes⟩
  | call _ _ ih ih' =>
    intro us n hus
    simp only [Expr.kinds, kinds_eq_cons, List.map_eq_append_iff, List.map_eq_nil_iff] at hus
    obtain ⟨us, _, rfl, hus, l, _, rfl, vs, _, rfl, hvs, l', _, rfl, rfl⟩ := hus
    obtain ⟨e, m, he, htext, halike⟩ := ih us n hus
    obtain ⟨es, k, hes, echoes⟩ := ih' vs m hvs
    exact ⟨_, _, .call he hes, by simp [Expr.text, htext, echoes.arguments],
      by simp [Expr.alike, Expr.isFinite, halike, echoes.alike]⟩
  | get _ ih =>
    intro us n hus
    simp only [Expr.kinds, kinds_eq_cons, List.map_eq_append_iff, List.map_eq_nil_iff] at hus
    obtain ⟨us, _, rfl, hus, l, _, rfl, l', _, rfl, rfl⟩ := hus
    obtain ⟨e, m, he, htext, halike⟩ := ih us n hus
    exact ⟨_, _, .get (x := ⟨_, l'⟩) he, by simp [Expr.text, htext],
      by simp [Expr.alike, Ident.alike, Expr.isFinite, halike]⟩
  | unprefixed _ ih =>
    intro us n hus
    obtain ⟨e, m, he, echoes⟩ := ih us n hus
    exact ⟨e, m, .unprefixed he, echoes⟩
  | prefixed hop _ ih =>
    intro us n hus
    simp only [Expr.kinds, kind_of_prefix? hop, kinds_eq_cons] at hus
    obtain ⟨l, us, rfl, hus⟩ := hus
    obtain ⟨e, m, he, htext, halike⟩ := ih us n hus
    exact ⟨_, _, .prefixed hop he, by simp [Expr.text, htext],
      by simp [Expr.alike, Expr.isFinite, halike]⟩
  | @tighter l _ e _ _ _ ih =>
    intro us n hus
    have ih : ∃ e' m, Derives .nearest l.operand us n (.expr e') m ∧ e'.Echoes e := by
      cases l <;> exact ih us n hus
    obtain ⟨e', m, he, echoes⟩ := ih
    exact ⟨e', m, .tighter he, echoes⟩
  | @joined l _ _ _ _ _ b _ _ _ _ hop _ _ ih ih' =>
    intro us n hus
    have ih' : ∀ us n, us.map Token.kind = b.kinds →
        ∃ b' m, Derives .nearest l.operand us n (.expr b') m ∧ b'.Echoes b := by
      cases l <;> exact ih'
    obtain ⟨op, rfl, rfl⟩ | ⟨op, rfl, rfl⟩ := Level.join?_cases hop
    all_goals
      simp only [Expr.kinds, kinds_eq_cons, List.map_eq_append_iff] at hus
      obtain ⟨us, _, rfl, hus, line, vs, rfl, hvs⟩ := hus
      obtain ⟨a, m, ha, htext, halike⟩ := ih us n hus
      obtain ⟨b, k, hb, htext', halike'⟩ := ih' vs m hvs
      exact ⟨_, _, .joined hop ha hb, by simp [Expr.text, htext, htext'],
        by simp [Expr.alike, Expr.isFinite, halike, halike']⟩
  | value _ ih =>
    intro us n hus
    obtain ⟨e, m, he, echoes⟩ := ih us n hus
    exact ⟨e, m, .value he, echoes⟩
  | assign _ ih =>
    intro us n hus
    simp only [Expr.kinds, kinds_eq_cons] at hus
    obtain ⟨l, _, rfl, l', us, rfl, hus⟩ := hus
    obtain ⟨e, m, he, htext, halike⟩ := ih us (n + 1) hus
    exact ⟨_, _, .assign (x := ⟨_, l⟩) he, by simp [Expr.text, htext],
      by simp [Expr.alike, Ident.alike, Expr.isFinite, halike]⟩
  | set _ _ ih ih' =>
    intro us n hus
    simp only [Expr.kinds, kinds_eq_cons, List.map_eq_append_iff] at hus
    obtain ⟨us, _, rfl, hus, l, _, rfl, l', _, rfl, l'', vs, rfl, hvs⟩ := hus
    obtain ⟨e, m, he, htext, halike⟩ := ih us n hus
    obtain ⟨e', k, he', htext', halike'⟩ := ih' vs (m + 1) hvs
    exact ⟨_, _, .set (x := ⟨_, l'⟩) he he', by simp [Expr.text, htext, htext'],
      by simp [Expr.alike, Ident.alike, Expr.isFinite, halike, halike']⟩
  | noExpression =>
    intro e he
    cases he
  | someExpression _ ih =>
    rintro _ ⟨⟩ us n hus
    exact ih us n hus
  | noArguments =>
    intro us n hus
    simp only [argumentKinds, List.map_eq_nil_iff] at hus
    subst hus
    exact ⟨[], n, .noArguments, rfl, rfl, rfl, by rw [alikeExprs, isFiniteList]⟩
  | someArguments _ hlen ih =>
    intro us n hus
    obtain ⟨es, m, hes, echoes⟩ := ih us n hus
    exact ⟨es, m, .someArguments hes (by rw [echoes.length]; exact hlen), echoes⟩
  | lastArgument _ ih =>
    intro us n hus
    simp only [argumentKinds, furtherKinds, List.append_nil] at hus
    obtain ⟨e, m, he, htext, halike⟩ := ih us n hus
    exact ⟨_, _, .lastArgument he, by simp [argumentText, furtherText, htext],
      by simp [furtherText, htext], rfl, by simp [alikeExprs, isFiniteList, halike]⟩
  | argument _ others ih ih' =>
    intro us n hus
    simp only [argumentKinds, furtherKinds_of_ne_nil others.arguments_ne_nil, kinds_eq_cons,
      List.map_eq_append_iff] at hus
    obtain ⟨us, _, rfl, hus, l, vs, rfl, hvs⟩ := hus
    obtain ⟨e, m, he, htext, halike⟩ := ih us n hus
    obtain ⟨es, k, hes, echoes⟩ := ih' vs m hvs
    exact ⟨_, _, .argument he hes, by simp [argumentText, htext, echoes.further],
      by simp [furtherText, htext, echoes.further], by simp [echoes.length],
      by simp [alikeExprs, isFiniteList, halike, echoes.alike]⟩
  | noParameters =>
    intro us n hus
    simp only [identKinds, List.map_eq_nil_iff] at hus
    subst hus
    exact ⟨[], .noParameters, rfl⟩
  | someParameters _ hlen ih =>
    intro us n hus
    obtain ⟨xs, hxs, hnames⟩ := ih us n hus
    refine ⟨xs, .someParameters hxs ?_, hnames⟩
    have := congrArg List.length hnames
    simp only [List.length_map] at this
    omega
  | lastParameter =>
    intro us n hus
    simp only [identKinds, kinds_eq_cons, List.map_eq_nil_iff] at hus
    obtain ⟨l, _, rfl, rfl⟩ := hus
    exact ⟨_, .lastParameter (x := ⟨_, l⟩), rfl⟩
  | parameter others ih =>
    intro us n hus
    simp only [identKinds_of_ne_nil others.names_ne_nil, kinds_eq_cons] at hus
    obtain ⟨l, _, rfl, l', us, rfl, hus⟩ := hus
    obtain ⟨xs, hxs, hnames⟩ := ih us n hus
    exact ⟨_, .parameter (x := ⟨_, l⟩) hxs, by simp [hnames]⟩
  | block _ ih =>
    intro us n hus
    simp only [blockKinds, kinds_eq_cons, List.map_eq_append_iff, List.map_eq_nil_iff] at hus
    obtain ⟨l, _, rfl, us, _, rfl, hus, l', _, rfl, rfl⟩ := hus
    obtain ⟨ss, m, hss, echoes⟩ := ih us n hus
    exact ⟨ss, m, .block hss, echoes⟩
  | function _ _ ih ih' =>
    intro us n hus
    simp only [FunctionDecl.kinds, kinds_eq_cons, List.map_eq_append_iff] at hus
    obtain ⟨l, _, rfl, l', _, rfl, us, _, rfl, hus, l'', vs, rfl, hvs⟩ := hus
    obtain ⟨xs, hxs, hnames⟩ := ih us n hus
    obtain ⟨ss, m, hss, echoes⟩ := ih' vs n hvs
    exact ⟨_, _, .function (x := ⟨_, l⟩) hxs hss,
      fun depth ↦ by simp [FunctionDecl.text, identList, hnames, echoes.block],
      by simp [FunctionDecl.alike, Ident.alike, alikeIdents, hnames, FunctionDecl.isFinite,
        echoes.alike]⟩
  | noFunctions =>
    intro us n hus
    simp only [methodKinds, List.map_eq_nil_iff] at hus
    subst hus
    exact ⟨[], n, .noFunctions, fun _ ↦ rfl, by rw [alikeFunctions, isFiniteMethods]⟩
  | functions _ _ ih ih' =>
    intro us n hus
    simp only [methodKinds, List.map_eq_append_iff] at hus
    obtain ⟨us, vs, rfl, hus, hvs⟩ := hus
    obtain ⟨f, m, hf, htext, halike⟩ := ih us n hus
    obtain ⟨fs, k, hfs, htexts, halikes⟩ := ih' vs m hvs
    exact ⟨_, _, .functions hf hfs, fun depth ↦ by simp [htext, htexts],
      by simp [alikeFunctions, isFiniteMethods, halike, halikes]⟩
  | varNil =>
    intro us n hus
    simp only [Stmt.kinds, kinds_eq_cons, List.map_eq_nil_iff] at hus
    obtain ⟨l, _, rfl, l', _, rfl, l'', _, rfl, rfl⟩ := hus
    exact ⟨_, _, .varNil (x := ⟨_, l'⟩), fun depth ↦ by simp [Stmt.text],
      by simp [Stmt.alike, Ident.alike, Stmt.isFinite]⟩
  | varValue _ ih =>
    intro us n hus
    simp only [Stmt.kinds, kinds_eq_cons, List.map_eq_append_iff, List.map_eq_nil_iff] at hus
    obtain ⟨l, _, rfl, l', _, rfl, l'', _, rfl, us, _, rfl, hus, l₃, _, rfl, rfl⟩ := hus
    obtain ⟨e, m, he, htext, halike⟩ := ih us n hus
    exact ⟨_, _, .varValue (x := ⟨_, l'⟩) he, fun depth ↦ by simp [Stmt.text, htext],
      by simp [Stmt.alike, Ident.alike, Stmt.isFinite, halike]⟩
  | exprStmt _ ih =>
    intro us n hus
    simp only [Stmt.kinds, kinds_eq_cons, List.map_eq_append_iff, List.map_eq_nil_iff] at hus
    obtain ⟨us, _, rfl, hus, l, _, rfl, rfl⟩ := hus
    obtain ⟨e, m, he, htext, halike⟩ := ih us n hus
    exact ⟨_, _, .exprStmt he, fun depth ↦ by simp [Stmt.text, htext],
      by simp [Stmt.alike, Stmt.isFinite, halike]⟩
  | expression _ ih =>
    intro us n hus
    obtain ⟨s, m, hs, echoes⟩ := ih us n hus
    exact ⟨false, s, m, id, .expression hs, echoes⟩
  | print _ ih =>
    intro us n hus
    simp only [Stmt.kinds, kinds_eq_cons, List.map_eq_append_iff, List.map_eq_nil_iff] at hus
    obtain ⟨l, _, rfl, us, _, rfl, hus, l', _, rfl, rfl⟩ := hus
    obtain ⟨e, m, he, htext, halike⟩ := ih us n hus
    exact ⟨false, _, _, id, .print he, fun depth ↦ by simp [Stmt.text, htext],
      by simp [Stmt.alike, Stmt.isFinite, halike]⟩
  | @returns _ e _ _ _ _ _ ih =>
    intro us n hus
    cases e with
    | none =>
      simp only [Stmt.kinds, kinds_eq_cons, List.map_eq_nil_iff] at hus
      obtain ⟨l, _, rfl, l', _, rfl, rfl⟩ := hus
      exact ⟨false, _, _, id, .returns .noExpression, fun depth ↦ by simp [Stmt.text],
        by simp [Stmt.alike, Stmt.isFinite]⟩
    | some e =>
      simp only [Stmt.kinds, kinds_eq_cons, List.map_eq_append_iff, List.map_eq_nil_iff] at hus
      obtain ⟨l, _, rfl, us, _, rfl, hus, l', _, rfl, rfl⟩ := hus
      obtain ⟨e, m, he, htext, halike⟩ := ih e rfl us n hus
      exact ⟨false, _, _, id, .returns (.someExpression he),
        fun depth ↦ by simp [Stmt.text, htext], by simp [Stmt.alike, Stmt.isFinite, halike]⟩
  | blockStmt _ ih =>
    intro us n hus
    rw [Stmt.kinds] at hus
    obtain ⟨ss, m, hss, echoes⟩ := ih us n hus
    exact ⟨false, _, m, id, .blockStmt hss, fun depth ↦ by simp [Stmt.text, echoes.block],
      by simp [Stmt.alike, Stmt.isFinite, echoes.alike]⟩
  | ifThen _ _ ih ih' =>
    intro us n hus
    simp only [Stmt.kinds, kinds_eq_cons, List.map_eq_append_iff] at hus
    obtain ⟨l, _, rfl, l', _, rfl, us, _, rfl, hus, l'', vs, rfl, hvs⟩ := hus
    obtain ⟨e, m, he, htext, halike⟩ := ih us n hus
    obtain ⟨o, s, k, -, hs, echoes⟩ := ih' vs m hvs
    exact ⟨true, _, k, id, .ifThen he hs, fun depth ↦ by simp [Stmt.text, htext, echoes.text],
      by simp [Stmt.alike, Stmt.isFinite, halike, echoes.alike]⟩
  | @ifElse _ _ _ _ _ _ o _ _ _ _ _ _ _ _ _ _ _ closed _ ih ih' ih'' =>
    intro us n hus
    simp only [Stmt.kinds, kinds_eq_cons, List.map_eq_append_iff] at hus
    obtain ⟨l, _, rfl, l', _, rfl, us, _, rfl, hus, l'', _, rfl, vs, _, rfl, hvs, l₃, ws, rfl,
      hws⟩ := hus
    obtain ⟨e, m, he, htext, halike⟩ := ih us n hus
    obtain ⟨o', s, k, ho, hs, echoes⟩ := ih' vs m hvs
    obtain ⟨o'', s', j, ho', hs', echoes'⟩ := ih'' ws k hws
    have hclosed : o' = false := by
      rw [closed rfl] at ho
      simpa using ho
    exact ⟨o'', _, j, ho', .ifElse he hs (fun _ ↦ hclosed) hs',
      fun depth ↦ by simp [Stmt.text, htext, echoes.text, echoes'.text],
      by simp [Stmt.alike, Stmt.isFinite, halike, echoes.alike, echoes'.alike]⟩
  | whileLoop _ _ ih ih' => exact rereads_whileLoop ih ih'
  | noInitializer =>
    intro s hs
    cases hs
  | varInitializer _ ih =>
    rintro _ ⟨⟩ us n hus
    obtain ⟨s, m, hs, echoes⟩ := ih us n hus
    exact ⟨s, m, .varDecl hs, echoes⟩
  | exprInitializer _ ih =>
    rintro _ ⟨⟩ us n hus
    obtain ⟨s, m, hs, echoes⟩ := ih us n hus
    exact ⟨s, m, .statement (.expression hs), echoes⟩
  | forLoop _ _ _ _ ih ih' ih'' ih₃ =>
    exact rereads_withInitializer ih
      (rereads_whileLoop (rereads_loopCondition ih' _) (rereads_withIncrement ih₃ ih''))
  | statement _ ih =>
    intro us n hus
    obtain ⟨o, s, m, -, hs, echoes⟩ := ih us n hus
    exact ⟨s, m, .statement hs, echoes⟩
  | varDecl _ ih =>
    intro us n hus
    obtain ⟨s, m, hs, echoes⟩ := ih us n hus
    exact ⟨s, m, .varDecl hs, echoes⟩
  | funDecl _ ih =>
    intro us n hus
    simp only [Stmt.kinds, kinds_eq_cons] at hus
    obtain ⟨l, us, rfl, hus⟩ := hus
    obtain ⟨f, m, hf, htext, halike⟩ := ih us n hus
    exact ⟨_, _, .funDecl hf, fun depth ↦ by simp [Stmt.text, htext],
      by simp [Stmt.alike, Stmt.isFinite, halike]⟩
  | classDecl _ ih =>
    intro us n hus
    simp only [Stmt.kinds, kinds_eq_cons, List.map_eq_append_iff, List.map_eq_nil_iff] at hus
    obtain ⟨l, _, rfl, l', _, rfl, l'', _, rfl, us, _, rfl, hus, l₃, _, rfl, rfl⟩ := hus
    obtain ⟨fs, m, hfs, echoes⟩ := ih us n hus
    exact ⟨_, _, .classDecl (x := ⟨_, l'⟩) hfs, fun depth ↦ by simp [Stmt.text, echoes.body],
      by simp [Stmt.alike, Ident.alike, alikeSuperclasses, Stmt.isFinite, echoes.alike]⟩
  | subclassDecl _ ih =>
    intro us n hus
    simp only [Stmt.kinds, kinds_eq_cons, List.map_eq_append_iff, List.map_eq_nil_iff] at hus
    obtain ⟨l, _, rfl, l', _, rfl, l'', _, rfl, l₃, _, rfl, l₄, _, rfl, us, _, rfl, hus, l₅, _,
      rfl, rfl⟩ := hus
    obtain ⟨fs, m, hfs, echoes⟩ := ih us (n + 1) hus
    exact ⟨_, _, .subclassDecl (x := ⟨_, l'⟩) (y := ⟨_, l₃⟩) hfs,
      fun depth ↦ by simp [Stmt.text, superclassText, echoes.body],
      by simp [Stmt.alike, Ident.alike, alikeSuperclasses, Stmt.isFinite, echoes.alike]⟩
  | noDeclarations =>
    intro us n hus
    simp only [programKinds, List.map_eq_nil_iff] at hus
    subst hus
    exact ⟨[], n, .noDeclarations, fun _ ↦ rfl, by rw [alikeStmts, isFiniteProgram]⟩
  | declarations _ _ ih ih' =>
    intro us n hus
    simp only [programKinds, List.map_eq_append_iff] at hus
    obtain ⟨us, vs, rfl, hus, hvs⟩ := hus
    obtain ⟨s, m, hs, htext, halike⟩ := ih us n hus
    obtain ⟨ss, k, hss, htexts, halikes⟩ := ih' vs m hvs
    exact ⟨_, _, .declarations hs hss, fun depth ↦ by simp [htext, htexts],
      by simp [alikeStmts, isFiniteProgram, halike, halikes]⟩

end Grammar

end LexScript
