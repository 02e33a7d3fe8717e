import LexScript.Proofs.Grammar.Acceptance
import LexScript.Proofs.Printing.Rereading

/-!
# Printed sources are read again

A source that is read without an error is printed as a source that is read without an error and
printed as the same text. Reading it again yields the program that was printed, apart from ids
and lines, unless that program has an infinite literal.

## Main definitions

* `Grammar.Tree.kinds` : the token kinds of what a phrase stands for.

## Main statements

* `Grammar.Derives.isSpelled` : the tokens of a printed phrase are spelled if its own are.
* `readSource_printProgram` : what is read is the same after printing and reading it again.
-/

namespace LexScript

namespace Grammar

/-! ### Spelled tokens -/

/-- The token kinds of what a phrase stands for, those of a block without its braces. -/
def Tree.kinds : Tree → List TokenKind
  | expr e => e.kinds
  | optExpr e => (e.map Expr.kinds).getD []
  | exprs es => argumentKinds es
  | names xs => identKinds xs
  | stmt s => s.kinds
  | optStmt s => (s.map Stmt.kinds).getD []
  | stmts ss => programKinds ss
  | function f => f.kinds
  | functions fs => methodKinds fs

theorem isSpelled_constant {kind : TokenKind} {v : Literal} (h : constant? kind = some v)
    (hkind : kind.IsSpelled) : v.kind.IsSpelled := by
  cases v with
  | number x =>
    obtain ⟨hn, hnan⟩ := isNegative_isNaN_of_constant? h
    rw [Literal.kind]
    split
    · rename_i hi
      rw [Number.literalText_infinite hn hi]
      exact ⟨'i', ['n', 'f'], rfl, by decide, List.all_eq_true.1 (by decide), by decide⟩
    · rename_i hi
      refine Number.isNumeral_literalText hn ?_
      rw [Number.isFinite_eq hnan]
      simpa using hi
  | string s =>
    unfold constant? at h
    split at h <;> cases h
    exact hkind
  | boolean b => cases b <;> trivial
  | nil => trivial

theorem kinds_of_join? {l : Level} {kind : TokenKind}
    {join : Nat → Nat → Expr → Expr → Expr} (h : l.join? kind = some join) (k line : Nat)
    (a b : Expr) : (join k line a b).kinds = a.kinds ++ kind :: b.kinds := by
  obtain ⟨op, rfl, rfl⟩ | ⟨op, rfl, rfl⟩ := Level.join?_cases h <;> rw [Expr.kinds]

/-- All kinds of a list are spelled. -/
def AllSpelled (ks : List TokenKind) : Prop := ∀ k ∈ ks, k.IsSpelled

@[simp]
theorem allSpelled_nil : AllSpelled [] := by simp [AllSpelled]

@[simp]
theorem allSpelled_cons {k : TokenKind} {ks : List TokenKind} :
    AllSpelled (k :: ks) ↔ k.IsSpelled ∧ AllSpelled ks := List.forall_mem_cons

@[simp]
theorem allSpelled_append {ks js : List TokenKind} :
    AllSpelled (ks ++ js) ↔ AllSpelled ks ∧ AllSpelled js := List.forall_mem_append

@[simp]
theorem isSpelled_symbol (s : Symbol) : (TokenKind.symbol s).IsSpelled := trivial

@[simp]
theorem isSpelled_keyword (k : Keyword) : (TokenKind.keyword k).IsSpelled := trivial

theorem Derives.allSpelled {rule : ElseRule} {c : Category} {ts : List Token} {t : Tree}
    {n m : Nat} (h : Derives rule c ts n t m) (hts : AllSpelled (ts.map Token.kind)) :
    AllSpelled t.kinds := by
  induction h with
  | constant h =>
    simp only [List.map_cons, List.map_nil, allSpelled_cons] at hts
    simpa [Tree.kinds, Expr.kinds] using isSpelled_constant h hts.1
  | prefixed h => simp_all [Tree.kinds, Expr.kinds, kind_of_prefix? h]
  | joined h _ _ ih ih' => simp_all [Tree.kinds, kinds_of_join? h]
  | argument _ others =>
    simp_all [Tree.kinds, argumentKinds, furtherKinds_of_ne_nil others.arguments_ne_nil]
  | parameter others => simp_all [Tree.kinds, identKinds_of_ne_nil others.names_ne_nil]
  | @returns _ e => cases e <;> simp_all [Tree.kinds, Stmt.kinds]
  | @forLoop _ _ _ _ i c a =>
    cases i <;> cases c <;> cases a <;> simp_all [Tree.kinds, Stmt.kinds, withInitializer,
      loopCondition, withIncrement, blockKinds, programKinds, Expr.kinds, Literal.kind]
  | _ =>
    simp_all [Tree.kinds, Expr.kinds, Stmt.kinds, FunctionDecl.kinds, blockKinds, programKinds,
      methodKinds, argumentKinds, furtherKinds, identKinds]

end Grammar

/-! ### Reading printed programs again -/

open Grammar

/-- Reading a source that was printed from another one yields no error, and what is read is
printed as the same text again. It is alike what was printed, ids and lines aside, if and only if
no literal of the latter is infinite. -/
theorem readSource_printProgram {firstId : Nat} {source : String}
    (h : (readSource firstId source).errors = []) (firstId' : Nat) :
    let program := (readSource firstId source).program
    let again := readSource firstId' (printProgram program)
    again.errors = [] ∧ printProgram again.program = printProgram program ∧
      (alikePrograms again.program program = true ↔ isFiniteProgram program = true) := by
  intro program again
  have derives := derives_of_readSource h
  have spelled : AllSpelled (programKinds program) := by
    refine derives.allSpelled (List.forall_mem_map.2 fun t ht ↦ ?_)
    exact isSpelled_of_scan ((List.takeWhile_sublist _).subset ht)
  obtain ⟨ts, line, hts, hscan⟩ := scan_printProgram spelled
  obtain ⟨program', m, derives', echoes⟩ := derives.rereads ts firstId' hts
  have hagain : again = ⟨[], program', m⟩ := readSource_of_derives hscan derives'
  rw [hagain]
  refine ⟨rfl, ?_, ?_⟩
  · rw [printProgram, echoes.texts, printProgram]
  · rw [alikePrograms, echoes.alike]

/-- A loop with three clauses is read again as the blocks and the loop that it stands for. -/
theorem readSource_printProgram_loop :
    (readSource 0 "for (; i < 2; i = -i) f(i);").errors = [] ∧
      let program := (readSource 0 "for (; i < 2; i = -i) f(i);").program
      let again := readSource 20 (printProgram program)
      again.errors = [] ∧ printProgram again.program = printProgram program ∧
        (alikePrograms again.program program = true ↔ isFiniteProgram program = true) := by
  have hscan : scan "for (; i < 2; i = -i) f(i);" =
      [.keyword .forWord, .symbol .leftParen, .symbol .semicolon, .identifier "i", .symbol .less,
        .number "2", .symbol .semicolon, .identifier "i", .symbol .equal, .symbol .minus,
        .identifier "i", .symbol .rightParen, .identifier "f", .symbol .leftParen,
        .identifier "i", .symbol .rightParen, .symbol .semicolon, .endOfFile].map
      fun kind ↦ .token ⟨kind, 1⟩ := by
    decide +kernel
  have h : (readSource 0 "for (; i < 2; i = -i) f(i);").errors = [] := by
    rw [readSource, hscan]
    decide +kernel
  exact ⟨h, readSource_printProgram h 20⟩

end LexScript
