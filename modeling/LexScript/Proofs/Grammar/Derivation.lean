import LexScript.Program.Parser

/-!
# Derivations

The grammar of programs as a relation between tokens and trees. A category is a symbol of the
grammar, and each constructor of `Derives` is one of its productions together with the tree that
the production stands for. A repetition that joins operands from the left is written as one more
operand behind a phrase of the same category, a repetition of items as an item in front of
further ones.

Read without its trees, the grammar does not say to which of two conditionals an `else` belongs.
`ElseRule.any` leaves this open. Under `ElseRule.nearest` the branch in front of an `else` must
not be *open*, that is, it must not end with a conditional that still lacks its `else`.

A derivation also says which ids its tree has: it takes them from a first unused id on, in the
order in which phrases are complete, and leaves the next unused one. The left side of an
assignment takes an id although no expression of the tree keeps it.

## Main definitions

* `Grammar.Level`, `Grammar.Category` : the symbols of the grammar.
* `Grammar.Derives` : the productions.
* `Grammar.Derivable` : the tokens that form a program, whatever `else` belongs to.
-/

namespace LexScript.Grammar

/-! ### Symbols -/

/-- The levels of operators with two operands, from the loosest to the tightest. -/
inductive Level where
  | disjunction
  | conjunction
  | equality
  | comparison
  | term
  | factor
deriving DecidableEq

/-- The symbols of the grammar. -/
inductive Category where
  | primary
  | call
  | unary
  | level (l : Level)
  | expression
  | optionalExpression
  | arguments
  | argumentList
  | parameters
  | parameterList
  | block
  | function
  | functions
  | varDecl
  | exprStmt
  | forInitializer
  /-- A statement that is open ends with a conditional that lacks an `else`. -/
  | statement (isOpen : Bool)
  | declaration
  | declarations
deriving DecidableEq

/-- What a phrase of the grammar stands for. -/
inductive Tree where
  | expr (e : Expr)
  | optExpr (e : Option Expr)
  | exprs (es : List Expr)
  | names (xs : List Ident)
  | stmt (s : Stmt)
  | optStmt (s : Option Stmt)
  | stmts (ss : List Stmt)
  | function (f : FunctionDecl)
  | functions (fs : List FunctionDecl)

/-- To which conditional an `else` belongs: any that it can, or the nearest that lacks one. -/
inductive ElseRule where
  | any
  | nearest
deriving DecidableEq

/-! ### Tokens -/

/-- A symbol on a line. -/
abbrev sym (s : Symbol) (line : Nat) : Token := ⟨.symbol s, line⟩

/-- A keyword on a line. -/
abbrev word (k : Keyword) (line : Nat) : Token := ⟨.keyword k, line⟩

/-- The token of an identifier. -/
abbrev named (x : Ident) : Token := ⟨.identifier x.text, x.line⟩

/-- The constant that a token stands for. -/
def constant? : TokenKind → Option Literal
  | .keyword .falseWord => some (.boolean false)
  | .keyword .trueWord => some (.boolean true)
  | .keyword .nilWord => some .nil
  | .number text => some (.number (.ofText text))
  | .string contents => some (.string contents)
  | _ => none

/-- The operator of one operand that a token stands for. -/
def prefix? : TokenKind → Option UnaryOp
  | .symbol .bang => some .not
  | .symbol .minus => some .negate
  | _ => none

namespace Level

/-- What an operator of a level makes of an id, its line and its operands. -/
def join? : Level → TokenKind → Option (Nat → Nat → Expr → Expr → Expr)
  | disjunction, .keyword .orWord => some fun id line l r ↦ .logical id .or line l r
  | conjunction, .keyword .andWord => some fun id line l r ↦ .logical id .and line l r
  | equality, .symbol .equalEqual => some fun id line l r ↦ .binary id .equal line l r
  | equality, .symbol .bangEqual => some fun id line l r ↦ .binary id .notEqual line l r
  | comparison, .symbol .greater => some fun id line l r ↦ .binary id .greater line l r
  | comparison, .symbol .greaterEqual => some fun id line l r ↦ .binary id .greaterEqual line l r
  | comparison, .symbol .less => some fun id line l r ↦ .binary id .less line l r
  | comparison, .symbol .lessEqual => some fun id line l r ↦ .binary id .lessEqual line l r
  | term, .symbol .minus => some fun id line l r ↦ .binary id .subtract line l r
  | term, .symbol .plus => some fun id line l r ↦ .binary id .add line l r
  | factor, .symbol .slash => some fun id line l r ↦ .binary id .divide line l r
  | factor, .symbol .star => some fun id line l r ↦ .binary id .multiply line l r
  | _, _ => none

/-- The operands of the operators of a level. -/
def operand : Level → Category
  | disjunction => .level conjunction
  | conjunction => .level equality
  | equality => .level comparison
  | comparison => .level term
  | term => .level factor
  | factor => .unary

end Level

/-! ### Loops with three clauses -/

/-- The condition of a loop, `true` if it has none, and the next unused id. -/
def loopCondition : Option Expr → Nat → Expr × Nat
  | some e, n => (e, n)
  | none, n => (.literal n (.boolean true), n + 1)

/-- The body of a loop, in a block with the increment if there is one. -/
def withIncrement : Option Expr → Stmt → Stmt
  | some e, body => .block [body, .expression e]
  | none, body => body

/-- A loop, in a block with what it does first if there is anything. -/
def withInitializer : Option Stmt → Stmt → Stmt
  | some s, loop => .block [s, loop]
  | none, loop => loop

/-! ### Productions -/

/-- The tokens are a phrase of the category and stand for the tree, whose ids are taken from the
first number on and stay below the second. -/
inductive Derives (rule : ElseRule) : Category → List Token → Nat → Tree → Nat → Prop where
  -- Operands.
  | constant {kind : TokenKind} {v : Literal} {line n : Nat} (h : constant? kind = some v) :
      Derives rule .primary [⟨kind, line⟩] n (.expr (.literal n v)) (n + 1)
  | name {x : Ident} {n : Nat} :
      Derives rule .primary [named x] n (.expr (.read n x)) (n + 1)
  | this {line n : Nat} :
      Derives rule .primary [word .thisWord line] n (.expr (.this n line)) (n + 1)
  | super {line l n : Nat} {x : Ident} :
      Derives rule .primary [word .superWord line, sym .dot l, named x] n
        (.expr (.super n line x)) (n + 1)
  | grouping {ts : List Token} {e : Expr} {l l' n m : Nat}
      (inner : Derives rule .expression ts n (.expr e) m) :
      Derives rule .primary (sym .leftParen l :: (ts ++ [sym .rightParen l'])) n
        (.expr (.grouping m e)) (m + 1)
  | lambda {ts us : List Token} {xs : List Ident} {ss : List Stmt} {line l l' n m : Nat}
      (params : Derives rule .parameters ts n (.names xs) n)
      (body : Derives rule .block us n (.stmts ss) m) :
      Derives rule .primary
        (word .funWord line :: sym .leftParen l :: (ts ++ sym .rightParen l' :: us)) n
        (.expr (.lambda m line xs ss)) (m + 1)
  -- Calls and properties.
  | operand {ts : List Token} {e : Expr} {n m : Nat}
      (inner : Derives rule .primary ts n (.expr e) m) : Derives rule .call ts n (.expr e) m
  | call {ts us : List Token} {e : Expr} {es : List Expr} {l line n m k : Nat}
      (callee : Derives rule .call ts n (.expr e) m)
      (arguments : Derives rule .arguments us m (.exprs es) k) :
      Derives rule .call (ts ++ sym .leftParen l :: (us ++ [sym .rightParen line])) n
        (.expr (.call k e line es)) (k + 1)
  | get {ts : List Token} {e : Expr} {x : Ident} {l n m : Nat}
      (object : Derives rule .call ts n (.expr e) m) :
      Derives rule .call (ts ++ [sym .dot l, named x]) n (.expr (.get m e x)) (m + 1)
  -- Operators.
  | unprefixed {ts : List Token} {e : Expr} {n m : Nat}
      (inner : Derives rule .call ts n (.expr e) m) : Derives rule .unary ts n (.expr e) m
  | prefixed {kind : TokenKind} {op : UnaryOp} {ts : List Token} {e : Expr} {line n m : Nat}
      (h : prefix? kind = some op) (operand : Derives rule .unary ts n (.expr e) m) :
      Derives rule .unary (⟨kind, line⟩ :: ts) n (.expr (.unary m op line e)) (m + 1)
  | tighter {l : Level} {ts : List Token} {e : Expr} {n m : Nat}
      (inner : Derives rule l.operand ts n (.expr e) m) :
      Derives rule (.level l) ts n (.expr e) m
  | joined {l : Level} {kind : TokenKind} {join : Nat → Nat → Expr → Expr → Expr}
      {ts us : List Token} {a b : Expr} {line n m k : Nat} (h : l.join? kind = some join)
      (left : Derives rule (.level l) ts n (.expr a) m)
      (right : Derives rule l.operand us m (.expr b) k) :
      Derives rule (.level l) (ts ++ ⟨kind, line⟩ :: us) n (.expr (join k line a b)) (k + 1)
  -- Expressions.
  | value {ts : List Token} {e : Expr} {n m : Nat}
      (inner : Derives rule (.level .disjunction) ts n (.expr e) m) :
      Derives rule .expression ts n (.expr e) m
  | assign {ts : List Token} {x : Ident} {e : Expr} {l n m : Nat}
      (value : Derives rule .expression ts (n + 1) (.expr e) m) :
      Derives rule .expression (named x :: sym .equal l :: ts) n
        (.expr (.assign m x e)) (m + 1)
  | set {ts us : List Token} {o e : Expr} {x : Ident} {l l' n m k : Nat}
      (object : Derives rule .call ts n (.expr o) m)
      (value : Derives rule .expression us (m + 1) (.expr e) k) :
      Derives rule .expression (ts ++ sym .dot l :: named x :: sym .equal l' :: us) n
        (.expr (.set k o x e)) (k + 1)
  | noExpression {n : Nat} : Derives rule .optionalExpression [] n (.optExpr none) n
  | someExpression {ts : List Token} {e : Expr} {n m : Nat}
      (inner : Derives rule .expression ts n (.expr e) m) :
      Derives rule .optionalExpression ts n (.optExpr (some e)) m
  -- Arguments and parameters.
  | noArguments {n : Nat} : Derives rule .arguments [] n (.exprs []) n
  | someArguments {ts : List Token} {es : List Expr} {n m : Nat}
      (list : Derives rule .argumentList ts n (.exprs es) m) (h : es.length ≤ maxArity) :
      Derives rule .arguments ts n (.exprs es) m
  | lastArgument {ts : List Token} {e : Expr} {n m : Nat}
      (last : Derives rule .expression ts n (.expr e) m) :
      Derives rule .argumentList ts n (.exprs [e]) m
  | argument {ts us : List Token} {e : Expr} {es : List Expr} {l n m k : Nat}
      (first : Derives rule .expression ts n (.expr e) m)
      (others : Derives rule .argumentList us m (.exprs es) k) :
      Derives rule .argumentList (ts ++ sym .comma l :: us) n (.exprs (e :: es)) k
  | noParameters {n : Nat} : Derives rule .parameters [] n (.names []) n
  | someParameters {ts : List Token} {xs : List Ident} {n : Nat}
      (list : Derives rule .parameterList ts n (.names xs) n) (h : xs.length ≤ maxArity) :
      Derives rule .parameters ts n (.names xs) n
  | lastParameter {x : Ident} {n : Nat} :
      Derives rule .parameterList [named x] n (.names [x]) n
  | parameter {ts : List Token} {x : Ident} {xs : List Ident} {l n : Nat}
      (others : Derives rule .parameterList ts n (.names xs) n) :
      Derives rule .parameterList (named x :: sym .comma l :: ts) n (.names (x :: xs)) n
  -- Functions.
  | block {ts : List Token} {ss : List Stmt} {l l' n m : Nat}
      (body : Derives rule .declarations ts n (.stmts ss) m) :
      Derives rule .block (sym .leftBrace l :: (ts ++ [sym .rightBrace l'])) n (.stmts ss) m
  | function {ts us : List Token} {x : Ident} {xs : List Ident} {ss : List Stmt} {l l' n m : Nat}
      (params : Derives rule .parameters ts n (.names xs) n)
      (body : Derives rule .block us n (.stmts ss) m) :
      Derives rule .function
        (named x :: sym .leftParen l :: (ts ++ sym .rightParen l' :: us)) n
        (.function (.mk x xs ss)) m
  | noFunctions {n : Nat} : Derives rule .functions [] n (.functions []) n
  | functions {ts us : List Token} {f : FunctionDecl} {fs : List FunctionDecl} {n m k : Nat}
      (first : Derives rule .function ts n (.function f) m)
      (others : Derives rule .functions us m (.functions fs) k) :
      Derives rule .functions (ts ++ us) n (.functions (f :: fs)) k
  -- Statements.
  | varNil {x : Ident} {line l n : Nat} :
      Derives rule .varDecl [word .varWord line, named x, sym .semicolon l] n
        (.stmt (.varDecl x none)) n
  | varValue {ts : List Token} {x : Ident} {e : Expr} {line l l' n m : Nat}
      (value : Derives rule .expression ts n (.expr e) m) :
      Derives rule .varDecl
        (word .varWord line :: named x :: sym .equal l :: (ts ++ [sym .semicolon l'])) n
        (.stmt (.varDecl x (some e))) m
  | exprStmt {ts : List Token} {e : Expr} {l n m : Nat}
      (value : Derives rule .expression ts n (.expr e) m) :
      Derives rule .exprStmt (ts ++ [sym .semicolon l]) n (.stmt (.expression e)) m
  | expression {ts : List Token} {s : Stmt} {n m : Nat}
      (inner : Derives rule .exprStmt ts n (.stmt s) m) :
      Derives rule (.statement false) ts n (.stmt s) m
  | print {ts : List Token} {e : Expr} {line l n m : Nat}
      (value : Derives rule .expression ts n (.expr e) m) :
      Derives rule (.statement false) (word .printWord line :: (ts ++ [sym .semicolon l])) n
        (.stmt (.print line e)) m
  | returns {ts : List Token} {e : Option Expr} {line l n m : Nat}
      (value : Derives rule .optionalExpression ts n (.optExpr e) m) :
      Derives rule (.statement false) (word .returnWord line :: (ts ++ [sym .semicolon l])) n
        (.stmt (.returns line e)) m
  | blockStmt {ts : List Token} {ss : List Stmt} {n m : Nat}
      (body : Derives rule .block ts n (.stmts ss) m) :
      Derives rule (.statement false) ts n (.stmt (.block ss)) m
  | ifThen {ts us : List Token} {e : Expr} {s : Stmt} {isOpen : Bool} {l l' l'' n m k : Nat}
      (condition : Derives rule .expression ts n (.expr e) m)
      (thenBranch : Derives rule (.statement isOpen) us m (.stmt s) k) :
      Derives rule (.statement true)
        (word .ifWord l :: sym .leftParen l' :: (ts ++ sym .rightParen l'' :: us)) n
        (.stmt (.ifElse e s none)) k
  | ifElse {ts us vs : List Token} {e : Expr} {s s' : Stmt} {isOpen isOpen' : Bool}
      {l l' l'' l₃ n m k j : Nat}
      (condition : Derives rule .expression ts n (.expr e) m)
      (thenBranch : Derives rule (.statement isOpen) us m (.stmt s) k)
      (closed : rule = .nearest → isOpen = false)
      (elseBranch : Derives rule (.statement isOpen') vs k (.stmt s') j) :
      Derives rule (.statement isOpen')
        (word .ifWord l :: sym .leftParen l' ::
          (ts ++ sym .rightParen l'' :: (us ++ word .elseWord l₃ :: vs))) n
        (.stmt (.ifElse e s (some s'))) j
  | whileLoop {ts us : List Token} {e : Expr} {s : Stmt} {isOpen : Bool} {l l' l'' n m k : Nat}
      (condition : Derives rule .expression ts n (.expr e) m)
      (body : Derives rule (.statement isOpen) us m (.stmt s) k) :
      Derives rule (.statement isOpen)
        (word .whileWord l :: sym .leftParen l' :: (ts ++ sym .rightParen l'' :: us)) n
        (.stmt (.whileLoop e s)) k
  | noInitializer {l n : Nat} :
      Derives rule .forInitializer [sym .semicolon l] n (.optStmt none) n
  | varInitializer {ts : List Token} {s : Stmt} {n m : Nat}
      (inner : Derives rule .varDecl ts n (.stmt s) m) :
      Derives rule .forInitializer ts n (.optStmt (some s)) m
  | exprInitializer {ts : List Token} {s : Stmt} {n m : Nat}
      (inner : Derives rule .exprStmt ts n (.stmt s) m) :
      Derives rule .forInitializer ts n (.optStmt (some s)) m
  | forLoop {ts us vs ws : List Token} {i : Option Stmt} {c a : Option Expr} {s : Stmt}
      {isOpen : Bool} {l l' l'' l₃ n m k j p : Nat}
      (initializer : Derives rule .forInitializer ts n (.optStmt i) m)
      (condition : Derives rule .optionalExpression us m (.optExpr c) k)
      (increment : Derives rule .optionalExpression vs k (.optExpr a) j)
      (body : Derives rule (.statement isOpen) ws j (.stmt s) p) :
      Derives rule (.statement isOpen)
        (word .forWord l :: sym .leftParen l' ::
          (ts ++ (us ++ sym .semicolon l'' :: (vs ++ sym .rightParen l₃ :: ws)))) n
        (.stmt (withInitializer i (.whileLoop (loopCondition c p).1 (withIncrement a s))))
        (loopCondition c p).2
  -- Declarations.
  | statement {ts : List Token} {s : Stmt} {isOpen : Bool} {n m : Nat}
      (inner : Derives rule (.statement isOpen) ts n (.stmt s) m) :
      Derives rule .declaration ts n (.stmt s) m
  | varDecl {ts : List Token} {s : Stmt} {n m : Nat}
      (inner : Derives rule .varDecl ts n (.stmt s) m) :
      Derives rule .declaration ts n (.stmt s) m
  | funDecl {ts : List Token} {f : FunctionDecl} {line n m : Nat}
      (decl : Derives rule .function ts n (.function f) m) :
      Derives rule .declaration (word .funWord line :: ts) n (.stmt (.funDecl f)) m
  | classDecl {ts : List Token} {x : Ident} {fs : List FunctionDecl} {line l l' n m : Nat}
      (methods : Derives rule .functions ts n (.functions fs) m) :
      Derives rule .declaration
        (word .classWord line :: named x :: sym .leftBrace l :: (ts ++ [sym .rightBrace l'])) n
        (.stmt (.classDecl x none fs)) m
  | subclassDecl {ts : List Token} {x y : Ident} {fs : List FunctionDecl}
      {line l l' l'' n m : Nat}
      (methods : Derives rule .functions ts (n + 1) (.functions fs) m) :
      Derives rule .declaration
        (word .classWord line :: named x :: sym .less l :: named y :: sym .leftBrace l' ::
          (ts ++ [sym .rightBrace l''])) n
        (.stmt (.classDecl x (some ⟨n, y⟩) fs)) m
  | noDeclarations {n : Nat} : Derives rule .declarations [] n (.stmts []) n
  | declarations {ts us : List Token} {s : Stmt} {ss : List Stmt} {n m k : Nat}
      (first : Derives rule .declaration ts n (.stmt s) m)
      (others : Derives rule .declarations us m (.stmts ss) k) :
      Derives rule .declarations (ts ++ us) n (.stmts (s :: ss)) k

/-- The tokens form a program, whichever conditional an `else` belongs to. -/
def Derivable (tokens : List Token) : Prop :=
  ∃ n program m, Derives .any .declarations tokens n (.stmts program) m

end LexScript.Grammar
