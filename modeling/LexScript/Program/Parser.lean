import LexScript.Program.Cursor

/-!
# Parsing

The grammar, one rule to a function:

```text
program        → declaration* ;
declaration    → classDecl | "fun" function | varDecl | statement ;
classDecl      → "class" NAME ( "<" NAME )? "{" function* "}" ;
function       → NAME "(" parameters? ")" block ;
varDecl        → "var" NAME ( "=" expression )? ";" ;
statement      → exprStmt | forStmt | ifStmt | printStmt | returnStmt | whileStmt | block ;
forStmt        → "for" "(" ( varDecl | exprStmt | ";" )
                 expression? ";" expression? ")" statement ;
ifStmt         → "if" "(" expression ")" statement ( "else" statement )? ;
printStmt      → "print" expression ";" ;
returnStmt     → "return" expression? ";" ;
whileStmt      → "while" "(" expression ")" statement ;
block          → "{" declaration* "}" ;
expression     → ( call "." )? NAME "=" expression | logicOr ;
logicOr        → logicAnd ( "or" logicAnd )* ;
logicAnd       → equality ( "and" equality )* ;
equality       → comparison ( ( "!=" | "==" ) comparison )* ;
comparison     → term ( ( ">" | ">=" | "<" | "<=" ) term )* ;
term           → factor ( ( "-" | "+" ) factor )* ;
factor         → unary ( ( "/" | "*" ) unary )* ;
unary          → ( "!" | "-" ) unary | call ;
call           → primary ( "(" arguments? ")" | "." NAME )* ;
primary        → NUMBER | STRING | "true" | "false" | "nil" | "this" | NAME
               | "(" expression ")" | "super" "." NAME | "fun" "(" parameters? ")" block ;
```

A rule that comes back to an enclosing one, always after it has moved over a token, does so
through a record of rules. The record for depth `n` is built from that for depth `n - 1`, so
a depth above the number of tokens is never used up. The same number bounds every loop.

An expression gets its id after the expressions below it. A failed declaration is recorded
and parsing resumes further on; what it had taken is dropped, and its ids stay unused.

## Main definitions

* `Rules`, `Rules.atDepth` : the rules that others come back to.
* `parse` : the statements that parse, and the errors.
* `parseExpression` : one expression and nothing else.
-/

namespace LexScript

/-- The rules that other rules come back to. -/
structure Rules where
  expression : Parse Expr
  unary : Parse Expr
  statement : Parse Stmt
  declaration : Parse (Option Stmt)

namespace Rules

open Parse

variable (r : Rules) (bound : Nat)

/-! ## Functions -/

/-- The declarations of a block behind its opening brace. -/
def block : Parse (List Stmt) := do
  let body ← itemsUntil Cursor.atBlockEnd r.declaration bound
  let _ ← expectSymbol .rightBrace .afterBlock
  pure (body.filterMap id)

/-- Parameters behind their opening parenthesis, and the body. -/
def functionTail (form : FunctionForm) : Parse (List Ident × List Stmt) := do
  let params ←
    if (← cursor).sees (.symbol .rightParen) then pure []
    else commaSeparated .tooManyParameters (expectName .parameter) bound 0
  let _ ← expectSymbol .rightParen .afterParameters
  let _ ← expectSymbol .leftBrace (.beforeBody form)
  let body ← r.block bound
  pure (params, body)

/-- A function or method with its name. -/
def function (form : FunctionForm) : Parse FunctionDecl := do
  let name ← expectName (.declared form)
  let _ ← expectSymbol .leftParen (.afterName form)
  let (params, body) ← r.functionTail bound form
  pure (.mk name params body)

/-! ## Expressions -/

/-- Takes the token ahead as a whole expression. -/
def leaf (make : Nat → Expr) : Parse Expr := do
  skip
  pure (make (← freshId))

/-- An operand that is no call and no property. -/
def primary : Parse Expr := do
  let t := (← cursor).token
  match t.kind with
  | .keyword .falseWord => leaf (.literal · (.boolean false))
  | .keyword .trueWord => leaf (.literal · (.boolean true))
  | .keyword .nilWord => leaf (.literal · .nil)
  | .number text => leaf (.literal · (.number (.ofText text)))
  | .string contents => leaf (.literal · (.string contents))
  | .identifier text => leaf (.read · ⟨text, t.line⟩)
  | .keyword .thisWord => leaf (.this · t.line)
  | .keyword .superWord => do
    skip
    let _ ← expectSymbol .dot .afterSuper
    let method ← expectName .superMethod
    pure (.super (← freshId) t.line method)
  | .symbol .leftParen => do
    skip
    let inner ← r.expression
    let _ ← expectSymbol .rightParen .afterExpression
    pure (.grouping (← freshId) inner)
  | .keyword .funWord => do
    skip
    let _ ← expectSymbol .leftParen .afterFun
    let (params, body) ← r.functionTail bound .lambda
    pure (.lambda (← freshId) t.line params body)
  | _ => fail .noExpression

/-- The arguments of a call behind the opening parenthesis, and the call. -/
def finishCall (callee : Expr) : Parse Expr := do
  let arguments ←
    if (← cursor).sees (.symbol .rightParen) then pure []
    else commaSeparated .tooManyArguments r.expression bound 0
  let line ← expectSymbol .rightParen .afterArguments
  pure (.call (← freshId) callee line arguments)

/-- Calls and properties behind an expression. The last number bounds how many. -/
def callTail : Nat → Expr → Parse Expr
  | 0, _ => fail .tooDeep
  | turns + 1, e => do
    if ← accept (.symbol .leftParen) then
      callTail turns (← r.finishCall bound e)
    else if ← accept (.symbol .dot) then
      let name ← expectName .property
      callTail turns (.get (← freshId) e name)
    else
      pure e

/-- An operand with its calls and properties. -/
def call : Parse Expr := do
  callTail r bound bound (← r.primary bound)

/-- The operator of one operand that a token stands for. -/
def unaryOp? : TokenKind → Option UnaryOp
  | .symbol .bang => some .not
  | .symbol .minus => some .negate
  | _ => none

/-- Operators in front of an operand. -/
def unaryLevel : Parse Expr := do
  let t := (← cursor).token
  match unaryOp? t.kind with
  | some op => do
    skip
    let operand ← r.unary
    pure (.unary (← freshId) op t.line operand)
  | none => r.call bound

/-- The operators of one level and their right operands behind a left operand, joined from
the left. -/
def operatorTail {β : Type} (op? : TokenKind → Option β)
    (join : Nat → β → Nat → Expr → Expr → Expr) (operand : Parse Expr) :
    Nat → Expr → Parse Expr
  | 0, _ => fail .tooDeep
  | turns + 1, left => do
    let t := (← cursor).token
    match op? t.kind with
    | some op => do
      skip
      let right ← operand
      operatorTail op? join operand turns (join (← freshId) op t.line left right)
    | none => pure left

/-- One level of operators that associate to the left. -/
def level {β : Type} (op? : TokenKind → Option β)
    (join : Nat → β → Nat → Expr → Expr → Expr) (operand : Parse Expr) : Parse Expr := do
  operatorTail op? join operand bound (← operand)

/-- The operators of products. -/
def factorOp? : TokenKind → Option BinaryOp
  | .symbol .slash => some .divide
  | .symbol .star => some .multiply
  | _ => none

/-- The operators of sums. -/
def termOp? : TokenKind → Option BinaryOp
  | .symbol .minus => some .subtract
  | .symbol .plus => some .add
  | _ => none

/-- The operators of order. -/
def comparisonOp? : TokenKind → Option BinaryOp
  | .symbol .greater => some .greater
  | .symbol .greaterEqual => some .greaterEqual
  | .symbol .less => some .less
  | .symbol .lessEqual => some .lessEqual
  | _ => none

/-- The operators of equality. -/
def equalityOp? : TokenKind → Option BinaryOp
  | .symbol .bangEqual => some .notEqual
  | .symbol .equalEqual => some .equal
  | _ => none

/-- The operator of conjunctions. -/
def andOp? : TokenKind → Option LogicalOp
  | .keyword .andWord => some .and
  | _ => none

/-- The operator of disjunctions. -/
def orOp? : TokenKind → Option LogicalOp
  | .keyword .orWord => some .or
  | _ => none

/-- Products. -/
def factor : Parse Expr := level bound factorOp? .binary (r.unaryLevel bound)

/-- Sums. -/
def term : Parse Expr := level bound termOp? .binary (r.factor bound)

/-- Comparisons by order. -/
def comparison : Parse Expr := level bound comparisonOp? .binary (r.term bound)

/-- Comparisons by equality. -/
def equality : Parse Expr := level bound equalityOp? .binary (r.comparison bound)

/-- Conjunctions. -/
def logicAnd : Parse Expr := level bound andOp? .logical (r.equality bound)

/-- Disjunctions. -/
def logicOr : Parse Expr := level bound orOp? .logical (r.logicAnd bound)

/-- An assignment to what stands left of an `=`, which only variables and properties allow;
the error is anchored at the `=`. -/
def assignTo (target : Expr) (equals : Token) (value : Expr) : Parse Expr := do
  match target with
  | .read _ name => pure (.assign (← freshId) name value)
  | .get _ object name => pure (.set (← freshId) object name value)
  | _ => throw ⟨.invalidTarget, equals⟩

/-- An expression, assignments to the right of assignments. -/
def assignment : Parse Expr := do
  let target ← r.logicOr bound
  let t := (← cursor).token
  if t.kind == .symbol .equal then
    skip
    let value ← r.expression
    assignTo target t value
  else
    pure target

/-! ## Statements -/

/-- An expression and its semicolon. -/
def expressionStatement : Parse Stmt := do
  let e ← r.assignment bound
  let _ ← expectSymbol .semicolon .afterExpression
  pure (.expression e)

/-- A variable behind its keyword. -/
def varDeclaration : Parse Stmt := do
  let name ← expectName .variableDecl
  let initializer ←
    if ← accept (.symbol .equal) then some <$> r.assignment bound else pure none
  let _ ← expectSymbol .semicolon .afterVariableDeclaration
  pure (.varDecl name initializer)

/-- An expression unless the given symbol stands in its place. -/
def optionalExpression (s : Symbol) : Parse (Option Expr) := do
  if (← cursor).sees (.symbol s) then pure none else some <$> r.assignment bound

/-- What a loop does first, behind the opening parenthesis. -/
def forInitializer : Parse (Option Stmt) := do
  if ← accept (.symbol .semicolon) then pure none
  else if ← accept (.keyword .varWord) then some <$> r.varDeclaration bound
  else some <$> r.expressionStatement bound

/-- A counting loop written with blocks and a `while`. -/
def forLoop (initializer : Option Stmt) (condition : Expr) (increment : Option Expr)
    (body : Stmt) : Stmt :=
  let turn :=
    match increment with
    | some e => .block [body, .expression e]
    | none => body
  let loop := Stmt.whileLoop condition turn
  match initializer with
  | some s => .block [s, loop]
  | none => loop

/-- A loop with three clauses behind its keyword. -/
def forStatement : Parse Stmt := do
  let _ ← expectSymbol .leftParen .afterFor
  let initializer ← r.forInitializer bound
  let condition ← r.optionalExpression bound .semicolon
  let _ ← expectSymbol .semicolon .afterLoopCondition
  let increment ← r.optionalExpression bound .rightParen
  let _ ← expectSymbol .rightParen .afterForClauses
  let body ← r.statement
  let condition ←
    match condition with
    | some e => pure e
    | none => do pure (.literal (← freshId) (.boolean true))
  pure (forLoop initializer condition increment body)

/-- A conditional behind its keyword; an `else` belongs to the nearest one. -/
def ifStatement : Parse Stmt := do
  let _ ← expectSymbol .leftParen .afterIf
  let condition ← r.assignment bound
  let _ ← expectSymbol .rightParen .afterIfCondition
  let thenBranch ← r.statement
  let elseBranch ←
    if ← accept (.keyword .elseWord) then some <$> r.statement else pure none
  pure (.ifElse condition thenBranch elseBranch)

/-- A loop with a condition behind its keyword. -/
def whileStatement : Parse Stmt := do
  let _ ← expectSymbol .leftParen .afterWhile
  let condition ← r.assignment bound
  let _ ← expectSymbol .rightParen .afterCondition
  let body ← r.statement
  pure (.whileLoop condition body)

/-- An output behind its keyword on `line`. -/
def printStatement (line : Nat) : Parse Stmt := do
  let value ← r.assignment bound
  let _ ← expectSymbol .semicolon .afterValue
  pure (.print line value)

/-- A return behind its keyword on `line`. -/
def returnStatement (line : Nat) : Parse Stmt := do
  let value ← r.optionalExpression bound .semicolon
  let _ ← expectSymbol .semicolon .afterReturnValue
  pure (.returns line value)

/-- A statement that declares nothing. -/
def plainStatement : Parse Stmt := do
  let t := (← cursor).token
  match t.kind with
  | .keyword .forWord => do skip; r.forStatement bound
  | .keyword .ifWord => do skip; r.ifStatement bound
  | .keyword .whileWord => do skip; r.whileStatement bound
  | .keyword .returnWord => do skip; r.returnStatement bound t.line
  | .symbol .leftBrace => do skip; .block <$> r.block bound
  | .keyword .printWord => do skip; r.printStatement bound t.line
  | _ => r.expressionStatement bound

/-! ## Declarations -/

/-- The superclass behind a `<`, if there is one. -/
def superclassClause : Parse (Option SuperclassName) := do
  if ← accept (.symbol .less) then
    let name ← expectName .superclass
    pure (some ⟨← freshId, name⟩)
  else
    pure none

/-- A class behind its keyword. -/
def classDeclaration : Parse Stmt := do
  let name ← expectName .classDecl
  let superclass ← superclassClause
  let _ ← expectSymbol .leftBrace .beforeClassBody
  let methods ← itemsUntil Cursor.atBlockEnd (r.function bound .method) bound
  let _ ← expectSymbol .rightBrace .afterClassBody
  pure (.classDecl name superclass methods)

/-- A declaration or statement; a `fun` declares a function only if a name follows it. -/
def plainDeclaration : Parse Stmt := do
  let c ← cursor
  match c.token.kind with
  | .keyword .classWord => do skip; r.classDeclaration bound
  | .keyword .varWord => do skip; r.varDeclaration bound
  | .keyword .funWord =>
    if c.seesNameNext then do skip; .funDecl <$> r.function bound .function
    else r.plainStatement bound
  | _ => r.plainStatement bound

/-- The rules one level further out. -/
def outer : Rules where
  expression := r.assignment bound
  unary := r.unaryLevel bound
  statement := r.plainStatement bound
  declaration := recover (r.plainDeclaration bound)

/-- The rules that go `depth` levels deep, with loops of at most `bound` turns. -/
def atDepth (bound : Nat) : Nat → Rules
  | 0 => ⟨fail .tooDeep, fail .tooDeep, fail .tooDeep, fail .tooDeep⟩
  | depth + 1 => (atDepth bound depth).outer bound

end Rules

/-! ## Whole lists of tokens -/

/-- What parsing a list of tokens yields. -/
structure Parsed where
  /-- The statements that parsed without a failure of their own. -/
  statements : List Stmt
  /-- The recorded errors, in order. -/
  errors : List SyntaxError
  /-- The next unused id. -/
  nextId : Nat

/-- A depth that no list of tokens uses up. -/
def enoughDepth (tokens : List Token) : Nat := tokens.length + 1

/-- The rules for a list of tokens. -/
def Rules.forTokens (tokens : List Token) : Rules :=
  Rules.atDepth (enoughDepth tokens) (enoughDepth tokens)

/-- Parses a program, going on after each failed declaration. -/
def parse (firstId : Nat) (tokens : List Token) : Parsed :=
  let declarations :=
    Parse.itemsUntil Cursor.atEnd (Rules.forTokens tokens).declaration (enoughDepth tokens)
  match declarations (Cursor.start firstId tokens) with
  | .ok statements c => ⟨statements.filterMap id, c.errors.toList, c.nextId⟩
  | .error e c => ⟨[], (c.errors.push e).toList, c.nextId⟩

/-- What parsing a single expression yields. -/
structure ParsedExpression where
  outcome : Except SyntaxError Expr
  /-- The next unused id. -/
  nextId : Nat

/-- One expression up to the end. A failure of its own comes before a token left over, and
that before an error recorded inside it. -/
def wholeExpression (tokens : List Token) : Parse Expr := do
  let e ← (Rules.forTokens tokens).expression
  let c ← Parse.cursor
  if !c.atEnd then Parse.fail .trailingToken
  else
    match c.errors[0]? with
    | some first => throw first
    | none => pure e

/-- Parses a single expression. -/
def parseExpression (firstId : Nat) (tokens : List Token) : ParsedExpression :=
  match wholeExpression tokens (Cursor.start firstId tokens) with
  | .ok e c => ⟨.ok e, c.nextId⟩
  | .error e c => ⟨.error e, c.nextId⟩

end LexScript
