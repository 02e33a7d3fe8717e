import LexScript.Diagnostic

/-!
# Programs

A program is a list of statements. Each expression carries an id that tells it apart from
every other expression of a session: name resolution records its findings under these ids.
Operators, keywords and closing parentheses that an error can be anchored at keep their
line; names keep theirs. A `for` loop is written with blocks and `while`.

## Main definitions

* `Expr`, `Stmt`, `FunctionDecl` : the forms of a program.
* `Name` : what a scope binds, identifiers apart from `this` and `super`.
-/

namespace LexScript

/-- What a scope binds. -/
inductive Name where
  | ident (text : String)
  | this
  | super
deriving DecidableEq

/-- The text of a name in a program. -/
def Name.text : Name → String
  | ident text => text
  | this => "this"
  | super => "super"

/-- An identifier and its line. -/
structure Ident where
  text : String
  line : Nat
deriving DecidableEq, Inhabited

/-- The name that an identifier denotes. -/
def Ident.name (x : Ident) : Name := .ident x.text

/-- The mark of an identifier. -/
def Ident.mark (x : Ident) : Mark := ⟨x.text, x.line⟩

/-- The constants that a program text can denote. -/
inductive Literal where
  | number (x : Number)
  | string (s : String)
  | boolean (b : Bool)
  | nil
deriving DecidableEq

/-- The operators of one operand. -/
inductive UnaryOp where
  | not
  | negate
deriving DecidableEq

/-- The operators of two operands that evaluate both. -/
inductive BinaryOp where
  | add
  | subtract
  | multiply
  | divide
  | equal
  | notEqual
  | greater
  | greaterEqual
  | less
  | lessEqual
deriving DecidableEq

/-- The operators of two operands that evaluate the second only if needed. -/
inductive LogicalOp where
  | and
  | or
deriving DecidableEq

/-- The token kind of an operator. -/
def UnaryOp.kind : UnaryOp → TokenKind
  | not => .symbol .bang
  | negate => .symbol .minus

/-- The token kind of an operator. -/
def BinaryOp.kind : BinaryOp → TokenKind
  | add => .symbol .plus
  | subtract => .symbol .minus
  | multiply => .symbol .star
  | divide => .symbol .slash
  | equal => .symbol .equalEqual
  | notEqual => .symbol .bangEqual
  | greater => .symbol .greater
  | greaterEqual => .symbol .greaterEqual
  | less => .symbol .less
  | lessEqual => .symbol .lessEqual

/-- The token kind of an operator. -/
def LogicalOp.kind : LogicalOp → TokenKind
  | and => .keyword .andWord
  | or => .keyword .orWord

/-- The superclass that a class declaration names, an occurrence of a variable. -/
structure SuperclassName where
  id : Nat
  ident : Ident
deriving DecidableEq

mutual

/-- An expression. -/
inductive Expr where
  | literal (id : Nat) (value : Literal)
  | grouping (id : Nat) (inner : Expr)
  | unary (id : Nat) (op : UnaryOp) (line : Nat) (operand : Expr)
  | binary (id : Nat) (op : BinaryOp) (line : Nat) (left right : Expr)
  | logical (id : Nat) (op : LogicalOp) (line : Nat) (left right : Expr)
  | read (id : Nat) (name : Ident)
  | assign (id : Nat) (name : Ident) (value : Expr)
  /-- A call keeps the line of its closing parenthesis. -/
  | call (id : Nat) (callee : Expr) (line : Nat) (arguments : List Expr)
  /-- A function without a name keeps the line of its keyword. -/
  | lambda (id : Nat) (line : Nat) (params : List Ident) (body : List Stmt)
  | get (id : Nat) (object : Expr) (name : Ident)
  | set (id : Nat) (object : Expr) (name : Ident) (value : Expr)
  | this (id : Nat) (line : Nat)
  | super (id : Nat) (line : Nat) (method : Ident)

/-- A statement. -/
inductive Stmt where
  | expression (e : Expr)
  | print (line : Nat) (value : Expr)
  | varDecl (name : Ident) (initializer : Option Expr)
  | block (body : List Stmt)
  | ifElse (condition : Expr) (thenBranch : Stmt) (elseBranch : Option Stmt)
  | whileLoop (condition : Expr) (body : Stmt)
  | funDecl (decl : FunctionDecl)
  | returns (line : Nat) (value : Option Expr)
  | classDecl (name : Ident) (superclass : Option SuperclassName) (methods : List FunctionDecl)

/-- A function or method with a name. -/
inductive FunctionDecl where
  | mk (name : Ident) (params : List Ident) (body : List Stmt)

end

/-- The id of an expression. -/
def Expr.id : Expr → Nat
  | literal id _ | grouping id _ | unary id _ _ _ | binary id _ _ _ _ | logical id _ _ _ _
  | read id _ | assign id _ _ | call id _ _ _ | lambda id _ _ _ | get id _ _ | set id _ _ _
  | this id _ | super id _ _ => id

namespace FunctionDecl

/-- The name under which a function is declared. -/
def name : FunctionDecl → Ident
  | mk name _ _ => name

/-- The parameters in order. -/
def params : FunctionDecl → List Ident
  | mk _ params _ => params

/-- The statements of the body. -/
def body : FunctionDecl → List Stmt
  | mk _ _ body => body

/-- Whether a method of this name is the initializer of its class. -/
def isInitializer (f : FunctionDecl) : Bool := f.name.text == "init"

end FunctionDecl

end LexScript
