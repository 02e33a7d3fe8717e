import LexScript.Program

/-!
# Printing programs

A program is printed as source text: one statement to a line, the statements of a block four
spaces further in, operators between blanks. A grouping keeps its parentheses and nothing
else gets any. The body of a function without a name is indented as if it stood at the left
margin.

## Main definitions

* `Expr.text`, `Stmt.text` : the text of an expression and of a statement at a depth.
* `printProgram` : the text of a program.
-/

namespace LexScript

/-- The text of a constant. -/
def Literal.text : Literal → String
  | number x => x.literalText
  | string s => "\"" ++ s ++ "\""
  | boolean true => "true"
  | boolean false => "false"
  | nil => "nil"

/-- Four spaces for each level of depth. -/
def indentation (depth : Nat) : String := String.ofList (List.replicate (4 * depth) ' ')

/-- Identifiers with commas between them. -/
def identList (names : List Ident) : String := ", ".intercalate (names.map Ident.text)

/-- The superclass behind the name of a class, if there is one. -/
def superclassText : Option SuperclassName → String
  | none => ""
  | some s => " < " ++ s.ident.text

mutual

/-- The text of an expression. -/
def Expr.text : Expr → String
  | .literal _ value => value.text
  | .grouping _ inner => "(" ++ inner.text ++ ")"
  | .unary _ op _ operand => op.kind.lexeme ++ operand.text
  | .binary _ op _ left right => left.text ++ " " ++ op.kind.lexeme ++ " " ++ right.text
  | .logical _ op _ left right => left.text ++ " " ++ op.kind.lexeme ++ " " ++ right.text
  | .read _ name => name.text
  | .assign _ name value => name.text ++ " = " ++ value.text
  | .call _ callee _ arguments => callee.text ++ "(" ++ argumentText arguments ++ ")"
  | .lambda _ _ params body => "fun (" ++ identList params ++ ") " ++ blockText 0 body
  | .get _ object name => object.text ++ "." ++ name.text
  | .set _ object name value => object.text ++ "." ++ name.text ++ " = " ++ value.text
  | .this _ _ => "this"
  | .super _ _ method => "super." ++ method.text

/-- Expressions with commas between them. -/
def argumentText : List Expr → String
  | [] => ""
  | e :: es => e.text ++ furtherText es

/-- Expressions with a comma before each. -/
def furtherText : List Expr → String
  | [] => ""
  | e :: es => ", " ++ e.text ++ furtherText es

/-- The text of a statement whose first line is already indented to `depth`. -/
def Stmt.text (depth : Nat) : Stmt → String
  | .expression e => e.text ++ ";"
  | .print _ value => "print " ++ value.text ++ ";"
  | .varDecl name none => "var " ++ name.text ++ ";"
  | .varDecl name (some value) => "var " ++ name.text ++ " = " ++ value.text ++ ";"
  | .block body => blockText depth body
  | .ifElse condition thenBranch none =>
    "if (" ++ condition.text ++ ") " ++ thenBranch.text depth
  | .ifElse condition thenBranch (some elseBranch) =>
    "if (" ++ condition.text ++ ") " ++ thenBranch.text depth ++ " else " ++
      elseBranch.text depth
  | .whileLoop condition body => "while (" ++ condition.text ++ ") " ++ body.text depth
  | .funDecl decl => "fun " ++ decl.text depth
  | .returns _ none => "return;"
  | .returns _ (some value) => "return " ++ value.text ++ ";"
  | .classDecl name superclass methods =>
    "class " ++ name.text ++ superclassText superclass ++ classBody depth methods

/-- The text of a function from its name on. -/
def FunctionDecl.text (depth : Nat) : FunctionDecl → String
  | .mk name params body =>
    name.text ++ "(" ++ identList params ++ ") " ++ blockText depth body

/-- The text of a block whose statements are one level further in. -/
def blockText (depth : Nat) : List Stmt → String
  | [] => "\x7b\x7d"
  | s :: ss =>
    "\x7b\n" ++ indentation (depth + 1) ++ s.text (depth + 1) ++ "\n" ++
      statementLines (depth + 1) ss ++ indentation depth ++ "\x7d"

/-- The text of the methods of a class, which are one level further in. -/
def classBody (depth : Nat) : List FunctionDecl → String
  | [] => " \x7b\x7d"
  | m :: ms =>
    " \x7b\n" ++ indentation (depth + 1) ++ m.text (depth + 1) ++ "\n" ++
      methodLines (depth + 1) ms ++ indentation depth ++ "\x7d"

/-- Statements, each on lines of its own. -/
def statementLines (depth : Nat) : List Stmt → String
  | [] => ""
  | s :: ss => indentation depth ++ s.text depth ++ "\n" ++ statementLines depth ss

/-- Methods, each on lines of its own. -/
def methodLines (depth : Nat) : List FunctionDecl → String
  | [] => ""
  | m :: ms => indentation depth ++ m.text depth ++ "\n" ++ methodLines depth ms

end

/-- The text of a program, without a newline at its end. -/
def printProgram (program : List Stmt) : String :=
  "\n".intercalate (program.map (Stmt.text 0))

end LexScript
