import LexScript.Program
import LexScript.Text.Document

/-!
# Outlines of programs

The outline of a program is the document that hands its tree to other tools. A form without
parts is named by a text, a form with one part by a field, a form with several parts by a
field that holds them in a fixed order. Operators, keywords and names are shown as tokens.

## Main definitions

* `Expr.outline`, `Stmt.outline`, `outlineProgram` : the documents of a tree.
-/

namespace LexScript

open Document

/-- A token as a document; the kinds that occur in trees denote no value. -/
def tokenOutline (kind : TokenKind) (line : Nat) : Document :=
  .fields [("token_type", .text kind.label), ("lexeme", .text kind.lexeme), ("line", .count line)]

/-- An identifier as a document. -/
def Ident.outline (x : Ident) : Document := tokenOutline (.identifier x.text) x.line

/-- A constant as a document. -/
def Literal.outline : Literal → Document
  | number x => tagged "Number" (.number x)
  | string s => tagged "Str" (.text s)
  | boolean true => .text "True"
  | boolean false => .text "False"
  | nil => .text "Nil"

/-- An expression with its id. -/
def nodeOutline (id : Nat) (kind : Document) : Document :=
  .fields [("id", .count id), ("kind", kind)]

/-- A variable that stands for the superclass of a class. -/
def SuperclassName.outline (s : SuperclassName) : Document :=
  nodeOutline s.id (tagged "Variable" s.ident.outline)

/-- A function from the token that names it, its parameters and its body. -/
def functionOutline (name : Document) (params : List Ident) (body : List Document) : Document :=
  .fields [("name", name), ("params", .list (params.map Ident.outline)), ("body", .list body)]

mutual

/-- The document of an expression. -/
def Expr.outline : Expr → Document
  | .literal id value => nodeOutline id (tagged "Literal" value.outline)
  | .grouping id inner => nodeOutline id (tagged "Grouping" inner.outline)
  | .unary id op line operand =>
    nodeOutline id (tagged "Unary" (.fields
      [("operator", tokenOutline op.kind line), ("right", operand.outline)]))
  | .binary id op line left right =>
    nodeOutline id (tagged "Binary" (.fields
      [("left", left.outline), ("operator", tokenOutline op.kind line),
        ("right", right.outline)]))
  | .logical id op line left right =>
    nodeOutline id (tagged "Logical" (.fields
      [("left", left.outline), ("operator", tokenOutline op.kind line),
        ("right", right.outline)]))
  | .read id name => nodeOutline id (tagged "Variable" name.outline)
  | .assign id name value =>
    nodeOutline id (tagged "Assign" (.fields
      [("name", name.outline), ("value", value.outline)]))
  | .call id callee line arguments =>
    nodeOutline id (tagged "Call" (.fields
      [("callee", callee.outline), ("paren", tokenOutline (.symbol .rightParen) line),
        ("arguments", .list (outlineExprs arguments))]))
  | .lambda id line params body =>
    nodeOutline id (tagged "Lambda"
      (functionOutline (tokenOutline (.keyword .funWord) line) params (outlineStmts body)))
  | .get id object name =>
    nodeOutline id (tagged "Get" (.fields
      [("object", object.outline), ("name", name.outline)]))
  | .set id object name value =>
    nodeOutline id (tagged "Set" (.fields
      [("object", object.outline), ("name", name.outline), ("value", value.outline)]))
  | .this id line => nodeOutline id (tagged "This" (tokenOutline (.keyword .thisWord) line))
  | .super id line method =>
    nodeOutline id (tagged "Super" (.fields
      [("keyword", tokenOutline (.keyword .superWord) line), ("method", method.outline)]))

/-- The documents of expressions. -/
def outlineExprs : List Expr → List Document
  | [] => []
  | e :: es => e.outline :: outlineExprs es

/-- The document of a statement. -/
def Stmt.outline : Stmt → Document
  | .expression e => tagged "Expression" e.outline
  | .print line value =>
    tagged "Print" (.fields
      [("keyword", tokenOutline (.keyword .printWord) line), ("value", value.outline)])
  | .varDecl name none =>
    tagged "Var" (.fields [("name", name.outline), ("initializer", .nothing)])
  | .varDecl name (some value) =>
    tagged "Var" (.fields [("name", name.outline), ("initializer", value.outline)])
  | .block body => tagged "Block" (.list (outlineStmts body))
  | .ifElse condition thenBranch none =>
    tagged "If" (.fields
      [("condition", condition.outline), ("then_branch", thenBranch.outline),
        ("else_branch", .nothing)])
  | .ifElse condition thenBranch (some elseBranch) =>
    tagged "If" (.fields
      [("condition", condition.outline), ("then_branch", thenBranch.outline),
        ("else_branch", elseBranch.outline)])
  | .whileLoop condition body =>
    tagged "While" (.fields [("condition", condition.outline), ("body", body.outline)])
  | .funDecl decl => tagged "Function" decl.outline
  | .returns line none =>
    tagged "Return" (.fields
      [("keyword", tokenOutline (.keyword .returnWord) line), ("value", .nothing)])
  | .returns line (some value) =>
    tagged "Return" (.fields
      [("keyword", tokenOutline (.keyword .returnWord) line), ("value", value.outline)])
  | .classDecl name superclass methods =>
    tagged "Class" (.fields
      [("name", name.outline),
        ("superclass",
          match superclass with
          | none => .nothing
          | some s => s.outline),
        ("methods", .list (outlineFunctions methods))])

/-- The documents of statements. -/
def outlineStmts : List Stmt → List Document
  | [] => []
  | s :: ss => s.outline :: outlineStmts ss

/-- The document of a named function. -/
def FunctionDecl.outline : FunctionDecl → Document
  | .mk name params body => functionOutline name.outline params (outlineStmts body)

/-- The documents of named functions. -/
def outlineFunctions : List FunctionDecl → List Document
  | [] => []
  | f :: fs => f.outline :: outlineFunctions fs

end

/-- The document of a program. -/
def outlineProgram (program : List Stmt) : Document := .list (outlineStmts program)

end LexScript
