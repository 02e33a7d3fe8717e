import LexScript.Bindings
import LexScript.Program

/-!
# Name resolution

One walk over a program finds, for each use of a name, how many scopes lie between the use
and the scope that binds it, and reports what makes a program illegal. A use that no scope
binds is left to the globals. Blocks, function bodies (with their parameters), the methods
of a class and the superclass of a class open a scope each; the top level opens none.

The walk is a function on resolvers. It pushes scopes and contexts and takes them away
again, so what follows a statement is resolved as if the statement had only declared its
name. Uses and errors are kept in the order in which the walk meets them.

## Main definitions

* `Scope`, `Resolver` : what is known at a point of the walk.
* `Expr.resolve`, `Stmt.resolve` : the walk.
* `resolveProgram` : the uses and errors of a program.
-/

namespace LexScript

/-- The names of a scope, each with whether its declaration is complete. -/
abbrev Scope := Bindings Name Bool

/-- What kind of function body a point of the walk lies in. -/
inductive FunctionContext where
  | outside
  | inFunction
  | inInitializer
deriving DecidableEq

/-- What kind of class body a point of the walk lies in. -/
inductive ClassContext where
  | outside
  | inClass
  | inSubclass
deriving DecidableEq

/-- A use of a name: the expression, and how many scopes up its binding lies, if in a scope. -/
structure NameUse where
  id : Nat
  name : Name
  distance : Option Nat
deriving DecidableEq

/-- What is known at a point of the walk. -/
structure Resolver where
  /-- The open scopes, innermost first. -/
  scopes : List Scope
  functionContext : FunctionContext
  classContext : ClassContext
  /-- The uses met so far, in order. -/
  uses : Array NameUse
  /-- The errors met so far, in order. -/
  errors : Array ScopeError

namespace Resolver

/-- At the start of a program. -/
def start : Resolver := ⟨[], .outside, .outside, #[], #[]⟩

/-- Reports an error. -/
def report (r : Resolver) (fault : ScopeFault) (mark : Mark) : Resolver :=
  { r with errors := r.errors.push ⟨fault, mark⟩ }

/-- Opens a scope. -/
def enter (r : Resolver) : Resolver := { r with scopes := .empty :: r.scopes }

/-- Closes the innermost scope. -/
def leave (r : Resolver) : Resolver := { r with scopes := r.scopes.tail }

/-- Declares a name in the innermost scope, incomplete; a second declaration is an error. -/
def declare (r : Resolver) (x : Ident) : Resolver :=
  match r.scopes with
  | [] => r
  | scope :: outer =>
    if Bindings.binds scope x.name then r.report .redeclared x.mark
    else { r with scopes := Bindings.put scope x.name false :: outer }

/-- Completes a declaration in the innermost scope. -/
def define (r : Resolver) (x : Name) : Resolver :=
  match r.scopes with
  | [] => r
  | scope :: outer => { r with scopes := Bindings.put scope x true :: outer }

/-- Declares and completes at once. -/
def bind (r : Resolver) (x : Ident) : Resolver := (r.declare x).define x.name

/-- How many scopes up a name is bound. -/
def distance? (r : Resolver) (x : Name) : Option Nat := r.scopes.findIdx? (Bindings.binds · x)

/-- Notes a use of a name. -/
def use (r : Resolver) (id : Nat) (x : Name) : Resolver :=
  { r with uses := r.uses.push ⟨id, x, r.distance? x⟩ }

/-- Whether the innermost scope has a declaration of the name that is not complete. -/
def isIncomplete (r : Resolver) (x : Name) : Bool :=
  match r.scopes with
  | [] => false
  | scope :: _ => Bindings.find? scope x == some false

/-- Notes a read of a variable, an error inside its own initializer. -/
def read (r : Resolver) (id : Nat) (x : Ident) : Resolver :=
  (if r.isIncomplete x.name then r.report .ownInitializer x.mark else r).use id x.name

/-- Notes a use of `this`, an error outside of classes. -/
def this (r : Resolver) (id line : Nat) : Resolver :=
  match r.classContext with
  | .outside => r.report .thisOutsideClass ⟨"this", line⟩
  | _ => r.use id .this

/-- Notes a use of `super`, an error outside of classes with a superclass. -/
def super (r : Resolver) (id line : Nat) : Resolver :=
  match r.classContext with
  | .outside => r.report .superOutsideClass ⟨"super", line⟩
  | .inClass => r.report .superWithoutSuperclass ⟨"super", line⟩
  | .inSubclass => r.use id .super

/-- Walks something in a scope of its own. -/
def inScope (r : Resolver) (walk : Resolver → Resolver) : Resolver := (walk r.enter).leave

/-- In another function body, or outside of them. -/
def withFunctionContext (r : Resolver) (context : FunctionContext) : Resolver :=
  { r with functionContext := context }

/-- In another class body, or outside of them. -/
def withClassContext (r : Resolver) (context : ClassContext) : Resolver :=
  { r with classContext := context }

/-- Walks the body of a function in the scope of its parameters. -/
def inFunction (r : Resolver) (context : FunctionContext) (params : List Ident)
    (body : Resolver → Resolver) : Resolver :=
  ((r.withFunctionContext context).inScope fun r ↦ body (params.foldl bind r)).withFunctionContext
    r.functionContext

/-- Walks the methods of a class in a scope that binds `this`. -/
def inMethods (r : Resolver) (methods : Resolver → Resolver) : Resolver :=
  r.inScope fun r ↦ methods (r.define .this)

/-- Notes the superclass of a class, an error if it has the name of the class. -/
def inherits (r : Resolver) (name superclass : Ident) : Resolver :=
  if superclass.text == name.text then r.report .inheritsFromItself superclass.mark else r

/-- Walks the superclass of a class, and its methods in a scope that binds `super`. -/
def inSubclass (r : Resolver) (name : Ident) (superclass : SuperclassName)
    (methods : Resolver → Resolver) : Resolver :=
  let r := (r.inherits name superclass.ident).withClassContext .inSubclass
  (r.read superclass.id superclass.ident).inScope fun r ↦ (r.define .super).inMethods methods

/-- Walks a class declaration: its name, its superclass and its methods. -/
def inClass (r : Resolver) (name : Ident) (superclass : Option SuperclassName)
    (methods : Resolver → Resolver) : Resolver :=
  let inner := (r.withClassContext .inClass).bind name
  let inner :=
    match superclass with
    | none => inner.inMethods methods
    | some s => inner.inSubclass name s methods
  inner.withClassContext r.classContext

/-- Notes a return, an error outside of functions. -/
def returns (r : Resolver) (line : Nat) : Resolver :=
  match r.functionContext with
  | .outside => r.report .returnAtTopLevel ⟨"return", line⟩
  | _ => r

/-- Notes that a return has a value, an error in an initializer. -/
def returnsValue (r : Resolver) (line : Nat) : Resolver :=
  match r.functionContext with
  | .inInitializer => r.report .valueFromInitializer ⟨"return", line⟩
  | _ => r

end Resolver

mutual

/-- Resolves an expression. -/
def Expr.resolve : Expr → Resolver → Resolver
  | .literal _ _, r => r
  | .grouping _ inner, r => inner.resolve r
  | .unary _ _ _ operand, r => operand.resolve r
  | .binary _ _ _ left right, r => right.resolve (left.resolve r)
  | .logical _ _ _ left right, r => right.resolve (left.resolve r)
  | .read id name, r => r.read id name
  | .assign id name value, r => (value.resolve r).use id name.name
  | .call _ callee _ arguments, r => resolveExprs arguments (callee.resolve r)
  | .lambda _ _ params body, r => r.inFunction .inFunction params (resolveStmts body)
  | .get _ object _, r => object.resolve r
  | .set _ object _ value, r => object.resolve (value.resolve r)
  | .this id line, r => r.this id line
  | .super id line _, r => r.super id line

/-- Resolves expressions from left to right. -/
def resolveExprs : List Expr → Resolver → Resolver
  | [], r => r
  | e :: es, r => resolveExprs es (e.resolve r)

/-- Resolves a statement. -/
def Stmt.resolve : Stmt → Resolver → Resolver
  | .expression e, r => e.resolve r
  | .print _ value, r => value.resolve r
  | .varDecl name none, r => r.bind name
  | .varDecl name (some value), r => (value.resolve (r.declare name)).define name.name
  | .block body, r => r.inScope (resolveStmts body)
  | .ifElse condition thenBranch none, r => thenBranch.resolve (condition.resolve r)
  | .ifElse condition thenBranch (some elseBranch), r =>
    elseBranch.resolve (thenBranch.resolve (condition.resolve r))
  | .whileLoop condition body, r => body.resolve (condition.resolve r)
  | .funDecl decl, r => decl.resolve .inFunction (r.bind decl.name)
  | .returns line none, r => r.returns line
  | .returns line (some value), r => value.resolve ((r.returns line).returnsValue line)
  | .classDecl name superclass methods, r => r.inClass name superclass (resolveMethods methods)

/-- Resolves statements in order. -/
def resolveStmts : List Stmt → Resolver → Resolver
  | [], r => r
  | s :: ss, r => resolveStmts ss (s.resolve r)

/-- Resolves the parameters and the body of a function. -/
def FunctionDecl.resolve (context : FunctionContext) : FunctionDecl → Resolver → Resolver
  | .mk _ params body, r => r.inFunction context params (resolveStmts body)

/-- Resolves the methods of a class. -/
def resolveMethods : List FunctionDecl → Resolver → Resolver
  | [], r => r
  | f :: fs, r =>
    resolveMethods fs
      (f.resolve (if f.isInitializer then .inInitializer else .inFunction) r)

end

/-- What resolving a program yields. -/
structure Resolution where
  /-- The uses of names, in the order of the walk. -/
  uses : List NameUse
  /-- The errors, in the order of the walk. -/
  errors : List ScopeError

/-- The resolver behind a whole program. -/
def resolverAfter (program : List Stmt) : Resolver := resolveStmts program .start

/-- Resolves a program. -/
def resolveProgram (program : List Stmt) : Resolution :=
  let r := resolverAfter program
  ⟨r.uses.toList, r.errors.toList⟩

end LexScript
