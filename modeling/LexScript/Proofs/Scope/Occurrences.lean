import LexScript.Proofs.Scope.Uses

/-!
# Where the parts of a program lie

A part of a program, an expression or a statement, lies in blocks, in bodies of functions without a
name or with one, and in bodies of methods. A program is well scoped if every part lies where it
may and no scope binds a name twice; this is said of the program alone, without an order in which
its parts are met.

## Main definitions

* `Enclosure`, `Occurrence` : what a part lies in, and a part with all of it.
* `Expr.parts`, `Stmt.parts`, `partsOf` : the parts of an expression, a statement, a program.
* `IsWellScoped` : what a program that is statically legal has to satisfy.

## Main statements

* `isWellScoped_iff` : a program is well scoped if each of its parts is legal where it lies.
-/

namespace LexScript

/-! ### Enclosures -/

/-- What a part of a program can lie in. A body of a method is in a class with a name for the
method, and it counts whether the class inherits. -/
inductive Enclosure where
  | block
  | function
  | method (name : String) (inherits : Bool)
deriving DecidableEq

namespace Enclosure

/-- Whether a return leaves it. -/
def isBody : Enclosure → Bool
  | block => false
  | function | method _ _ => true

/-- Whether an instance is bound in it. -/
def isMethod : Enclosure → Bool
  | block | function => false
  | method _ _ => true

end Enclosure

/-- A part of a program. -/
inductive Part where
  | expr (e : Expr)
  | stmt (s : Stmt)

/-- A part and what it lies in, innermost first. -/
structure Occurrence where
  part : Part
  around : List Enclosure

/-! ### Parts -/

mutual

/-- The parts of an expression that lies in something, itself first. -/
def Expr.parts (around : List Enclosure) : Expr → List Occurrence
  | .literal id value => [⟨.expr (.literal id value), around⟩]
  | .grouping id inner => ⟨.expr (.grouping id inner), around⟩ :: inner.parts around
  | .unary id op line operand =>
    ⟨.expr (.unary id op line operand), around⟩ :: operand.parts around
  | .binary id op line left right =>
    ⟨.expr (.binary id op line left right), around⟩ :: (left.parts around ++ right.parts around)
  | .logical id op line left right =>
    ⟨.expr (.logical id op line left right), around⟩ :: (left.parts around ++ right.parts around)
  | .read id name => [⟨.expr (.read id name), around⟩]
  | .assign id name value => ⟨.expr (.assign id name value), around⟩ :: value.parts around
  | .call id callee line arguments =>
    ⟨.expr (.call id callee line arguments), around⟩ ::
      (callee.parts around ++ partsOfExprs around arguments)
  | .lambda id line params body =>
    ⟨.expr (.lambda id line params body), around⟩ :: partsOf (.function :: around) body
  | .get id object name => ⟨.expr (.get id object name), around⟩ :: object.parts around
  | .set id object name value =>
    ⟨.expr (.set id object name value), around⟩ :: (object.parts around ++ value.parts around)
  | .this id line => [⟨.expr (.this id line), around⟩]
  | .super id line method => [⟨.expr (.super id line method), around⟩]

/-- The parts of expressions. -/
def partsOfExprs (around : List Enclosure) : List Expr → List Occurrence
  | [] => []
  | e :: es => e.parts around ++ partsOfExprs around es

/-- The parts of a statement that lies in something, itself first. -/
def Stmt.parts (around : List Enclosure) : Stmt → List Occurrence
  | .expression e => ⟨.stmt (.expression e), around⟩ :: e.parts around
  | .print line value => ⟨.stmt (.print line value), around⟩ :: value.parts around
  | .varDecl name none => [⟨.stmt (.varDecl name none), around⟩]
  | .varDecl name (some value) =>
    ⟨.stmt (.varDecl name (some value)), around⟩ :: value.parts around
  | .block body => ⟨.stmt (.block body), around⟩ :: partsOf (.block :: around) body
  | .ifElse condition thenBranch none =>
    ⟨.stmt (.ifElse condition thenBranch none), around⟩ ::
      (condition.parts around ++ thenBranch.parts around)
  | .ifElse condition thenBranch (some elseBranch) =>
    ⟨.stmt (.ifElse condition thenBranch (some elseBranch)), around⟩ ::
      (condition.parts around ++ (thenBranch.parts around ++ elseBranch.parts around))
  | .whileLoop condition body =>
    ⟨.stmt (.whileLoop condition body), around⟩ :: (condition.parts around ++ body.parts around)
  | .funDecl decl => ⟨.stmt (.funDecl decl), around⟩ :: decl.parts (.function :: around)
  | .returns line none => [⟨.stmt (.returns line none), around⟩]
  | .returns line (some value) =>
    ⟨.stmt (.returns line (some value)), around⟩ :: value.parts around
  | .classDecl name superclass methods =>
    ⟨.stmt (.classDecl name superclass methods), around⟩ ::
      partsOfMethods superclass.isSome around methods

/-- The parts of a list of statements that lies in something. -/
def partsOf (around : List Enclosure) : List Stmt → List Occurrence
  | [] => []
  | s :: ss => s.parts around ++ partsOf around ss

/-- The parts of the body of a function, given what these lie in. -/
def FunctionDecl.parts (around : List Enclosure) : FunctionDecl → List Occurrence
  | .mk _ _ body => partsOf around body

/-- The parts of the methods of a class that lies in something. -/
def partsOfMethods (inherits : Bool) (around : List Enclosure) :
    List FunctionDecl → List Occurrence
  | [] => []
  | f :: fs =>
    f.parts (.method f.name.text inherits :: around) ++ partsOfMethods inherits around fs

end

/-! ### Names -/

/-- The identifier that a statement declares. -/
def Stmt.declared? : Stmt → Option Ident
  | .varDecl name _ | .classDecl name _ _ => some name
  | .funDecl decl => some decl.name
  | .expression _ | .print _ _ | .block _ | .ifElse _ _ _ | .whileLoop _ _ | .returns _ _ => none

theorem Stmt.declared?_eq_none {s : Stmt} (h : s.isDeclaration = false) : s.declared? = none := by
  cases s <;> first | rfl | cases h

/-- The names that the statements of a list declare themselves, in order. -/
def declaredNames (ss : List Stmt) : List String :=
  ss.filterMap fun s ↦ s.declared?.map Ident.text

/-- The names that the scope of a function binds: parameters, and what its body declares. -/
def functionNames (params : List Ident) (body : List Stmt) : List String :=
  params.map Ident.text ++ declaredNames body

mutual

/-- The variables that an expression reads outside of functions. -/
def Expr.reads : Expr → List String
  | .literal _ _ | .lambda _ _ _ _ | .this _ _ | .super _ _ _ => []
  | .grouping _ e | .unary _ _ _ e | .assign _ _ e | .get _ e _ => e.reads
  | .binary _ _ _ left right | .logical _ _ _ left right => left.reads ++ right.reads
  | .read _ name => [name.text]
  | .call _ callee _ arguments => callee.reads ++ readsOfExprs arguments
  | .set _ object _ value => object.reads ++ value.reads

/-- The variables that expressions read outside of functions. -/
def readsOfExprs : List Expr → List String
  | [] => []
  | e :: es => e.reads ++ readsOfExprs es

end

/-! ### Legal parts -/

/-- The names that the scopes of a part bind. -/
def Part.scopes : Part → List (List String)
  | .expr (.lambda _ _ params body) => [functionNames params body]
  | .stmt (.block body) => [declaredNames body]
  | .stmt (.funDecl decl) => [functionNames decl.params decl.body]
  | .stmt (.classDecl _ _ methods) => methods.map fun f ↦ functionNames f.params f.body
  | _ => []

/-- What makes a program statically legal. -/
structure IsWellScoped (program : List Stmt) : Prop where
  /-- A return lies in the body of a function. -/
  returns : ∀ line value around, ⟨.stmt (.returns line value), around⟩ ∈ partsOf [] program →
    ∃ body ∈ around, body.isBody = true
  /-- No value is returned from an initializer. -/
  values : ∀ line value around, ⟨.stmt (.returns line (some value)), around⟩ ∈ partsOf [] program →
    ∀ inherits, around.find? Enclosure.isBody ≠ some (.method "init" inherits)
  /-- An instance is named in the body of a method. -/
  this : ∀ id line around, ⟨.expr (.this id line), around⟩ ∈ partsOf [] program →
    ∃ body ∈ around, body.isMethod = true
  /-- A method of the superclass is named in the body of a method whose class has one. -/
  super : ∀ id line method around, ⟨.expr (.super id line method), around⟩ ∈ partsOf [] program →
    ∃ name, around.find? Enclosure.isMethod = some (.method name true)
  /-- No scope binds a name twice. -/
  scopes : ∀ o ∈ partsOf [] program, ∀ names ∈ o.part.scopes, names.Nodup
  /-- No local variable is read in its own initializer. -/
  initializers : ∀ x value around,
    ⟨.stmt (.varDecl x (some value)), around⟩ ∈ partsOf [] program → around ≠ [] →
      x.text ∉ value.reads
  /-- No class is its own superclass. -/
  superclasses : ∀ x s methods around,
    ⟨.stmt (.classDecl x (some s) methods), around⟩ ∈ partsOf [] program →
      s.ident.text ≠ x.text

/-- Whether a part may lie where it does. -/
def Occurrence.IsLegal (o : Occurrence) : Prop :=
  (∀ names ∈ o.part.scopes, names.Nodup) ∧
    match o.part with
    | .expr (.this _ _) => ∃ body ∈ o.around, body.isMethod = true
    | .expr (.super _ _ _) => ∃ name, o.around.find? Enclosure.isMethod = some (.method name true)
    | .stmt (.returns _ none) => ∃ body ∈ o.around, body.isBody = true
    | .stmt (.returns _ (some _)) => (∃ body ∈ o.around, body.isBody = true) ∧
      ∀ inherits, o.around.find? Enclosure.isBody ≠ some (.method "init" inherits)
    | .stmt (.varDecl x (some value)) => o.around ≠ [] → x.text ∉ value.reads
    | .stmt (.classDecl x (some s) _) => s.ident.text ≠ x.text
    | _ => True

/-- A program is well scoped if each of its parts is legal where it lies. -/
theorem isWellScoped_iff (program : List Stmt) :
    IsWellScoped program ↔ ∀ o ∈ partsOf [] program, o.IsLegal := by
  constructor
  · rintro h ⟨part, around⟩ ho
    refine ⟨h.scopes _ ho, ?_⟩
    dsimp only
    split
    · exact h.this _ _ _ ho
    · exact h.super _ _ _ _ ho
    · exact h.returns _ _ _ ho
    · exact ⟨h.returns _ _ _ ho, h.values _ _ _ ho⟩
    · exact h.initializers _ _ _ ho
    · exact h.superclasses _ _ _ _ ho
    · trivial
  · intro h
    exact {
      returns := fun _ value _ ho ↦ by
        cases value with
        | none => exact (h _ ho).2
        | some value => exact (h _ ho).2.1
      values := fun _ _ _ ho ↦ (h _ ho).2.2
      this := fun _ _ _ ho ↦ (h _ ho).2
      super := fun _ _ _ _ ho ↦ (h _ ho).2
      scopes := fun o ho ↦ (h o ho).1
      initializers := fun _ _ _ ho ↦ (h _ ho).2
      superclasses := fun _ _ _ _ ho ↦ (h _ ho).2 }

/-- All parts of something are legal where they lie. -/
def AreLegal (parts : List Occurrence) : Prop := ∀ o ∈ parts, o.IsLegal

@[simp] theorem areLegal_nil : AreLegal [] := nofun

@[simp] theorem areLegal_cons (o : Occurrence) (parts : List Occurrence) :
    AreLegal (o :: parts) ↔ o.IsLegal ∧ AreLegal parts := List.forall_mem_cons

@[simp] theorem areLegal_append (parts parts' : List Occurrence) :
    AreLegal (parts ++ parts') ↔ AreLegal parts ∧ AreLegal parts' := List.forall_mem_append

@[simp] theorem declaredNames_cons (s : Stmt) (ss : List Stmt) :
    declaredNames (s :: ss) = (s.declared?.map Ident.text).toList ++ declaredNames ss := by
  unfold declaredNames
  cases h : s.declared? <;> simp [h]

end LexScript
