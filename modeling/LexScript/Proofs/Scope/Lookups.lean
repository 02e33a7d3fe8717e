import LexScript.Proofs.Heap.Frames
import LexScript.Scope.Resolution

/-!
# Lookups

Name resolution only counts scopes. What it counts is told here: a scope is opened by a construct
of the program, and its names were declared as something. A lookup is a place in a program where
a name is looked up, together with all of this.

A scope that binds `super` is only ever opened for one that binds `this`. So where `super` is
looked up, `this` should be bound one scope further in than `super`.

## Main definitions

* `Construct`, `Role`, `OpenScope`, `Lookup` : what is known where a name is looked up.
* `Expr.lookups`, `Stmt.lookups` : the lookups of a program.
* `ClassContext.Suits`, `Lookup.HasReceiver` : where `this` and `super` are bound.
-/

namespace LexScript

/-- What opens a scope when names are resolved and a frame when the program runs. -/
inductive Construct where
  | block (body : List Stmt)
  /-- The parameters of a function and the declarations in its body share a scope. -/
  | function (params : List Ident) (body : List Stmt)
  /-- What binds `this` around the methods of a class. -/
  | this (methods : List FunctionDecl)
  /-- What binds `super` around the methods of a class. -/
  | super (methods : List FunctionDecl)

/-- What a name is declared as. -/
inductive Role where
  | variable
  | parameter
  | function
  | className
  | this
  | super
deriving DecidableEq

/-- A scope that is open at some point of a program. -/
structure OpenScope where
  construct : Construct
  names : Bindings Name Role

/-- Whether a scope binds a name. -/
def OpenScope.binds (scope : OpenScope) (x : Name) : Bool := scope.names.binds x

/-- How many scopes up a name is bound. -/
def scopesUp? (x : Name) (opens : List OpenScope) : Option Nat := opens.findIdx? (·.binds x)

/-- A place in a program where a name is looked up. -/
structure Lookup where
  id : Nat
  name : Name
  /-- The open scopes, innermost first. -/
  scopes : List OpenScope

/-- How many scopes up the name is bound. -/
def Lookup.distance? (l : Lookup) : Option Nat := scopesUp? l.name l.scopes

/-- The use that name resolution notes for a lookup. -/
def Lookup.use (l : Lookup) : NameUse := ⟨l.id, l.name, l.distance?⟩

/-! ### The lookups of a program -/

/-- Declares a name in the innermost scope. -/
def declareAs (x : Ident) (role : Role) : List OpenScope → List OpenScope
  | [] => []
  | scope :: outer => { scope with names := scope.names.put x.name role } :: outer

/-- The scopes behind a statement; branches declare nothing. -/
def Stmt.declare : Stmt → List OpenScope → List OpenScope
  | .varDecl name _ => declareAs name .variable
  | .funDecl decl => declareAs decl.name .function
  | .classDecl name _ _ => declareAs name .className
  | .expression _ | .print _ _ | .block _ | .ifElse _ _ _ | .whileLoop _ _ | .returns _ _ => id

/-- The scope of a block before its first statement. -/
def blockScope (body : List Stmt) : OpenScope := ⟨.block body, .empty⟩

/-- The scope of a function before the first statement of its body. -/
def functionScope (params : List Ident) (body : List Stmt) : OpenScope where
  construct := .function params body
  names := params.foldl (fun names x ↦ names.put x.name .parameter) .empty

/-- The scope that binds `this` around the methods of a class. -/
def thisScope (methods : List FunctionDecl) : OpenScope :=
  ⟨.this methods, Bindings.empty.put .this .this⟩

/-- The scope that binds `super` around the methods of a class. -/
def superScope (methods : List FunctionDecl) : OpenScope :=
  ⟨.super methods, Bindings.empty.put .super .super⟩

mutual

/-- The lookups of an expression. -/
def Expr.lookups (scopes : List OpenScope) : Expr → List Lookup
  | .literal _ _ => []
  | .grouping _ inner => inner.lookups scopes
  | .unary _ _ _ operand => operand.lookups scopes
  | .binary _ _ _ left right => left.lookups scopes ++ right.lookups scopes
  | .logical _ _ _ left right => left.lookups scopes ++ right.lookups scopes
  | .read id name => [⟨id, name.name, scopes⟩]
  | .assign id name value => value.lookups scopes ++ [⟨id, name.name, scopes⟩]
  | .call _ callee _ arguments => callee.lookups scopes ++ lookupsOfExprs scopes arguments
  | .lambda _ _ params body => lookupsOfStmts (functionScope params body :: scopes) body
  | .get _ object _ => object.lookups scopes
  | .set _ object _ value => value.lookups scopes ++ object.lookups scopes
  | .this id _ => [⟨id, .this, scopes⟩]
  | .super id _ _ => [⟨id, .super, scopes⟩]

/-- The lookups of expressions. -/
def lookupsOfExprs (scopes : List OpenScope) : List Expr → List Lookup
  | [] => []
  | e :: es => e.lookups scopes ++ lookupsOfExprs scopes es

/-- The lookups of a statement. A superclass is not looked up in the class that it is for. -/
def Stmt.lookups (scopes : List OpenScope) : Stmt → List Lookup
  | .expression e => e.lookups scopes
  | .print _ value => value.lookups scopes
  | .varDecl _ none => []
  | .varDecl name (some value) => value.lookups (declareAs name .variable scopes)
  | .block body => lookupsOfStmts (blockScope body :: scopes) body
  | .ifElse condition thenBranch none => condition.lookups scopes ++ thenBranch.lookups scopes
  | .ifElse condition thenBranch (some elseBranch) =>
    condition.lookups scopes ++ thenBranch.lookups scopes ++ elseBranch.lookups scopes
  | .whileLoop condition body => condition.lookups scopes ++ body.lookups scopes
  | .funDecl decl => decl.lookups (declareAs decl.name .function scopes)
  | .returns _ none => []
  | .returns _ (some value) => value.lookups scopes
  | .classDecl name none methods =>
    lookupsOfMethods (thisScope methods :: declareAs name .className scopes) methods
  | .classDecl name (some s) methods =>
    ⟨s.id, s.ident.name, scopes⟩ ::
      lookupsOfMethods (thisScope methods :: superScope methods :: declareAs name .className scopes)
        methods

/-- The lookups of statements, each behind those in front of it. -/
def lookupsOfStmts (scopes : List OpenScope) : List Stmt → List Lookup
  | [] => []
  | s :: ss => s.lookups scopes ++ lookupsOfStmts (s.declare scopes) ss

/-- The lookups in the body of a function. -/
def FunctionDecl.lookups (scopes : List OpenScope) : FunctionDecl → List Lookup
  | .mk _ params body => lookupsOfStmts (functionScope params body :: scopes) body

/-- The lookups in the bodies of methods. -/
def lookupsOfMethods (scopes : List OpenScope) : List FunctionDecl → List Lookup
  | [] => []
  | f :: fs => f.lookups scopes ++ lookupsOfMethods scopes fs

end

/-- The lookups of a program. -/
def lookupsOfProgram (program : List Stmt) : List Lookup := lookupsOfStmts [] program

/-! ### Where `this` and `super` are bound -/

/-- Scopes bind `this` in a class, and `super` one scope further out if the class has a
superclass. -/
def ClassContext.Suits (opens : List OpenScope) : ClassContext → Prop
  | .outside => True
  | .inClass => ∃ e, scopesUp? .this opens = some e
  | .inSubclass => ∃ e, scopesUp? .this opens = some e ∧ scopesUp? .super opens = some (e + 1)

/-- Where `this` or `super` is looked up, it is bound, and `this` one scope further in than
`super`. -/
def Lookup.HasReceiver (l : Lookup) : Prop :=
  match l.name with
  | .ident _ => True
  | .this => ClassContext.inClass.Suits l.scopes
  | .super => ClassContext.inSubclass.Suits l.scopes

/-- A scope that binds neither `this` nor `super`. -/
def OpenScope.BindsNoReceiver (o : OpenScope) : Prop :=
  ∀ x : Name, x.isReceiver = true → o.binds x = false

theorem blockScope_bindsNoReceiver (body : List Stmt) : (blockScope body).BindsNoReceiver :=
  fun _ _ ↦ rfl

theorem functionScope_bindsNoReceiver (params : List Ident) (body : List Stmt) :
    (functionScope params body).BindsNoReceiver := by
  intro x hx
  have hparams (names : Bindings Name Role) :
      (params.foldl (fun names p ↦ names.put p.name .parameter) names).binds x = names.binds x := by
    induction params generalizing names with
    | nil => rfl
    | cons p params ih =>
      have hne : x ≠ p.name := by
        rintro rfl
        cases hx
      rw [List.foldl_cons, ih, Bindings.binds_put, beq_false_of_ne hne, Bool.false_or]
  exact hparams .empty

theorem scopesUp?_cons (x : Name) (o : OpenScope) (opens : List OpenScope) :
    scopesUp? x (o :: opens) = if o.binds x then some 0 else (scopesUp? x opens).map (· + 1) :=
  List.findIdx?_cons

theorem scopesUp?_declareAs {x : Ident} {y : Name} (h : y ≠ x.name) (role : Role)
    (opens : List OpenScope) : scopesUp? y (declareAs x role opens) = scopesUp? y opens := by
  cases opens with
  | nil => rfl
  | cons o opens =>
    have hbinds : (o.names.put x.name role).binds y = o.names.binds y := by
      rw [Bindings.binds_put, beq_false_of_ne h, Bool.false_or]
    rw [declareAs, scopesUp?_cons, scopesUp?_cons, OpenScope.binds, OpenScope.binds, hbinds]

namespace ClassContext.Suits

variable {context : ClassContext} {opens : List OpenScope}

theorem inside (h : context.Suits opens) {o : OpenScope} (ho : o.BindsNoReceiver) :
    context.Suits (o :: opens) := by
  have hup (x : Name) (hx : x.isReceiver = true) :
      scopesUp? x (o :: opens) = (scopesUp? x opens).map (· + 1) := by
    rw [scopesUp?_cons, ho x hx, if_neg Bool.false_ne_true]
  cases context with
  | outside => trivial
  | inClass =>
    obtain ⟨e, he⟩ := h
    exact ⟨e + 1, by rw [hup _ rfl, he, Option.map_some]⟩
  | inSubclass =>
    obtain ⟨e, he, he'⟩ := h
    exact ⟨e + 1, by rw [hup _ rfl, he, Option.map_some], by rw [hup _ rfl, he', Option.map_some]⟩

theorem declareAs (h : context.Suits opens) (x : Ident) (role : Role) :
    context.Suits (declareAs x role opens) := by
  cases context with
  | outside => trivial
  | inClass =>
    obtain ⟨e, he⟩ := h
    exact ⟨e, by rw [scopesUp?_declareAs Name.noConfusion, he]⟩
  | inSubclass =>
    obtain ⟨e, he, he'⟩ := h
    exact ⟨e, by rw [scopesUp?_declareAs Name.noConfusion, he],
      by rw [scopesUp?_declareAs Name.noConfusion, he']⟩

end ClassContext.Suits

end LexScript
