import Mathlib.Logic.Equiv.Basic
import LexScript.Machine
import LexScript.Proofs.Scope.Lookups

/-!
# Programs with a renamed variable

A variable is renamed in some of the scopes of a program, those where it is a `var` or a parameter:
its declarations there get the new name, and so does each use that name resolution has bound to one
of these scopes. Everything else keeps its name, also what has the same name in another scope.

A scope is marked if the variable is renamed there. The two names change places in a marked scope,
so no two names of a scope become one, whether or not the new name is used elsewhere.

## Main definitions

* `Renaming` : the two names, the distances of uses and which uses get the new name.
* `Stmt.RenamesTo`, `RenamesProgramTo` : a program with a renamed variable.
* `Stmt.variables`, `variablesOfProgram` : the identifiers that are declared or looked up.

## Main statements

* `renamesProgramTo_self` : where no scope is marked and no use renamed, a program is renamed to
  itself.
-/

namespace LexScript

/-- What renames a variable: its name, the name that it gets, the distances of uses, and the ids of
the uses that get the new name. -/
structure Renaming where
  old : String
  new : String
  distances : Distances
  uses : List Nat

namespace Renaming

/-! ### Names -/

/-- The name of what has a name in a scope that is marked or not. -/
def text (ρ : Renaming) (mark : Bool) (name : String) : String :=
  if mark then Equiv.swap ρ.old ρ.new name else name

/-- An identifier of a scope that is marked or not. -/
def ident (ρ : Renaming) (mark : Bool) (x : Ident) : Ident := ⟨ρ.text mark x.text, x.line⟩

/-- What a scope that is marked or not binds. -/
def name (ρ : Renaming) (mark : Bool) : Name → Name
  | .ident text => .ident (ρ.text mark text)
  | .this => .this
  | .super => .super

/-- Whether a use is bound in a marked scope, given the marks of the scopes around it, innermost
first. The globals are not marked. -/
def reaches (ρ : Renaming) (marks : List Bool) (id : Nat) : Bool :=
  match ρ.distances.find? id with
  | some distance => marks.getD distance false
  | none => false

/-- A name can be used: if the use is bound in a marked scope, then it is not the new name, and
exactly the uses of the old name that are bound in marked scopes get the new one. -/
structure Allows (ρ : Renaming) (marks : List Bool) (id : Nat) (x : Name) : Prop where
  ne_new : ρ.reaches marks id = true → x ≠ .ident ρ.new
  mem_uses : id ∈ ρ.uses ↔ ρ.reaches marks id = true ∧ x = .ident ρ.old

variable (ρ : Renaming) (mark : Bool)

@[simp] theorem text_false (name : String) : ρ.text false name = name := rfl

@[simp] theorem ident_false (x : Ident) : ρ.ident false x = x := rfl

@[simp] theorem name_false (x : Name) : ρ.name false x = x := by
  cases x <;> rfl

@[simp] theorem name_ident (x : Ident) : (ρ.ident mark x).name = ρ.name mark x.name := rfl

@[simp] theorem line_ident (x : Ident) : (ρ.ident mark x).line = x.line := rfl

@[simp] theorem text_text (name : String) : ρ.text mark (ρ.text mark name) = name := by
  cases mark
  · rfl
  · exact Equiv.swap_apply_self ..

@[simp] theorem name_name (x : Name) : ρ.name mark (ρ.name mark x) = x := by
  cases x with
  | ident text => exact congrArg Name.ident (ρ.text_text mark text)
  | this => rfl
  | super => rfl

variable {ρ mark}

/-- Different names remain different. -/
@[simp] theorem name_inj {x y : Name} : ρ.name mark x = ρ.name mark y ↔ x = y := by
  refine ⟨fun h ↦ ?_, congrArg _⟩
  rw [← ρ.name_name mark x, h, ρ.name_name]

/-- A name other than the new one is kept, unless it is the old one and becomes the new one. -/
theorem text_cases (mark : Bool) {name : String} (h : name ≠ ρ.new) :
    ρ.text mark name = name ∨ name = ρ.old ∧ ρ.text mark name = ρ.new := by
  cases mark with
  | false => exact .inl rfl
  | true =>
    by_cases hold : name = ρ.old
    · subst hold
      exact .inr ⟨rfl, Equiv.swap_apply_left ..⟩
    · exact .inl (Equiv.swap_apply_of_ne_of_ne hold h)

@[simp] theorem map_ident_false (xs : List Ident) : xs.map (ρ.ident false) = xs :=
  List.map_id'' (fun _ ↦ rfl) xs

variable (ρ) in
theorem reaches_eq_false {marks : List Bool} (h : ∀ mark ∈ marks, mark = false) (id : Nat) :
    ρ.reaches marks id = false := by
  unfold reaches
  split
  · next distance _ =>
    rw [List.getD_eq_getElem?_getD]
    cases hmark : marks[distance]? with
    | none => rfl
    | some mark => exact h mark (List.mem_of_getElem? hmark)
  · rfl

end Renaming

/-! ### Programs -/

mutual

/-- An expression becomes another one, inside scopes with the given marks. -/
inductive Expr.RenamesTo (ρ : Renaming) : List Bool → Expr → Expr → Prop where
  | literal {marks : List Bool} {id : Nat} {value : Literal} :
      Expr.RenamesTo ρ marks (.literal id value) (.literal id value)
  | grouping {marks : List Bool} {id : Nat} {e e' : Expr} (inner : Expr.RenamesTo ρ marks e e') :
      Expr.RenamesTo ρ marks (.grouping id e) (.grouping id e')
  | unary {marks : List Bool} {id : Nat} {op : UnaryOp} {line : Nat} {e e' : Expr}
      (operand : Expr.RenamesTo ρ marks e e') :
      Expr.RenamesTo ρ marks (.unary id op line e) (.unary id op line e')
  | binary {marks : List Bool} {id : Nat} {op : BinaryOp} {line : Nat} {l l' r r' : Expr}
      (left : Expr.RenamesTo ρ marks l l') (right : Expr.RenamesTo ρ marks r r') :
      Expr.RenamesTo ρ marks (.binary id op line l r) (.binary id op line l' r')
  | logical {marks : List Bool} {id : Nat} {op : LogicalOp} {line : Nat} {l l' r r' : Expr}
      (left : Expr.RenamesTo ρ marks l l') (right : Expr.RenamesTo ρ marks r r') :
      Expr.RenamesTo ρ marks (.logical id op line l r) (.logical id op line l' r')
  /-- A use is renamed with the scope that binds it. -/
  | read {marks : List Bool} {id : Nat} {x : Ident} (allowed : ρ.Allows marks id x.name) :
      Expr.RenamesTo ρ marks (.read id x) (.read id (ρ.ident (ρ.reaches marks id) x))
  | assign {marks : List Bool} {id : Nat} {x : Ident} {e e' : Expr}
      (allowed : ρ.Allows marks id x.name) (value : Expr.RenamesTo ρ marks e e') :
      Expr.RenamesTo ρ marks (.assign id x e) (.assign id (ρ.ident (ρ.reaches marks id) x) e')
  | call {marks : List Bool} {id line : Nat} {e e' : Expr} {es es' : List Expr}
      (callee : Expr.RenamesTo ρ marks e e') (arguments : RenamesExprsTo ρ marks es es') :
      Expr.RenamesTo ρ marks (.call id e line es) (.call id e' line es')
  | lambda {marks : List Bool} {id line : Nat} {xs : List Ident} {ss ss' : List Stmt} (mark : Bool)
      (body : RenamesProgramTo ρ (mark :: marks) ss ss') :
      Expr.RenamesTo ρ marks (.lambda id line xs ss) (.lambda id line (xs.map (ρ.ident mark)) ss')
  | get {marks : List Bool} {id : Nat} {e e' : Expr} {x : Ident}
      (object : Expr.RenamesTo ρ marks e e') :
      Expr.RenamesTo ρ marks (.get id e x) (.get id e' x)
  | set {marks : List Bool} {id : Nat} {o o' e e' : Expr} {x : Ident}
      (object : Expr.RenamesTo ρ marks o o') (value : Expr.RenamesTo ρ marks e e') :
      Expr.RenamesTo ρ marks (.set id o x e) (.set id o' x e')
  | this {marks : List Bool} {id line : Nat} (allowed : ρ.Allows marks id .this) :
      Expr.RenamesTo ρ marks (.this id line) (.this id line)
  | super {marks : List Bool} {id line : Nat} {x : Ident} (allowed : ρ.Allows marks id .super) :
      Expr.RenamesTo ρ marks (.super id line x) (.super id line x)

/-- Expressions become other ones. -/
inductive RenamesExprsTo (ρ : Renaming) : List Bool → List Expr → List Expr → Prop where
  | nil {marks : List Bool} : RenamesExprsTo ρ marks [] []
  | cons {marks : List Bool} {e e' : Expr} {es es' : List Expr}
      (first : Expr.RenamesTo ρ marks e e') (others : RenamesExprsTo ρ marks es es') :
      RenamesExprsTo ρ marks (e :: es) (e' :: es')

/-- A statement becomes another one. Functions and classes that it declares keep their names. -/
inductive Stmt.RenamesTo (ρ : Renaming) : List Bool → Stmt → Stmt → Prop where
  | expression {marks : List Bool} {e e' : Expr} (inner : Expr.RenamesTo ρ marks e e') :
      Stmt.RenamesTo ρ marks (.expression e) (.expression e')
  | print {marks : List Bool} {line : Nat} {e e' : Expr} (value : Expr.RenamesTo ρ marks e e') :
      Stmt.RenamesTo ρ marks (.print line e) (.print line e')
  | varNil {marks : List Bool} {x : Ident} :
      Stmt.RenamesTo ρ marks (.varDecl x none) (.varDecl (ρ.ident (marks.headD false) x) none)
  | varValue {marks : List Bool} {x : Ident} {e e' : Expr} (value : Expr.RenamesTo ρ marks e e') :
      Stmt.RenamesTo ρ marks (.varDecl x (some e))
        (.varDecl (ρ.ident (marks.headD false) x) (some e'))
  | block {marks : List Bool} {ss ss' : List Stmt} (mark : Bool)
      (body : RenamesProgramTo ρ (mark :: marks) ss ss') :
      Stmt.RenamesTo ρ marks (.block ss) (.block ss')
  | ifThen {marks : List Bool} {e e' : Expr} {s s' : Stmt}
      (condition : Expr.RenamesTo ρ marks e e') (thenBranch : Stmt.RenamesTo ρ marks s s') :
      Stmt.RenamesTo ρ marks (.ifElse e s none) (.ifElse e' s' none)
  | ifElse {marks : List Bool} {e e' : Expr} {s s' t t' : Stmt}
      (condition : Expr.RenamesTo ρ marks e e') (thenBranch : Stmt.RenamesTo ρ marks s s')
      (elseBranch : Stmt.RenamesTo ρ marks t t') :
      Stmt.RenamesTo ρ marks (.ifElse e s (some t)) (.ifElse e' s' (some t'))
  | whileLoop {marks : List Bool} {e e' : Expr} {s s' : Stmt}
      (condition : Expr.RenamesTo ρ marks e e') (body : Stmt.RenamesTo ρ marks s s') :
      Stmt.RenamesTo ρ marks (.whileLoop e s) (.whileLoop e' s')
  | funDecl {marks : List Bool} {f f' : FunctionDecl}
      (name : ρ.ident (marks.headD false) f.name = f.name)
      (decl : FunctionDecl.RenamesTo ρ marks f f') :
      Stmt.RenamesTo ρ marks (.funDecl f) (.funDecl f')
  | returnNil {marks : List Bool} {line : Nat} :
      Stmt.RenamesTo ρ marks (.returns line none) (.returns line none)
  | returnValue {marks : List Bool} {line : Nat} {e e' : Expr}
      (value : Expr.RenamesTo ρ marks e e') :
      Stmt.RenamesTo ρ marks (.returns line (some e)) (.returns line (some e'))
  /-- Methods lie in a scope that binds `this`. -/
  | classDecl {marks : List Bool} {x : Ident} {fs fs' : List FunctionDecl}
      (name : ρ.ident (marks.headD false) x = x)
      (methods : RenamesMethodsTo ρ (false :: marks) fs fs') :
      Stmt.RenamesTo ρ marks (.classDecl x none fs) (.classDecl x none fs')
  /-- Methods of a class with a superclass also lie in a scope that binds `super`. -/
  | subclassDecl {marks : List Bool} {x y : Ident} {id : Nat} {fs fs' : List FunctionDecl}
      (name : ρ.ident (marks.headD false) x = x)
      (allowed : ρ.Allows marks id y.name)
      (methods : RenamesMethodsTo ρ (false :: false :: marks) fs fs') :
      Stmt.RenamesTo ρ marks (.classDecl x (some ⟨id, y⟩) fs)
        (.classDecl x (some ⟨id, ρ.ident (ρ.reaches marks id) y⟩) fs')

/-- Statements become other ones. -/
inductive RenamesProgramTo (ρ : Renaming) : List Bool → List Stmt → List Stmt → Prop where
  | nil {marks : List Bool} : RenamesProgramTo ρ marks [] []
  | cons {marks : List Bool} {s s' : Stmt} {ss ss' : List Stmt}
      (first : Stmt.RenamesTo ρ marks s s') (others : RenamesProgramTo ρ marks ss ss') :
      RenamesProgramTo ρ marks (s :: ss) (s' :: ss')

/-- The parameters and the body of a function become other ones. -/
inductive FunctionDecl.RenamesTo (ρ : Renaming) :
    List Bool → FunctionDecl → FunctionDecl → Prop where
  | mk {marks : List Bool} {x : Ident} {xs : List Ident} {ss ss' : List Stmt} (mark : Bool)
      (body : RenamesProgramTo ρ (mark :: marks) ss ss') :
      FunctionDecl.RenamesTo ρ marks (.mk x xs ss) (.mk x (xs.map (ρ.ident mark)) ss')

/-- Methods become other ones. -/
inductive RenamesMethodsTo (ρ : Renaming) :
    List Bool → List FunctionDecl → List FunctionDecl → Prop where
  | nil {marks : List Bool} : RenamesMethodsTo ρ marks [] []
  | cons {marks : List Bool} {f f' : FunctionDecl} {fs fs' : List FunctionDecl}
      (first : FunctionDecl.RenamesTo ρ marks f f') (others : RenamesMethodsTo ρ marks fs fs') :
      RenamesMethodsTo ρ marks (f :: fs) (f' :: fs')

end

variable {ρ : Renaming} {marks : List Bool}

theorem FunctionDecl.RenamesTo.name {f f' : FunctionDecl} (h : f.RenamesTo ρ marks f') :
    f'.name = f.name := by
  cases h
  rfl

theorem FunctionDecl.RenamesTo.isInitializer {f f' : FunctionDecl}
    (h : f.RenamesTo ρ marks f') : f'.isInitializer = f.isInitializer := by
  rw [FunctionDecl.isInitializer, FunctionDecl.isInitializer, h.name]

theorem FunctionDecl.RenamesTo.exists_mark {f f' : FunctionDecl} (h : f.RenamesTo ρ marks f') :
    ∃ mark, f'.params = f.params.map (ρ.ident mark) ∧
      RenamesProgramTo ρ (mark :: marks) f.body f'.body := by
  cases h with
  | mk mark body => exact ⟨mark, rfl, body⟩

/-! ### Programs without marks -/

theorem headD_eq_false (h : ∀ mark ∈ marks, mark = false) : marks.headD false = false := by
  cases marks with
  | nil => rfl
  | cons mark marks => exact h mark List.mem_cons_self

theorem forall_cons_eq_false (h : ∀ mark ∈ marks, mark = false) :
    ∀ mark ∈ false :: marks, mark = false := List.forall_mem_cons.2 ⟨rfl, h⟩

/-- The use of a name that gets the new one nowhere. -/
theorem Renaming.allows_of_unmarked (h : ∀ mark ∈ marks, mark = false) {id : Nat}
    (hid : id ∉ ρ.uses) (x : Name) : ρ.Allows marks id x := by
  have hreaches := ρ.reaches_eq_false h id
  refine ⟨fun hid' ↦ ?_, iff_of_false hid fun hid' ↦ ?_⟩
  · cases hreaches.symm.trans hid'
  · cases hreaches.symm.trans hid'.1

mutual

theorem Expr.renamesTo_self : ∀ (e : Expr) {marks : List Bool} {scopes : List OpenScope},
    (∀ mark ∈ marks, mark = false) → (∀ l ∈ e.lookups scopes, l.id ∉ ρ.uses) →
    e.RenamesTo ρ marks e
  | .literal _ _, _, _, _, _ => .literal
  | .grouping _ inner, _, _, h, hl => by
    rw [Expr.lookups] at hl
    exact .grouping (inner.renamesTo_self h hl)
  | .unary _ _ _ operand, _, _, h, hl => by
    rw [Expr.lookups] at hl
    exact .unary (operand.renamesTo_self h hl)
  | .binary _ _ _ left right, _, _, h, hl => by
    rw [Expr.lookups, List.forall_mem_append] at hl
    exact .binary (left.renamesTo_self h hl.1) (right.renamesTo_self h hl.2)
  | .logical _ _ _ left right, _, _, h, hl => by
    rw [Expr.lookups, List.forall_mem_append] at hl
    exact .logical (left.renamesTo_self h hl.1) (right.renamesTo_self h hl.2)
  | .read id x, marks, _, h, hl => by
    rw [Expr.lookups, List.forall_mem_singleton] at hl
    have hread : (Expr.read id x).RenamesTo ρ marks _ :=
      .read (Renaming.allows_of_unmarked h hl x.name)
    rwa [ρ.reaches_eq_false h] at hread
  | .assign id x value, marks, _, h, hl => by
    rw [Expr.lookups, List.forall_mem_append, List.forall_mem_singleton] at hl
    have hassign : (Expr.assign id x value).RenamesTo ρ marks _ :=
      .assign (Renaming.allows_of_unmarked h hl.2 x.name) (value.renamesTo_self h hl.1)
    rwa [ρ.reaches_eq_false h] at hassign
  | .call _ callee _ arguments, _, _, h, hl => by
    rw [Expr.lookups, List.forall_mem_append] at hl
    exact .call (callee.renamesTo_self h hl.1) (renamesExprsTo_self arguments h hl.2)
  | .lambda id line xs body, marks, _, h, hl => by
    rw [Expr.lookups] at hl
    have hlambda : (Expr.lambda id line xs body).RenamesTo ρ marks _ :=
      .lambda false (renamesProgramTo_self body (forall_cons_eq_false h) hl)
    rwa [Renaming.map_ident_false] at hlambda
  | .get _ object _, _, _, h, hl => by
    rw [Expr.lookups] at hl
    exact .get (object.renamesTo_self h hl)
  | .set _ object _ value, _, _, h, hl => by
    rw [Expr.lookups, List.forall_mem_append] at hl
    exact .set (object.renamesTo_self h hl.2) (value.renamesTo_self h hl.1)
  | .this _ _, _, _, h, hl => by
    rw [Expr.lookups, List.forall_mem_singleton] at hl
    exact .this (Renaming.allows_of_unmarked h hl .this)
  | .super _ _ _, _, _, h, hl => by
    rw [Expr.lookups, List.forall_mem_singleton] at hl
    exact .super (Renaming.allows_of_unmarked h hl .super)

theorem renamesExprsTo_self : ∀ (es : List Expr) {marks : List Bool} {scopes : List OpenScope},
    (∀ mark ∈ marks, mark = false) → (∀ l ∈ lookupsOfExprs scopes es, l.id ∉ ρ.uses) →
    RenamesExprsTo ρ marks es es
  | [], _, _, _, _ => .nil
  | e :: es, _, _, h, hl => by
    rw [lookupsOfExprs, List.forall_mem_append] at hl
    exact .cons (e.renamesTo_self h hl.1) (renamesExprsTo_self es h hl.2)

theorem Stmt.renamesTo_self : ∀ (s : Stmt) {marks : List Bool} {scopes : List OpenScope},
    (∀ mark ∈ marks, mark = false) → (∀ l ∈ s.lookups scopes, l.id ∉ ρ.uses) →
    s.RenamesTo ρ marks s
  | .expression e, _, _, h, hl => by
    rw [Stmt.lookups] at hl
    exact .expression (e.renamesTo_self h hl)
  | .print _ value, _, _, h, hl => by
    rw [Stmt.lookups] at hl
    exact .print (value.renamesTo_self h hl)
  | .varDecl x none, marks, _, h, _ => by
    have hvar : (Stmt.varDecl x none).RenamesTo ρ marks _ := .varNil
    rwa [headD_eq_false h] at hvar
  | .varDecl x (some value), marks, _, h, hl => by
    rw [Stmt.lookups] at hl
    have hvar : (Stmt.varDecl x (some value)).RenamesTo ρ marks _ :=
      .varValue (value.renamesTo_self h hl)
    rwa [headD_eq_false h] at hvar
  | .block body, _, _, h, hl => by
    rw [Stmt.lookups] at hl
    exact .block false (renamesProgramTo_self body (forall_cons_eq_false h) hl)
  | .ifElse condition thenBranch none, _, _, h, hl => by
    rw [Stmt.lookups, List.forall_mem_append] at hl
    exact .ifThen (condition.renamesTo_self h hl.1) (thenBranch.renamesTo_self h hl.2)
  | .ifElse condition thenBranch (some elseBranch), _, _, h, hl => by
    rw [Stmt.lookups, List.forall_mem_append, List.forall_mem_append] at hl
    exact .ifElse (condition.renamesTo_self h hl.1.1) (thenBranch.renamesTo_self h hl.1.2)
      (elseBranch.renamesTo_self h hl.2)
  | .whileLoop condition body, _, _, h, hl => by
    rw [Stmt.lookups, List.forall_mem_append] at hl
    exact .whileLoop (condition.renamesTo_self h hl.1) (body.renamesTo_self h hl.2)
  | .funDecl decl, _, _, h, hl => by
    rw [Stmt.lookups] at hl
    exact .funDecl (by rw [headD_eq_false h, ρ.ident_false]) (decl.renamesTo_self h hl)
  | .returns _ none, _, _, _, _ => .returnNil
  | .returns _ (some value), _, _, h, hl => by
    rw [Stmt.lookups] at hl
    exact .returnValue (value.renamesTo_self h hl)
  | .classDecl _ none methods, _, _, h, hl => by
    rw [Stmt.lookups] at hl
    exact .classDecl (by rw [headD_eq_false h, ρ.ident_false])
      (renamesMethodsTo_self methods (forall_cons_eq_false h) hl)
  | .classDecl x (some ⟨id, y⟩) methods, marks, _, h, hl => by
    rw [Stmt.lookups, List.forall_mem_cons] at hl
    have hclass : (Stmt.classDecl x (some ⟨id, y⟩) methods).RenamesTo ρ marks _ :=
      .subclassDecl (by rw [headD_eq_false h, ρ.ident_false])
        (Renaming.allows_of_unmarked h hl.1 y.name)
        (renamesMethodsTo_self methods (forall_cons_eq_false (forall_cons_eq_false h)) hl.2)
    rwa [ρ.reaches_eq_false h] at hclass

/-- Where no scope is marked and no use is renamed, a program is renamed to itself. -/
theorem renamesProgramTo_self : ∀ (ss : List Stmt) {marks : List Bool} {scopes : List OpenScope},
    (∀ mark ∈ marks, mark = false) → (∀ l ∈ lookupsOfStmts scopes ss, l.id ∉ ρ.uses) →
    RenamesProgramTo ρ marks ss ss
  | [], _, _, _, _ => .nil
  | s :: ss, _, _, h, hl => by
    rw [lookupsOfStmts, List.forall_mem_append] at hl
    exact .cons (s.renamesTo_self h hl.1) (renamesProgramTo_self ss h hl.2)

theorem FunctionDecl.renamesTo_self : ∀ (f : FunctionDecl) {marks : List Bool}
    {scopes : List OpenScope}, (∀ mark ∈ marks, mark = false) →
    (∀ l ∈ f.lookups scopes, l.id ∉ ρ.uses) → f.RenamesTo ρ marks f
  | .mk x xs body, marks, _, h, hl => by
    rw [FunctionDecl.lookups] at hl
    have hf : (FunctionDecl.mk x xs body).RenamesTo ρ marks _ :=
      .mk false (renamesProgramTo_self body (forall_cons_eq_false h) hl)
    rwa [Renaming.map_ident_false] at hf

theorem renamesMethodsTo_self : ∀ (fs : List FunctionDecl) {marks : List Bool}
    {scopes : List OpenScope}, (∀ mark ∈ marks, mark = false) →
    (∀ l ∈ lookupsOfMethods scopes fs, l.id ∉ ρ.uses) → RenamesMethodsTo ρ marks fs fs
  | [], _, _, _, _ => .nil
  | f :: fs, _, _, h, hl => by
    rw [lookupsOfMethods, List.forall_mem_append] at hl
    exact .cons (f.renamesTo_self h hl.1) (renamesMethodsTo_self fs h hl.2)

end

/-! ### Variables -/

mutual

/-- The identifiers in an expression that are declared or looked up. -/
def Expr.variables : Expr → List Ident
  | .literal _ _ => []
  | .grouping _ inner => inner.variables
  | .unary _ _ _ operand => operand.variables
  | .binary _ _ _ left right => left.variables ++ right.variables
  | .logical _ _ _ left right => left.variables ++ right.variables
  | .read _ name => [name]
  | .assign _ name value => name :: value.variables
  | .call _ callee _ arguments => callee.variables ++ variablesOfExprs arguments
  | .lambda _ _ params body => params ++ variablesOfProgram body
  | .get _ object _ => object.variables
  | .set _ object _ value => object.variables ++ value.variables
  | .this _ _ => []
  | .super _ _ _ => []

/-- The identifiers in expressions that are declared or looked up. -/
def variablesOfExprs : List Expr → List Ident
  | [] => []
  | e :: es => e.variables ++ variablesOfExprs es

/-- The identifiers in a statement that are declared or looked up. -/
def Stmt.variables : Stmt → List Ident
  | .expression e => e.variables
  | .print _ value => value.variables
  | .varDecl name none => [name]
  | .varDecl name (some value) => name :: value.variables
  | .block body => variablesOfProgram body
  | .ifElse condition thenBranch none => condition.variables ++ thenBranch.variables
  | .ifElse condition thenBranch (some elseBranch) =>
    condition.variables ++ (thenBranch.variables ++ elseBranch.variables)
  | .whileLoop condition body => condition.variables ++ body.variables
  | .funDecl decl => decl.name :: decl.variables
  | .returns _ none => []
  | .returns _ (some value) => value.variables
  | .classDecl name none methods => name :: variablesOfMethods methods
  | .classDecl name (some s) methods => name :: s.ident :: variablesOfMethods methods

/-- The identifiers in statements that are declared or looked up. -/
def variablesOfProgram : List Stmt → List Ident
  | [] => []
  | s :: ss => s.variables ++ variablesOfProgram ss

/-- The identifiers in the parameters and the body of a function that are declared or looked
up. -/
def FunctionDecl.variables : FunctionDecl → List Ident
  | .mk _ params body => params ++ variablesOfProgram body

/-- The identifiers in methods that are declared or looked up. -/
def variablesOfMethods : List FunctionDecl → List Ident
  | [] => []
  | f :: fs => f.variables ++ variablesOfMethods fs

end

end LexScript
