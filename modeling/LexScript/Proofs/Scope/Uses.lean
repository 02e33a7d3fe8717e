import LexScript.Proofs.Scope.Lookups
import LexScript.Proofs.Scope.Places

/-!
# Uses are lookups

In a program without errors that the parser can yield, the uses that name resolution notes are the
lookups of the program, in the same order and with the distances of the innermost scopes that bind
the names. Where it has accepted `this` or `super`, these are bound.

The parser puts no declaration directly into a branch of a conditional or into the body of a
loop. Such a declaration would be resolved as if it were always executed.

## Main definitions

* `Stmt.IsPlain` : no branch is a declaration.
* `Describes`, `Resolver.IsAt` : open scopes bind the names that name resolution knows to be bound.
* `Resolver.Notes` : what a walk without errors has noted.

## Main statements

* `uses_resolveProgram` : the uses of a program are its lookups.
-/

namespace LexScript

/-! ### Branches -/

/-- Whether a statement declares a name. -/
def Stmt.isDeclaration : Stmt → Bool
  | .varDecl _ _ | .funDecl _ | .classDecl _ _ _ => true
  | .expression _ | .print _ _ | .block _ | .ifElse _ _ _ | .whileLoop _ _ | .returns _ _ => false

mutual

/-- No branch in an expression is a declaration. -/
def Expr.IsPlain : Expr → Prop
  | .literal _ _ | .read _ _ | .this _ _ | .super _ _ _ => True
  | .grouping _ e | .unary _ _ _ e | .assign _ _ e | .get _ e _ => e.IsPlain
  | .binary _ _ _ left right | .logical _ _ _ left right => left.IsPlain ∧ right.IsPlain
  | .call _ callee _ arguments => callee.IsPlain ∧ ArePlainExprs arguments
  | .lambda _ _ _ body => ArePlain body
  | .set _ object _ value => object.IsPlain ∧ value.IsPlain

/-- No branch in expressions is a declaration. -/
def ArePlainExprs : List Expr → Prop
  | [] => True
  | e :: es => e.IsPlain ∧ ArePlainExprs es

/-- No branch in a statement is a declaration. -/
def Stmt.IsPlain : Stmt → Prop
  | .expression e | .print _ e => e.IsPlain
  | .varDecl _ none | .returns _ none => True
  | .varDecl _ (some e) | .returns _ (some e) => e.IsPlain
  | .block body => ArePlain body
  | .ifElse condition thenBranch none =>
    condition.IsPlain ∧ thenBranch.IsPlain ∧ thenBranch.isDeclaration = false
  | .ifElse condition thenBranch (some elseBranch) =>
    condition.IsPlain ∧ (thenBranch.IsPlain ∧ thenBranch.isDeclaration = false) ∧
      elseBranch.IsPlain ∧ elseBranch.isDeclaration = false
  | .whileLoop condition body =>
    condition.IsPlain ∧ body.IsPlain ∧ body.isDeclaration = false
  | .funDecl decl => decl.IsPlain
  | .classDecl _ _ methods => ArePlainMethods methods

/-- No branch in statements is a declaration. -/
def ArePlain : List Stmt → Prop
  | [] => True
  | s :: ss => s.IsPlain ∧ ArePlain ss

/-- No branch in the body of a function is a declaration. -/
def FunctionDecl.IsPlain : FunctionDecl → Prop
  | .mk _ _ body => ArePlain body

/-- No branch in the bodies of methods is a declaration. -/
def ArePlainMethods : List FunctionDecl → Prop
  | [] => True
  | f :: fs => f.IsPlain ∧ ArePlainMethods fs

end

/-! ### Scopes that are described -/

/-- The open scopes bind the names that the scopes of name resolution bind. -/
def Describes (scopes : List Scope) (opens : List OpenScope) : Prop :=
  scopes.map Bindings.binds = opens.map OpenScope.binds

section

variable {scopes : List Scope} {opens : List OpenScope}

theorem describes_cons {scope : Scope} {o : OpenScope} (hscope : ∀ x, scope.binds x = o.binds x)
    (h : Describes scopes opens) : Describes (scope :: scopes) (o :: opens) := by
  rw [Describes, List.map_cons, List.map_cons, h, funext hscope]

theorem Describes.distance? (h : Describes scopes opens) (x : Name) :
    scopes.findIdx? (Bindings.binds · x) = scopesUp? x opens := by
  have hmap := congrArg (List.findIdx? fun binds : Name → Bool ↦ binds x) h
  rwa [List.findIdx?_map, List.findIdx?_map] at hmap

theorem describes_nil_iff : Describes [] opens ↔ opens = [] :=
  ⟨fun h ↦ List.map_eq_nil_iff.1 h.symm, fun h ↦ h ▸ rfl⟩

/-- What counts is that a name is bound, not as what or whether completely. -/
theorem Describes.put {scope : Scope} (h : Describes (scope :: scopes) opens) (x : Ident)
    (complete : Bool) (role : Role) :
    Describes (Bindings.put scope x.name complete :: scopes) (declareAs x role opens) := by
  cases opens with
  | nil => cases h
  | cons o opens =>
    obtain ⟨hscope, houter⟩ := List.cons.inj h
    refine describes_cons (fun y ↦ ?_) houter
    rw [OpenScope.binds, Bindings.binds_put, Bindings.binds_put, hscope, OpenScope.binds]

theorem Describes.bindInnermost (h : Describes scopes opens) (x : Ident) (role : Role) :
    Describes (bindInnermost x.name scopes) (declareAs x role opens) := by
  cases scopes with
  | nil =>
    rw [describes_nil_iff.1 h]
    rfl
  | cons scope outer => exact h.put x true role

/-- A second declaration of a name changes nothing in what is bound. -/
theorem describes_declare {r : Resolver} (h : Describes r.scopes opens) (x : Ident) (role : Role) :
    Describes (r.declare x).scopes (declareAs x role opens) := by
  unfold Resolver.declare
  cases hscopes : r.scopes with
  | nil =>
    rw [hscopes] at h
    simp only [hscopes]
    exact h.bindInnermost x role
  | cons scope outer =>
    rw [hscopes] at h
    have hput := h.put x false role
    by_cases hbinds : Bindings.binds scope x.name
    · simp only [hbinds, if_true, Resolver.report, hscopes]
      rw [Describes, List.map_cons] at hput ⊢
      rw [← hput, List.cons.injEq]
      refine ⟨funext fun y ↦ ?_, rfl⟩
      by_cases hy : y = x.name
      · simp [Bindings.binds_put, hy, hbinds]
      · simp [Bindings.binds_put, hy]
    · simpa [hbinds] using hput

theorem Describes.of_place {r r' : Resolver} (h : Describes r.scopes opens)
    (hplace : r'.place = r.place) : Describes r'.scopes opens := by
  have hscopes : r'.scopes = r.scopes := congrArg Place.scopes hplace
  rwa [hscopes]

theorem describes_bind {r : Resolver} (h : Describes r.scopes opens) (x : Ident) (role : Role) :
    Describes (r.bind x).scopes (declareAs x role opens) := by
  rw [Resolver.scopes_bind]
  exact h.bindInnermost x role

theorem describes_params {r : Resolver} {c : Construct} {names : Bindings Name Role}
    (h : Describes r.scopes (⟨c, names⟩ :: opens)) (params : List Ident) :
    Describes (params.foldl Resolver.bind r).scopes
      (⟨c, params.foldl (fun names x ↦ names.put x.name .parameter) names⟩ :: opens) := by
  induction params generalizing r names with
  | nil => exact h
  | cons x params ih => exact ih (describes_bind h x .parameter)

end

/-- A plain statement that is no declaration leaves all scopes as they are. -/
theorem Stmt.scopesAfter_eq_self : ∀ (s : Stmt) (scopes : List Scope), s.IsPlain →
    s.isDeclaration = false → s.scopesAfter scopes = scopes
  | .expression _, _, _, _ | .print _ _, _, _, _ | .block _, _, _, _ | .returns _ _, _, _, _ => by
    rw [Stmt.scopesAfter]
  | .ifElse _ thenBranch none, scopes, hplain, _ => by
    rw [Stmt.IsPlain] at hplain
    rw [Stmt.scopesAfter, thenBranch.scopesAfter_eq_self scopes hplain.2.1 hplain.2.2]
  | .ifElse _ thenBranch (some elseBranch), scopes, hplain, _ => by
    rw [Stmt.IsPlain] at hplain
    obtain ⟨-, ⟨hthen, hthen'⟩, helse, helse'⟩ := hplain
    rw [Stmt.scopesAfter, thenBranch.scopesAfter_eq_self scopes hthen hthen',
      elseBranch.scopesAfter_eq_self scopes helse helse']
  | .whileLoop _ body, scopes, hplain, _ => by
    rw [Stmt.IsPlain] at hplain
    rw [Stmt.scopesAfter, body.scopesAfter_eq_self scopes hplain.2.1 hplain.2.2]
  | .varDecl _ _, _, _, h | .funDecl _, _, _, h | .classDecl _ _ _, _, _, h => by cases h

theorem Describes.behind {scopes : List Scope} {opens : List OpenScope} (h : Describes scopes opens)
    {s : Stmt} (hs : s.IsPlain) : Describes (s.scopesAfter scopes) (s.declare opens) := by
  cases hdecl : s.isDeclaration with
  | false =>
    rw [s.scopesAfter_eq_self scopes hs hdecl]
    cases s <;> first | exact h | cases hdecl
  | true =>
    cases s with
    | varDecl name value =>
      rw [Stmt.scopesAfter, Stmt.declare]
      exact h.bindInnermost name .variable
    | funDecl decl =>
      rw [Stmt.scopesAfter, Stmt.declare]
      exact h.bindInnermost decl.name .function
    | classDecl name superclass methods =>
      rw [Stmt.scopesAfter, Stmt.declare]
      exact h.bindInnermost name .className
    | _ => cases hdecl

/-! ### What the walk notes -/

namespace Resolver

/-- A walk is where these scopes are open. -/
structure IsAt (r : Resolver) (opens : List OpenScope) : Prop where
  scopes : Describes r.scopes opens
  receivers : r.classContext.Suits opens

/-- If a walk ends without errors, then it started without errors and has noted some lookups. -/
def Notes (r r' : Resolver) (ls : List Lookup) : Prop :=
  r'.errors = #[] → r.errors = #[] ∧ r'.uses.toList = r.uses.toList ++ ls.map Lookup.use ∧
    ∀ l ∈ ls, l.HasReceiver

variable {r r' r'' : Resolver} {ls ls' : List Lookup} {opens : List OpenScope}

theorem IsAt.of_place (h : r.IsAt opens) (hplace : r'.place = r.place) : r'.IsAt opens where
  scopes := h.scopes.of_place hplace
  receivers := by
    have hcontext : r'.classContext = r.classContext := congrArg Place.classContext hplace
    exact hcontext ▸ h.receivers

theorem IsAt.behind (h : r.IsAt opens) {s : Stmt} (hs : s.IsPlain)
    (hplace : r'.place = { r.place with scopes := s.scopesAfter r.scopes }) :
    r'.IsAt (s.declare opens) where
  scopes := by
    have hscopes : r'.scopes = s.scopesAfter r.scopes := congrArg Place.scopes hplace
    exact hscopes ▸ h.scopes.behind hs
  receivers := by
    have hcontext : r'.classContext = r.classContext := congrArg Place.classContext hplace
    rw [hcontext]
    cases s with
    | varDecl name _ => exact h.receivers.declareAs name .variable
    | funDecl decl => exact h.receivers.declareAs decl.name .function
    | classDecl name _ _ => exact h.receivers.declareAs name .className
    | _ => exact h.receivers

theorem Notes.append (h : Notes r r' ls) (h' : Notes r' r'' ls') : Notes r r'' (ls ++ ls') := by
  intro herrors
  obtain ⟨herrors', huses', hreceivers'⟩ := h' herrors
  obtain ⟨herrors, huses, hreceivers⟩ := h herrors'
  refine ⟨herrors, ?_, List.forall_mem_append.2 ⟨hreceivers, hreceivers'⟩⟩
  rw [huses', huses, List.map_append, List.append_assoc]

theorem Notes.trans (h : Notes r r' []) (h' : Notes r' r'' ls) : Notes r r'' ls := h.append h'

/-- A step that notes nothing. -/
theorem notes_nil (huses : r'.uses = r.uses) (herrors : r'.errors = r.errors) : Notes r r' [] := by
  intro h
  exact ⟨herrors ▸ h, by rw [huses, List.map_nil, List.append_nil], List.forall_mem_nil _⟩

theorem notes_report (r₀ : Resolver) (fault : ScopeFault) (mark : Mark) :
    Notes r (r₀.report fault mark) ls := fun h ↦ absurd h (by simp [report])

/-- Behind an error there is nothing to show. -/
theorem notes_behind_report {r₀ : Resolver} {fault : ScopeFault} {mark : Mark}
    (h : Notes (r₀.report fault mark) r' ls') : Notes r r' ls :=
  fun herrors ↦ absurd (h herrors).1 (by simp [report])

theorem notes_use {l : Lookup} (h : Describes r.scopes l.scopes) (hreceiver : l.HasReceiver) :
    Notes r (r.use l.id l.name) [l] := by
  intro herrors
  refine ⟨herrors, ?_, List.forall_mem_singleton.2 hreceiver⟩
  simp only [use, distance?, Array.toList_push, List.map_cons, List.map_nil, Lookup.use,
    Lookup.distance?, h.distance? l.name]

theorem notes_read (h : Describes r.scopes opens) (id : Nat) (x : Ident) :
    Notes r (r.read id x) [⟨id, x.name, opens⟩] := by
  unfold read
  split
  · exact notes_behind_report (notes_use (l := ⟨id, x.name, opens⟩) h trivial)
  · exact notes_use (l := ⟨id, x.name, opens⟩) h trivial

theorem notes_this (h : r.IsAt opens) (id line : Nat) :
    Notes r (r.this id line) [⟨id, .this, opens⟩] := by
  have hcontext := h.receivers
  unfold this
  split
  · exact notes_report _ _ _
  · refine notes_use (l := ⟨id, .this, opens⟩) h.scopes ?_
    cases hclass : r.classContext with
    | outside => contradiction
    | inClass =>
      rw [hclass] at hcontext
      exact hcontext
    | inSubclass =>
      rw [hclass] at hcontext
      obtain ⟨e, he, -⟩ := hcontext
      exact ⟨e, he⟩

theorem notes_super (h : r.IsAt opens) (id line : Nat) :
    Notes r (r.super id line) [⟨id, .super, opens⟩] := by
  have hcontext := h.receivers
  unfold super
  split
  · exact notes_report _ _ _
  · exact notes_report _ _ _
  · next hclass =>
      rw [hclass] at hcontext
      exact notes_use (l := ⟨id, .super, opens⟩) h.scopes hcontext

theorem notes_declare (r : Resolver) (x : Ident) : Notes r (r.declare x) [] := by
  unfold declare
  split
  · exact notes_nil rfl rfl
  · split
    · exact notes_report _ _ _
    · exact notes_nil rfl rfl

theorem notes_define (r : Resolver) (x : Name) : Notes r (r.define x) [] := by
  unfold define
  split <;> exact notes_nil rfl rfl

theorem notes_bind (r : Resolver) (x : Ident) : Notes r (r.bind x) [] :=
  (notes_declare r x).trans (notes_define _ x.name)

theorem notes_returns (r : Resolver) (line : Nat) : Notes r (r.returns line) [] := by
  unfold returns
  split
  · exact notes_report _ _ _
  · exact notes_nil rfl rfl

theorem notes_returnsValue (r : Resolver) (line : Nat) : Notes r (r.returnsValue line) [] := by
  unfold returnsValue
  split
  · exact notes_report _ _ _
  · exact notes_nil rfl rfl

theorem notes_params (r : Resolver) (params : List Ident) : Notes r (params.foldl bind r) [] := by
  induction params generalizing r with
  | nil => exact notes_nil rfl rfl
  | cons x params ih => exact (notes_bind r x).trans (ih _)

/-! ### Scopes and classes -/

theorem IsAt.declare (h : r.IsAt opens) (x : Ident) (role : Role) :
    (r.declare x).IsAt (declareAs x role opens) where
  scopes := describes_declare h.scopes x role
  receivers := by
    have hcontext : (r.declare x).classContext = r.classContext := by
      unfold Resolver.declare
      split
      · rfl
      · split <;> rfl
    exact hcontext ▸ h.receivers.declareAs x role

theorem IsAt.bind (h : r.IsAt opens) (x : Ident) (role : Role) :
    (r.bind x).IsAt (declareAs x role opens) where
  scopes := describes_bind h.scopes x role
  receivers := by
    rw [classContext_bind]
    exact h.receivers.declareAs x role

variable {walk : Resolver → Resolver}

/-- Opening and closing a scope notes nothing of its own. -/
theorem notes_inScope (h : Notes r.enter (walk r.enter) ls) : Notes r (r.inScope walk) ls := h

theorem describes_enter (h : Describes r.scopes opens) (c : Construct) :
    Describes r.enter.scopes (⟨c, .empty⟩ :: opens) := describes_cons (fun _ ↦ rfl) h

theorem notes_inBlock {body : List Stmt} (h : r.IsAt opens)
    (hwalk : ∀ r : Resolver, r.IsAt (blockScope body :: opens) → Notes r (walk r) ls) :
    Notes r (r.inScope walk) ls :=
  notes_inScope <| hwalk _
    ⟨describes_enter h.scopes _, h.receivers.inside (blockScope_bindsNoReceiver body)⟩

theorem notes_inFunction {params : List Ident} {body : List Stmt} (h : r.IsAt opens)
    (hwalk : ∀ r : Resolver, r.IsAt (functionScope params body :: opens) → Notes r (walk r) ls)
    (context : FunctionContext) : Notes r (r.inFunction context params walk) ls := by
  have henter : Describes (r.withFunctionContext context).enter.scopes _ :=
    describes_enter h.scopes (.function params body)
  obtain ⟨_, hplace, -⟩ :=
    staysInside_foldl_bind params (r.withFunctionContext context).enter
  have hcontext : (params.foldl Resolver.bind (r.withFunctionContext context).enter).classContext =
      r.classContext := congrArg Place.classContext hplace
  have hbody := hwalk _ ⟨describes_params henter params,
    hcontext ▸ h.receivers.inside (functionScope_bindsNoReceiver params body)⟩
  exact (notes_params (r.withFunctionContext context).enter params).trans hbody

theorem describes_define {x : Name} {c : Construct} (h : Describes r.scopes opens) (role : Role) :
    Describes (r.enter.define x).scopes (⟨c, Bindings.empty.put x role⟩ :: opens) := by
  refine describes_cons (fun y ↦ ?_) h
  rw [OpenScope.binds, Bindings.binds_put, Bindings.binds_put]
  rfl

/-- In a scope that binds `this`, methods are walked where the class context says. -/
theorem notes_inMethods {methods : List FunctionDecl} (h : Describes r.scopes opens)
    (hsuits : r.classContext.Suits (thisScope methods :: opens))
    (hwalk : ∀ r : Resolver, r.IsAt (thisScope methods :: opens) → Notes r (walk r) ls) :
    Notes r (r.inMethods walk) ls :=
  notes_inScope ((notes_define _ _).trans (hwalk _ ⟨describes_define h .this, hsuits⟩))

theorem notes_inClass_none {name : Ident} {methods : List FunctionDecl} (h : r.IsAt opens)
    (hwalk : ∀ r : Resolver, r.IsAt (thisScope methods :: declareAs name .className opens) →
      Notes r (walk r) ls) : Notes r (r.inClass name none walk) ls := by
  have hbind := describes_bind (r := r.withClassContext .inClass) h.scopes name .className
  refine (notes_bind (r.withClassContext .inClass) name).trans (notes_inMethods hbind ?_ hwalk)
  rw [classContext_bind]
  exact ⟨0, rfl⟩

/-- A superclass that is not the class itself is looked up as if the class were not declared. -/
theorem notes_inSubclass {name : Ident} {s : SuperclassName} {methods : List FunctionDecl}
    (h : Describes r.scopes (declareAs name .className opens))
    (hwalk : ∀ r : Resolver,
      r.IsAt (thisScope methods :: superScope methods :: declareAs name .className opens) →
      Notes r (walk r) ls) :
    Notes r (r.inSubclass name s walk) (⟨s.id, s.ident.name, opens⟩ :: ls) := by
  have hmethods {r : Resolver} (h : Describes r.scopes (declareAs name .className opens))
      (hclass : r.classContext = .inSubclass) :
      Notes r (r.inScope fun r ↦ (r.define .super).inMethods walk) ls := by
    refine notes_inScope ((notes_define _ _).trans
      (notes_inMethods (describes_define h .super) ?_ hwalk))
    have hcontext : (r.enter.define .super).classContext = r.classContext := rfl
    rw [hcontext, hclass]
    exact ⟨0, rfl, rfl⟩
  have hbehind {r : Resolver} (h : Describes r.scopes (declareAs name .className opens))
      (hclass : r.classContext = .inSubclass) :
      Notes (r.read s.id s.ident)
        ((r.read s.id s.ident).inScope fun r ↦ (r.define .super).inMethods walk) ls := by
    have hplace := place_read r s.id s.ident
    exact hmethods (h.of_place hplace) ((congrArg Place.classContext hplace).trans hclass)
  rw [inSubclass, inherits]
  by_cases hsame : s.ident.text = name.text
  · simp only [hsame, beq_self_eq_true, if_true]
    have hread := notes_read (r := (r.report .inheritsFromItself s.ident.mark).withClassContext
      .inSubclass) h s.id s.ident
    exact notes_behind_report (hread.append (hbehind h rfl))
  · have hname : s.ident.name ≠ name.name := fun h ↦ hsame (Name.ident.inj h)
    have hlookup : Lookup.use ⟨s.id, s.ident.name, declareAs name .className opens⟩ =
        Lookup.use ⟨s.id, s.ident.name, opens⟩ := by
      rw [Lookup.use, Lookup.distance?, scopesUp?_declareAs hname]
      rfl
    simp only [beq_iff_eq, hsame, if_false]
    have hread : Notes (r.withClassContext .inSubclass)
        ((r.withClassContext .inSubclass).read s.id s.ident) [⟨s.id, s.ident.name, opens⟩] := by
      intro herrors
      obtain ⟨herrors, huses, -⟩ :=
        notes_read (r := r.withClassContext .inSubclass) h s.id s.ident herrors
      refine ⟨herrors, ?_, List.forall_mem_singleton.2 trivial⟩
      rw [huses, List.map_cons, List.map_cons, hlookup]
    exact hread.append (hbehind h rfl)

theorem notes_inClass_some {name : Ident} {s : SuperclassName} {methods : List FunctionDecl}
    (h : r.IsAt opens)
    (hwalk : ∀ r : Resolver,
      r.IsAt (thisScope methods :: superScope methods :: declareAs name .className opens) →
      Notes r (walk r) ls) :
    Notes r (r.inClass name (some s) walk) (⟨s.id, s.ident.name, opens⟩ :: ls) := by
  have hbind := describes_bind (r := r.withClassContext .inClass) h.scopes name .className
  exact (notes_bind (r.withClassContext .inClass) name).trans (notes_inSubclass hbind hwalk)

end Resolver

/-! ### Programs -/

open Resolver

mutual

theorem Expr.notes_resolve : ∀ (e : Expr) {r : Resolver} {opens : List OpenScope}, e.IsPlain →
    r.IsAt opens → Notes r (e.resolve r) (e.lookups opens)
  | .literal _ _, r, _, _, _ => by
    rw [Expr.resolve, Expr.lookups]
    exact notes_nil rfl rfl
  | .grouping _ e, _, _, hplain, h | .unary _ _ _ e, _, _, hplain, h | .get _ e _, _, _, hplain, h
    => by
    rw [Expr.IsPlain] at hplain
    rw [Expr.resolve, Expr.lookups]
    exact e.notes_resolve hplain h
  | .binary _ _ _ left right, r, _, hplain, h | .logical _ _ _ left right, r, _, hplain, h => by
    rw [Expr.IsPlain] at hplain
    rw [Expr.resolve, Expr.lookups]
    exact (left.notes_resolve hplain.1 h).append
      (right.notes_resolve hplain.2 (h.of_place (left.place_resolve r)))
  | .read id name, _, _, _, h => by
    rw [Expr.resolve, Expr.lookups]
    exact notes_read h.scopes id name
  | .assign id name value, r, _, hplain, h => by
    rw [Expr.IsPlain] at hplain
    rw [Expr.resolve, Expr.lookups]
    exact (value.notes_resolve hplain h).append
      (notes_use (l := ⟨id, name.name, _⟩) (h.of_place (value.place_resolve r)).scopes trivial)
  | .call _ callee _ arguments, r, _, hplain, h => by
    rw [Expr.IsPlain] at hplain
    rw [Expr.resolve, Expr.lookups]
    exact (callee.notes_resolve hplain.1 h).append
      (notes_resolveExprs arguments hplain.2 (h.of_place (callee.place_resolve r)))
  | .lambda _ _ params body, _, _, hplain, h => by
    rw [Expr.IsPlain] at hplain
    rw [Expr.resolve, Expr.lookups]
    exact notes_inFunction h (fun _ ↦ notes_resolveStmts body hplain) .inFunction
  | .set _ object _ value, r, _, hplain, h => by
    rw [Expr.IsPlain] at hplain
    rw [Expr.resolve, Expr.lookups]
    exact (value.notes_resolve hplain.2 h).append
      (object.notes_resolve hplain.1 (h.of_place (value.place_resolve r)))
  | .this id line, _, _, _, h => by
    rw [Expr.resolve, Expr.lookups]
    exact notes_this h id line
  | .super id line _, _, _, _, h => by
    rw [Expr.resolve, Expr.lookups]
    exact notes_super h id line

theorem notes_resolveExprs : ∀ (es : List Expr) {r : Resolver} {opens : List OpenScope},
    ArePlainExprs es → r.IsAt opens →
      Notes r (resolveExprs es r) (lookupsOfExprs opens es)
  | [], _, _, _, _ => by
    rw [resolveExprs, lookupsOfExprs]
    exact notes_nil rfl rfl
  | e :: es, r, _, hplain, h => by
    rw [ArePlainExprs] at hplain
    rw [resolveExprs, lookupsOfExprs]
    exact (e.notes_resolve hplain.1 h).append
      (notes_resolveExprs es hplain.2 (h.of_place (e.place_resolve r)))

theorem Stmt.notes_resolve : ∀ (s : Stmt) {r : Resolver} {opens : List OpenScope}, s.IsPlain →
    r.IsAt opens → Notes r (s.resolve r) (s.lookups opens)
  | .expression e, _, _, hplain, h | .print _ e, _, _, hplain, h => by
    rw [Stmt.IsPlain] at hplain
    rw [Stmt.resolve, Stmt.lookups]
    exact e.notes_resolve hplain h
  | .varDecl name none, r, _, _, _ => by
    rw [Stmt.resolve, Stmt.lookups]
    exact notes_bind r name
  | .varDecl name (some value), r, _, hplain, h => by
    rw [Stmt.IsPlain] at hplain
    rw [Stmt.resolve, Stmt.lookups]
    have hvalue := value.notes_resolve hplain (h.declare name .variable)
    have hdefine := notes_define (value.resolve (r.declare name)) name.name
    have := ((notes_declare r name).trans hvalue).append hdefine
    rwa [List.append_nil] at this
  | .block body, _, _, hplain, h => by
    rw [Stmt.IsPlain] at hplain
    rw [Stmt.resolve, Stmt.lookups]
    exact notes_inBlock h fun _ ↦ notes_resolveStmts body hplain
  | .ifElse condition thenBranch none, r, _, hplain, h => by
    rw [Stmt.IsPlain] at hplain
    rw [Stmt.resolve, Stmt.lookups]
    exact (condition.notes_resolve hplain.1 h).append
      (thenBranch.notes_resolve hplain.2.1 (h.of_place (condition.place_resolve r)))
  | .ifElse condition thenBranch (some elseBranch), r, opens, hplain, h => by
    rw [Stmt.IsPlain] at hplain
    obtain ⟨hcondition, ⟨hthen, hthen'⟩, helse, -⟩ := hplain
    rw [Stmt.resolve, Stmt.lookups]
    have h' : (condition.resolve r).IsAt opens := h.of_place (condition.place_resolve r)
    have h'' : (thenBranch.resolve (condition.resolve r)).IsAt opens := by
      refine h'.of_place ?_
      rw [thenBranch.place_resolve, thenBranch.scopesAfter_eq_self _ hthen hthen']
      rfl
    exact ((condition.notes_resolve hcondition h).append
      (thenBranch.notes_resolve hthen h')).append (elseBranch.notes_resolve helse h'')
  | .whileLoop condition body, r, _, hplain, h => by
    rw [Stmt.IsPlain] at hplain
    rw [Stmt.resolve, Stmt.lookups]
    exact (condition.notes_resolve hplain.1 h).append
      (body.notes_resolve hplain.2.1 (h.of_place (condition.place_resolve r)))
  | .funDecl decl, r, _, hplain, h => by
    rw [Stmt.IsPlain] at hplain
    rw [Stmt.resolve, Stmt.lookups]
    exact (notes_bind r decl.name).trans
      (decl.notes_resolve .inFunction hplain (h.bind decl.name .function))
  | .returns line none, r, _, _, _ => by
    rw [Stmt.resolve, Stmt.lookups]
    exact notes_returns r line
  | .returns line (some value), r, opens, hplain, h => by
    rw [Stmt.IsPlain] at hplain
    rw [Stmt.resolve, Stmt.lookups]
    have h' : ((r.returns line).returnsValue line).IsAt opens :=
      h.of_place ((place_returnsValue _ line).trans (place_returns r line))
    exact ((notes_returns r line).trans (notes_returnsValue _ line)).trans
      (value.notes_resolve hplain h')
  | .classDecl name none methods, _, _, hplain, h => by
    rw [Stmt.IsPlain] at hplain
    rw [Stmt.resolve, Stmt.lookups]
    exact notes_inClass_none h fun _ ↦ notes_resolveMethods methods hplain
  | .classDecl name (some s) methods, _, _, hplain, h => by
    rw [Stmt.IsPlain] at hplain
    rw [Stmt.resolve, Stmt.lookups]
    exact notes_inClass_some h fun _ ↦ notes_resolveMethods methods hplain

theorem notes_resolveStmts : ∀ (ss : List Stmt) {r : Resolver} {opens : List OpenScope},
    ArePlain ss → r.IsAt opens →
      Notes r (resolveStmts ss r) (lookupsOfStmts opens ss)
  | [], _, _, _, _ => by
    rw [resolveStmts, lookupsOfStmts]
    exact notes_nil rfl rfl
  | s :: ss, r, _, hplain, h => by
    rw [ArePlain] at hplain
    rw [resolveStmts, lookupsOfStmts]
    exact (s.notes_resolve hplain.1 h).append
      (notes_resolveStmts ss hplain.2 (h.behind hplain.1 (s.place_resolve r)))

theorem FunctionDecl.notes_resolve (context : FunctionContext) :
    ∀ (f : FunctionDecl) {r : Resolver} {opens : List OpenScope}, f.IsPlain →
      r.IsAt opens → Notes r (f.resolve context r) (f.lookups opens)
  | .mk _ params body, _, _, hplain, h => by
    rw [FunctionDecl.IsPlain] at hplain
    rw [FunctionDecl.resolve, FunctionDecl.lookups]
    exact notes_inFunction h (fun _ ↦ notes_resolveStmts body hplain) context

theorem notes_resolveMethods : ∀ (fs : List FunctionDecl) {r : Resolver} {opens : List OpenScope},
    ArePlainMethods fs → r.IsAt opens →
      Notes r (resolveMethods fs r) (lookupsOfMethods opens fs)
  | [], _, _, _, _ => by
    rw [resolveMethods, lookupsOfMethods]
    exact notes_nil rfl rfl
  | f :: fs, r, _, hplain, h => by
    rw [ArePlainMethods] at hplain
    rw [resolveMethods, lookupsOfMethods]
    exact (f.notes_resolve _ hplain.1 h).append
      (notes_resolveMethods fs hplain.2 (h.of_place (f.place_resolve _ r)))

end

/-- Without errors, the uses of a program are its lookups, and `this` and `super` are bound. -/
theorem uses_resolveProgram {program : List Stmt} (hplain : ArePlain program)
    (h : (resolveProgram program).errors = []) :
    (resolveProgram program).uses = (lookupsOfProgram program).map Lookup.use ∧
      ∀ l ∈ lookupsOfProgram program, l.HasReceiver := by
  have herrors : (resolverAfter program).errors = #[] := Array.toList_eq_nil_iff.1 h
  have hstart : Resolver.start.IsAt [] := ⟨describes_nil_iff.2 rfl, trivial⟩
  exact (notes_resolveStmts program hplain hstart herrors).2

end LexScript
