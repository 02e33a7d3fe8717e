import LexScript.Proofs.Grammar.Acceptance
import LexScript.Proofs.Scope.Occurrences
import LexScript.Proofs.Scope.Sources

/-!
# Name resolution accepts the well-scoped programs

Name resolution meets the parts of a program one after the other and keeps in mind which kind of
body it is in, and what the innermost scope binds. It reports no error if and only if the program
is well scoped, which is said of each part by itself.

An error is never taken back, so a walk is quiet if each step of it is. At every point of the walk
what is kept in mind is determined by what the point lies in, and a declaration is incomplete only
while its own initializer is walked.

## Main definitions

* `Resolver.QuietIff` : when a walk reports nothing.
* `Resolver.LiesIn` : what is kept in mind at a point of the walk.
* `Resolver.Accepts` : the innermost scope can bind further names.

## Main statements

* `Stmt.quietIff_resolve` : when the walk over a statement reports nothing.
* `errors_resolveProgram_eq_nil_iff` : what is accepted has legal parts only.
* `resolveProgram_iff_wellScoped` : what is parsed is accepted if and only if it is well scoped.
-/

namespace LexScript

/-! ### What is kept in mind -/

/-- The function context inside of some enclosures. -/
def functionContextOf (around : List Enclosure) : FunctionContext :=
  match around.find? Enclosure.isBody with
  | none => .outside
  | some (.method name _) => if name == "init" then .inInitializer else .inFunction
  | some _ => .inFunction

/-- The class context inside of some enclosures. -/
def classContextOf (around : List Enclosure) : ClassContext :=
  match around.find? Enclosure.isMethod with
  | some (.method _ true) => .inSubclass
  | some (.method _ false) => .inClass
  | _ => .outside

theorem functionContextOf_ne_outside (around : List Enclosure) :
    functionContextOf around ≠ .outside ↔ ∃ body ∈ around, body.isBody = true := by
  rw [← List.find?_isSome, functionContextOf]
  cases around.find? Enclosure.isBody with
  | none => simp
  | some body =>
    cases body with
    | method name inherits => by_cases h : name == "init" <;> simp [h]
    | block | function => simp

theorem functionContextOf_ne_inInitializer (around : List Enclosure) :
    functionContextOf around ≠ .inInitializer ↔
      ∀ inherits, around.find? Enclosure.isBody ≠ some (.method "init" inherits) := by
  rw [functionContextOf]
  cases around.find? Enclosure.isBody with
  | none => simp
  | some body =>
    cases body with
    | method name inherits => by_cases h : name = "init" <;> simp [h]
    | block | function => simp

theorem classContextOf_ne_outside (around : List Enclosure) :
    classContextOf around ≠ .outside ↔ ∃ body ∈ around, body.isMethod = true := by
  rw [← List.find?_isSome, classContextOf]
  cases h : around.find? Enclosure.isMethod with
  | none => simp
  | some body =>
    have hmethod := List.find?_some h
    cases body with
    | method name inherits => cases inherits <;> simp
    | block | function => nomatch hmethod

theorem classContextOf_eq_inSubclass (around : List Enclosure) :
    classContextOf around = .inSubclass ↔
      ∃ name, around.find? Enclosure.isMethod = some (.method name true) := by
  rw [classContextOf]
  cases around.find? Enclosure.isMethod with
  | none => simp
  | some body =>
    cases body with
    | method name inherits => cases inherits <;> simp
    | block | function => simp

namespace Resolver

variable {r r' r'' : Resolver} {around : List Enclosure} {P Q : Prop}

/-- What is kept in mind at a point that lies in some enclosures. -/
structure LiesIn (r : Resolver) (around : List Enclosure) : Prop where
  functionContext : r.functionContext = functionContextOf around
  classContext : r.classContext = classContextOf around
  scopes : r.scopes = [] ↔ around = []

/-- The innermost scope has no incomplete declaration. -/
def IsComplete (r : Resolver) : Prop := ∀ x, r.isIncomplete x = false

/-- Whether the innermost scope binds a name. -/
def declares (r : Resolver) (x : Name) : Bool :=
  match r.scopes with
  | [] => false
  | scope :: _ => Bindings.binds scope x

/-- The innermost scope can bind further names without binding one of them twice. -/
def Accepts (r : Resolver) (names : List String) : Prop :=
  (r.scopes ≠ [] → names.Nodup) ∧ ∀ x ∈ names, r.declares (.ident x) = false

/-- Variables can be read, since none of their declarations is incomplete. -/
def MayRead (r : Resolver) (names : List String) : Prop :=
  ∀ x ∈ names, r.isIncomplete (.ident x) = false

theorem LiesIn.of_scopes {scopes : List Scope} (h : r.LiesIn around)
    (hplace : r'.place = { r.place with scopes := scopes })
    (hscopes : scopes = [] ↔ r.scopes = []) :
    r'.LiesIn around where
  functionContext := (congrArg Place.functionContext hplace).trans h.functionContext
  classContext := (congrArg Place.classContext hplace).trans h.classContext
  scopes := by
    have hr' : r'.scopes = scopes := congrArg Place.scopes hplace
    rw [hr', hscopes, h.scopes]

theorem LiesIn.of_place (h : r.LiesIn around) (hplace : r'.place = r.place) : r'.LiesIn around :=
  h.of_scopes hplace Iff.rfl

theorem bindInnermost_eq_nil_iff (x : Name) (scopes : List Scope) :
    bindInnermost x scopes = [] ↔ scopes = [] := by
  cases scopes <;> simp [bindInnermost]

theorem LiesIn.bind (h : r.LiesIn around) (x : Ident) : (r.bind x).LiesIn around :=
  h.of_scopes (place_bind r x) (bindInnermost_eq_nil_iff _ _)

theorem LiesIn.declare (h : r.LiesIn around) (x : Ident) : (r.declare x).LiesIn around := by
  unfold Resolver.declare
  split
  · exact h
  · next hscopes =>
    split
    · exact ⟨h.functionContext, h.classContext, h.scopes⟩
    · exact ⟨h.functionContext, h.classContext, by
        rw [← h.scopes, hscopes]
        exact iff_of_false (List.cons_ne_nil _ _) (List.cons_ne_nil _ _)⟩

/-! ### The innermost scope -/

theorem isIncomplete_congr (h : r'.scopes = r.scopes) (x : Name) :
    r'.isIncomplete x = r.isIncomplete x := by rw [isIncomplete, isIncomplete, h]

theorem mayRead_congr (h : r'.scopes = r.scopes) (names : List String) :
    r'.MayRead names ↔ r.MayRead names := by
  simp only [MayRead, isIncomplete_congr h]

@[simp] theorem mayRead_nil (r : Resolver) : r.MayRead [] := nofun

@[simp] theorem mayRead_append (r : Resolver) (xs ys : List String) :
    r.MayRead (xs ++ ys) ↔ r.MayRead xs ∧ r.MayRead ys := List.forall_mem_append

theorem IsComplete.mayRead (hr : r.IsComplete) (names : List String) : r.MayRead names :=
  fun _ _ ↦ hr _

theorem IsComplete.congr (hr : r.IsComplete) (h : r'.scopes = r.scopes) : r'.IsComplete :=
  fun x ↦ (isIncomplete_congr h x).trans (hr x)

theorem declares_congr (h : r'.scopes = r.scopes) (x : Name) : r'.declares x = r.declares x := by
  rw [declares, declares, h]

theorem accepts_congr (h : r'.scopes = r.scopes) (names : List String) :
    r'.Accepts names ↔ r.Accepts names := by
  simp only [Accepts, h, declares_congr h]

/-- A binding is complete. -/
theorem IsComplete.bindInnermost {x : Name} (hr : r.IsComplete)
    (h : r'.scopes = bindInnermost x r.scopes) : r'.IsComplete := by
  intro y
  have hy := hr y
  rw [isIncomplete, h]
  rw [isIncomplete] at hy
  cases hscopes : r.scopes with
  | nil => rfl
  | cons scope outer =>
    rw [hscopes] at hy
    simp only [LexScript.bindInnermost, Bindings.find?_put]
    by_cases hxy : y = x
    · simp [hxy]
    · simpa [hxy] using hy

theorem declares_bindInnermost {x : Name} (h : r'.scopes = LexScript.bindInnermost x r.scopes)
    (y : Name) :
    r'.declares y = false ↔ (r.scopes ≠ [] → y ≠ x) ∧ r.declares y = false := by
  rw [declares, declares, h]
  cases r.scopes with
  | nil => simp [LexScript.bindInnermost]
  | cons scope outer => simp [LexScript.bindInnermost, Bindings.binds_put]

theorem accepts_nil (r : Resolver) : r.Accepts [] := ⟨fun _ ↦ List.nodup_nil, nofun⟩

/-- One name after the other can be bound. -/
theorem accepts_cons {x : Ident} (h : r'.scopes = LexScript.bindInnermost x.name r.scopes)
    (names : List String) :
    r.Accepts (x.text :: names) ↔ r.declares x.name = false ∧ r'.Accepts names := by
  have hnil : r'.scopes = [] ↔ r.scopes = [] := by rw [h, bindInnermost_eq_nil_iff]
  have hname (y : String) : (Name.ident y ≠ x.name) ↔ y ≠ x.text := by
    simp [Ident.name]
  simp only [Accepts, ne_eq, hnil, declares_bindInnermost h, hname, List.nodup_cons,
    List.forall_mem_cons]
  constructor
  · rintro ⟨hnodup, hx, hnames⟩
    refine ⟨hx, fun hne ↦ (hnodup hne).2, fun y hy ↦ ⟨fun hne ↦ ?_, hnames y hy⟩⟩
    rintro rfl
    exact (hnodup hne).1 hy
  · rintro ⟨hx, hnodup, hnames⟩
    exact ⟨fun hne ↦ ⟨fun hmem ↦ (hnames _ hmem).1 hne rfl, hnodup hne⟩, hx,
      fun y hy ↦ (hnames y hy).2⟩

/-- A new scope binds nothing yet. -/
theorem accepts_enter (r : Resolver) (names : List String) : r.enter.Accepts names ↔ names.Nodup :=
  ⟨fun h ↦ h.1 (List.cons_ne_nil _ _), fun h ↦ ⟨fun _ ↦ h, fun _ _ ↦ rfl⟩⟩

theorem isComplete_enter (r : Resolver) : r.enter.IsComplete := fun _ ↦ rfl

/-- While an initializer is walked only its own variable is incomplete. -/
theorem isIncomplete_declare {x : Ident} (hr : r.IsComplete) (hx : r.declares x.name = false)
    (y : Name) : (r.declare x).isIncomplete y = false ↔ (r.scopes ≠ [] → y ≠ x.name) := by
  have hy := hr y
  unfold declares at hx
  unfold isIncomplete at hy ⊢
  unfold declare
  split at hx
  · next hscopes => simp [hscopes]
  · next scope outer hscopes =>
    simp only [hscopes] at hy
    simp only [hscopes, hx, Bool.false_eq_true, if_false, Bindings.find?_put]
    by_cases hxy : y = x.name
    · simp [hxy]
    · simpa [hxy] using hy

/-- An initializer that is walked may read any variable but its own. -/
theorem mayRead_declare {x : Ident} (hr : r.IsComplete) (hx : r.declares x.name = false)
    (names : List String) :
    (r.declare x).MayRead names ↔ (r.scopes ≠ [] → x.text ∉ names) := by
  have hname (y : String) : (Name.ident y ≠ x.name) ↔ y ≠ x.text := by simp [Ident.name]
  simp only [MayRead, isIncomplete_declare hr hx, hname]
  exact ⟨fun h hne hx ↦ h _ hx hne rfl, fun h y hy hne hyx ↦ h hne (hyx ▸ hy)⟩

/-! ### Quiet walks -/

/-- The second resolver has all errors of the first one, and no other if and only if a condition
holds. -/
def QuietIff (r r' : Resolver) (P : Prop) : Prop :=
  r.errors.size ≤ r'.errors.size ∧ (r'.errors.size = r.errors.size ↔ P)

theorem QuietIff.congr (h : QuietIff r r' P) (hiff : P ↔ Q) : QuietIff r r' Q :=
  ⟨h.1, h.2.trans hiff⟩

theorem QuietIff.trans (h : QuietIff r r' P) (h' : QuietIff r' r'' Q) :
    QuietIff r r'' (P ∧ Q) := by
  obtain ⟨hle, hP⟩ := h
  obtain ⟨hle', hQ⟩ := h'
  refine ⟨Nat.le_trans hle hle', ?_⟩
  rw [← hP, ← hQ]
  omega

theorem quietIff_of_errors (herrors : r'.errors = r.errors) (hP : P) : QuietIff r r' P := by
  simp [QuietIff, herrors, hP]

/-- What leaves the errors alone can be left out behind a walk. -/
theorem QuietIff.behind (h : QuietIff r r' P) (herrors : r''.errors = r'.errors) :
    QuietIff r r'' P :=
  (h.trans (quietIff_of_errors herrors trivial)).congr (by rw [and_true])

/-- What leaves the errors alone can be left out in front of a walk. -/
theorem QuietIff.inFront (h : QuietIff r' r'' P) (herrors : r'.errors = r.errors) :
    QuietIff r r'' P :=
  ((quietIff_of_errors herrors trivial).trans h).congr (by rw [true_and])

theorem quietIff_of_report (hP : ¬ P) (fault : ScopeFault) (mark : Mark) :
    QuietIff r (r.report fault mark) P := by
  simp [QuietIff, report, hP]

theorem errors_define (r : Resolver) (x : Name) : (r.define x).errors = r.errors := by
  unfold define
  split <;> rfl

theorem quietIff_declare (x : Ident) :
    QuietIff r (r.declare x) (r.declares x.name = false) := by
  unfold declare declares
  cases r.scopes with
  | nil => exact quietIff_of_errors rfl (by simp)
  | cons scope outer =>
    by_cases h : Bindings.binds scope x.name = true
    · simp only [h, if_true]
      exact quietIff_of_report (by simp) _ _
    · simp only [h]
      exact quietIff_of_errors rfl (by simp)

theorem quietIff_bind (x : Ident) : QuietIff r (r.bind x) (r.declares x.name = false) :=
  (quietIff_declare x).behind (errors_define _ _)

theorem quietIff_read (id : Nat) (x : Ident) :
    QuietIff r (r.read id x) (r.isIncomplete x.name = false) := by
  unfold read
  split
  · next h => exact (quietIff_of_report (by simp [h]) _ _).behind rfl
  · next h => exact quietIff_of_errors rfl (by simpa using h)

theorem quietIff_this (id line : Nat) :
    QuietIff r (r.this id line) (r.classContext ≠ .outside) := by
  unfold this
  split
  · next h => exact quietIff_of_report (by simp [h]) _ _
  · next h => exact quietIff_of_errors rfl (by simpa using h)

theorem quietIff_super (id line : Nat) :
    QuietIff r (r.super id line) (r.classContext = .inSubclass) := by
  unfold super
  split
  · next h => exact quietIff_of_report (by simp [h]) _ _
  · next h => exact quietIff_of_report (by simp [h]) _ _
  · next h => exact quietIff_of_errors rfl (by simp [h])

theorem quietIff_returns (line : Nat) :
    QuietIff r (r.returns line) (r.functionContext ≠ .outside) := by
  unfold returns
  split
  · next h => exact quietIff_of_report (by simp [h]) _ _
  · next h => exact quietIff_of_errors rfl (by simpa using h)

theorem quietIff_returnsValue (line : Nat) :
    QuietIff r (r.returnsValue line) (r.functionContext ≠ .inInitializer) := by
  unfold returnsValue
  split
  · next h => exact quietIff_of_report (by simp [h]) _ _
  · next h => exact quietIff_of_errors rfl (by simpa using h)

theorem quietIff_inherits (x s : Ident) : QuietIff r (r.inherits x s) (s.text ≠ x.text) := by
  unfold inherits
  split
  · next h => exact quietIff_of_report (by simpa using h) _ _
  · next h => exact quietIff_of_errors rfl (by simpa using h)

/-! ### Functions and classes -/

/-- Names are bound one after the other before a walk goes on. -/
theorem quietIff_bindAll {walk : Resolver → Resolver} {names : List String}
    (hwalk : ∀ r, r.LiesIn around → r.IsComplete → QuietIff r (walk r) (r.Accepts names ∧ Q))
    (xs : List Ident) (h : r.LiesIn around) (hr : r.IsComplete) :
    QuietIff r (walk (xs.foldl bind r)) (r.Accepts (xs.map Ident.text ++ names) ∧ Q) := by
  induction xs generalizing r with
  | nil => exact hwalk r h hr
  | cons x xs ih =>
    have hothers := ih (h.bind x) (hr.bindInnermost (scopes_bind r x))
    refine ((quietIff_bind x).trans hothers).congr ?_
    rw [List.map_cons, List.cons_append, accepts_cons (scopes_bind r x), and_assoc]

/-- The parameters and the body of a function are walked in a scope of their own. -/
theorem quietIff_inFunction {body : Enclosure} {walk : Resolver → Resolver}
    {names : List String} {context : FunctionContext}
    (hwalk : ∀ r, r.LiesIn (body :: around) → r.IsComplete →
      QuietIff r (walk r) (r.Accepts names ∧ Q))
    (hcontext : context = functionContextOf (body :: around))
    (hclass : r.classContext = classContextOf (body :: around)) (params : List Ident) :
    QuietIff r (r.inFunction context params walk)
      ((params.map Ident.text ++ names).Nodup ∧ Q) := by
  have henter : (r.withFunctionContext context).enter.LiesIn (body :: around) :=
    ⟨hcontext, hclass, iff_of_false (List.cons_ne_nil _ _) (List.cons_ne_nil _ _)⟩
  have hinside := quietIff_bindAll hwalk params henter (isComplete_enter _)
  rw [accepts_enter] at hinside
  exact (hinside.behind rfl).inFront rfl

/-- The methods of a class are walked where the class is the innermost one. -/
theorem quietIff_inClass {walk : Resolver → Resolver} {x : Ident}
    {superclass : Option SuperclassName} (hr : r.IsComplete)
    (hwalk : ∀ r, r.classContext = (if superclass.isSome then .inSubclass else .inClass) →
      QuietIff r (walk r) Q) :
    QuietIff r (r.inClass x superclass walk) (r.declares x.name = false ∧
      (∀ s ∈ superclass, s.ident.text ≠ x.text) ∧ Q) := by
  have hmethods {r : Resolver}
      (h : r.classContext = (if superclass.isSome then .inSubclass else .inClass)) :
      QuietIff r (r.inMethods walk) Q := by
    have hplace : (r.enter.define .this).classContext = r.classContext :=
      congrArg Place.classContext (place_define r.enter .this)
    exact ((hwalk _ (hplace.trans h)).behind rfl).inFront (errors_define _ _)
  have hname : QuietIff r ((r.withClassContext .inClass).bind x) (r.declares x.name = false) :=
    (quietIff_bind x).inFront rfl
  have hinner : ((r.withClassContext .inClass).bind x).IsComplete :=
    (hr.congr rfl : (r.withClassContext .inClass).IsComplete).bindInnermost (scopes_bind _ x)
  cases superclass with
  | none =>
    have hcontext : ((r.withClassContext .inClass).bind x).classContext = .inClass :=
      classContext_bind _ x
    exact ((hname.trans (hmethods hcontext)).congr (by simp)).behind rfl
  | some s =>
    simp only [inClass, inSubclass]
    generalize (r.withClassContext .inClass).bind x = inner at hname hinner ⊢
    -- The name of the superclass is read where nothing is incomplete.
    have hinherits := quietIff_inherits x s.ident (r := inner)
    have hread : QuietIff (inner.inherits x s.ident)
        (((inner.inherits x s.ident).withClassContext .inSubclass).read s.id s.ident) True := by
      refine ((quietIff_read s.id s.ident).congr (iff_true_intro ?_)).inFront rfl
      have hscopes : (inner.inherits x s.ident).scopes = inner.scopes :=
        congrArg Place.scopes (place_inherits inner x s.ident)
      exact (isIncomplete_congr hscopes _).trans (hinner _)
    have hsub : (((inner.inherits x s.ident).withClassContext .inSubclass).read s.id
        s.ident).classContext = .inSubclass :=
      congrArg Place.classContext (place_read _ s.id s.ident)
    generalize ((inner.inherits x s.ident).withClassContext .inSubclass).read s.id s.ident = sub
      at hread hsub ⊢
    have hcontext : (sub.enter.define .super).classContext = .inSubclass :=
      (congrArg Place.classContext (place_define sub.enter .super)).trans hsub
    have hwhole := (hname.trans hinherits).trans
      (hread.trans ((hmethods hcontext).inFront (errors_define _ _)))
    exact (hwhole.congr (by simp [and_assoc])).behind rfl

end Resolver

open Resolver

/-! ### Programs -/

/-- Behind a plain statement the innermost scope binds what the statement declares. -/
theorem Stmt.scopes_resolve_of_isPlain {s : Stmt} (h : s.IsPlain) (r : Resolver) :
    (s.resolve r).scopes =
      match s.declared? with
      | none => r.scopes
      | some x => bindInnermost x.name r.scopes := by
  rw [s.scopes_resolve]
  cases s with
  | varDecl | funDecl | classDecl => rfl
  | expression | print | block | returns => rfl
  | ifElse | whileLoop => exact Stmt.scopesAfter_eq_self _ _ h rfl

mutual

/-- The walk over an expression is quiet if its parts are legal and it reads no variable whose
declaration is incomplete. -/
theorem Expr.quietIff_resolve : ∀ (e : Expr) {r : Resolver} {around : List Enclosure},
    e.IsPlain → r.LiesIn around → QuietIff r (e.resolve r)
      (AreLegal (e.parts around) ∧ r.MayRead e.reads)
  | .literal _ _, r, _, _, _ => by
    rw [Expr.resolve]
    exact quietIff_of_errors rfl
      (by simp [Expr.parts, Expr.reads, Occurrence.IsLegal, Part.scopes])
  | .read id name, r, _, _, _ => by
    rw [Expr.resolve]
    exact (quietIff_read id name).congr
      (by simp [Expr.parts, Expr.reads, Occurrence.IsLegal, Part.scopes, MayRead, Ident.name])
  | .this id line, r, _, _, hr => by
    rw [Expr.resolve]
    exact (quietIff_this id line).congr
      (by simp [Expr.parts, Expr.reads, Occurrence.IsLegal, Part.scopes, hr.classContext,
        ← classContextOf_ne_outside])
  | .super id line _, r, _, _, hr => by
    rw [Expr.resolve]
    exact (quietIff_super id line).congr
      (by simp [Expr.parts, Expr.reads, Occurrence.IsLegal, Part.scopes, hr.classContext,
        ← classContextOf_eq_inSubclass])
  | .grouping _ e, r, _, h, hr | .unary _ _ _ e, r, _, h, hr | .get _ e _, r, _, h, hr => by
    rw [Expr.IsPlain] at h
    rw [Expr.resolve]
    exact (e.quietIff_resolve h hr).congr
      (by simp [Expr.parts, Expr.reads, Occurrence.IsLegal, Part.scopes])
  | .assign _ _ e, r, _, h, hr => by
    rw [Expr.IsPlain] at h
    rw [Expr.resolve]
    exact ((e.quietIff_resolve h hr).congr
      (by simp [Expr.parts, Expr.reads, Occurrence.IsLegal, Part.scopes])).behind rfl
  | .binary _ _ _ left right, r, around, h, hr | .logical _ _ _ left right, r, around, h, hr => by
    rw [Expr.IsPlain] at h
    rw [Expr.resolve]
    have hright := right.quietIff_resolve h.2 (hr.of_place (left.place_resolve r))
    rw [mayRead_congr (left.scopes_resolve r)] at hright
    exact ((left.quietIff_resolve h.1 hr).trans hright).congr
      (by simp [Expr.parts, Expr.reads, Occurrence.IsLegal, Part.scopes,
        and_and_and_comm])
  | .set _ object _ value, r, around, h, hr => by
    rw [Expr.IsPlain] at h
    rw [Expr.resolve]
    have hobject := object.quietIff_resolve h.1 (hr.of_place (value.place_resolve r))
    rw [mayRead_congr (value.scopes_resolve r)] at hobject
    exact ((value.quietIff_resolve h.2 hr).trans hobject).congr
      (by simp [Expr.parts, Expr.reads, Occurrence.IsLegal, Part.scopes,
        and_and_and_comm, and_comm])
  | .call _ callee _ arguments, r, around, h, hr => by
    rw [Expr.IsPlain] at h
    rw [Expr.resolve]
    have harguments := quietIff_resolveExprs arguments h.2 (hr.of_place (callee.place_resolve r))
    rw [mayRead_congr (callee.scopes_resolve r)] at harguments
    exact ((callee.quietIff_resolve h.1 hr).trans harguments).congr
      (by simp [Expr.parts, Expr.reads, Occurrence.IsLegal, Part.scopes,
        and_and_and_comm])
  | .lambda _ _ params body, r, around, h, hr => by
    rw [Expr.IsPlain] at h
    rw [Expr.resolve]
    have hclass : r.classContext = classContextOf (.function :: around) := hr.classContext
    have hbody := quietIff_inFunction (fun _ ↦ quietIff_resolveStmts body h) rfl hclass params
    exact hbody.congr
      (by simp [Expr.parts, Expr.reads, Occurrence.IsLegal, Part.scopes, functionNames])

theorem quietIff_resolveExprs : ∀ (es : List Expr) {r : Resolver} {around : List Enclosure},
    ArePlainExprs es → r.LiesIn around → QuietIff r (resolveExprs es r)
      (AreLegal (partsOfExprs around es) ∧ r.MayRead (readsOfExprs es))
  | [], r, _, _, _ => by
    rw [resolveExprs]
    exact quietIff_of_errors rfl (by simp [partsOfExprs, readsOfExprs])
  | e :: es, r, _, h, hr => by
    rw [ArePlainExprs] at h
    rw [resolveExprs]
    have hothers := quietIff_resolveExprs es h.2 (hr.of_place (e.place_resolve r))
    rw [mayRead_congr (e.scopes_resolve r)] at hothers
    exact ((e.quietIff_resolve h.1 hr).trans hothers).congr
      (by simp [partsOfExprs, readsOfExprs, and_and_and_comm])

/-- The walk over a statement is quiet if its parts are legal and the innermost scope does not
bind the name that it declares. -/
theorem Stmt.quietIff_resolve : ∀ (s : Stmt) {r : Resolver} {around : List Enclosure},
    s.IsPlain → r.LiesIn around → r.IsComplete → QuietIff r (s.resolve r)
      ((∀ x ∈ s.declared?, r.declares x.name = false) ∧ AreLegal (s.parts around))
  | .expression e, r, _, h, hr, hc | .print _ e, r, _, h, hr, hc => by
    rw [Stmt.IsPlain] at h
    rw [Stmt.resolve]
    exact (e.quietIff_resolve h hr).congr
      (by simp [Stmt.parts, Stmt.declared?, Occurrence.IsLegal, Part.scopes,
        hc.mayRead])
  | .varDecl x none, r, _, _, _, _ => by
    rw [Stmt.resolve]
    exact (quietIff_bind x).congr
      (by simp [Stmt.parts, Stmt.declared?, Occurrence.IsLegal, Part.scopes])
  | .varDecl x (some e), r, around, h, hr, hc => by
    rw [Stmt.IsPlain] at h
    rw [Stmt.resolve]
    have hvalue := (quietIff_declare x).trans (e.quietIff_resolve h (hr.declare x))
    refine (hvalue.congr ?_).behind (errors_define _ _)
    have hname : (∀ y ∈ (Stmt.varDecl x (some e)).declared?, r.declares y.name = false) ↔
        r.declares x.name = false := by simp [Stmt.declared?]
    rw [hname]
    refine and_congr_right fun hx ↦ ?_
    rw [mayRead_declare hc hx, ne_eq, hr.scopes]
    simp [Stmt.parts, Occurrence.IsLegal, Part.scopes, and_comm]
  | .block body, r, around, h, hr, hc => by
    rw [Stmt.IsPlain] at h
    rw [Stmt.resolve]
    have henter : r.enter.LiesIn (.block :: around) :=
      ⟨hr.functionContext, hr.classContext,
        iff_of_false (List.cons_ne_nil _ _) (List.cons_ne_nil _ _)⟩
    have hbody := quietIff_resolveStmts body h henter (isComplete_enter r)
    rw [accepts_enter] at hbody
    exact (hbody.congr (by simp [Stmt.parts, Stmt.declared?, Occurrence.IsLegal,
      Part.scopes])).behind rfl
  | .ifElse condition thenBranch none, r, around, h, hr, hc => by
    rw [Stmt.IsPlain] at h
    obtain ⟨hcondition, hthen, hthen'⟩ := h
    rw [Stmt.resolve]
    have hbranch := thenBranch.quietIff_resolve hthen (hr.of_place (condition.place_resolve r))
      (hc.congr (condition.scopes_resolve r))
    rw [Stmt.declared?_eq_none hthen'] at hbranch
    exact ((condition.quietIff_resolve hcondition hr).trans hbranch).congr
      (by simp [Stmt.parts, Stmt.declared?, Occurrence.IsLegal, Part.scopes, hc.mayRead])
  | .ifElse condition thenBranch (some elseBranch), r, around, h, hr, hc => by
    rw [Stmt.IsPlain] at h
    obtain ⟨hcondition, ⟨hthen, hthen'⟩, helse, helse'⟩ := h
    rw [Stmt.resolve]
    have hr' := hr.of_place (condition.place_resolve r)
    have hc' := hc.congr (condition.scopes_resolve r)
    have hplace : (thenBranch.resolve (condition.resolve r)).place =
        (condition.resolve r).place := by
      rw [thenBranch.place_resolve, thenBranch.scopesAfter_eq_self _ hthen hthen']
      rfl
    have hfirst := thenBranch.quietIff_resolve hthen hr' hc'
    have hsecond := elseBranch.quietIff_resolve helse (hr'.of_place hplace)
      (hc'.congr (congrArg Place.scopes hplace))
    rw [Stmt.declared?_eq_none hthen'] at hfirst
    rw [Stmt.declared?_eq_none helse'] at hsecond
    exact (((condition.quietIff_resolve hcondition hr).trans hfirst).trans hsecond).congr
      (by simp [Stmt.parts, Stmt.declared?, Occurrence.IsLegal, Part.scopes, hc.mayRead,
        and_assoc])
  | .whileLoop condition body, r, around, h, hr, hc => by
    rw [Stmt.IsPlain] at h
    obtain ⟨hcondition, hplain, hbody'⟩ := h
    rw [Stmt.resolve]
    have hbody := body.quietIff_resolve hplain (hr.of_place (condition.place_resolve r))
      (hc.congr (condition.scopes_resolve r))
    rw [Stmt.declared?_eq_none hbody'] at hbody
    exact ((condition.quietIff_resolve hcondition hr).trans hbody).congr
      (by simp [Stmt.parts, Stmt.declared?, Occurrence.IsLegal, Part.scopes, hc.mayRead])
  | .funDecl decl, r, around, h, hr, hc => by
    rw [Stmt.IsPlain] at h
    rw [Stmt.resolve]
    have hclass : (r.bind decl.name).classContext = classContextOf (.function :: around) :=
      (hr.bind decl.name).classContext
    exact ((quietIff_bind decl.name).trans (decl.quietIff_resolve h rfl hclass)).congr
      (by simp [Stmt.parts, Stmt.declared?, Occurrence.IsLegal, Part.scopes])
  | .returns line none, r, around, h, hr, hc => by
    rw [Stmt.resolve]
    exact (quietIff_returns line).congr
      (by simp [Stmt.parts, Stmt.declared?, Occurrence.IsLegal, Part.scopes,
        hr.functionContext, ← functionContextOf_ne_outside])
  | .returns line (some e), r, around, h, hr, hc => by
    rw [Stmt.IsPlain] at h
    rw [Stmt.resolve]
    have hplace : ((r.returns line).returnsValue line).place = r.place :=
      (place_returnsValue _ line).trans (place_returns r line)
    have hcontext : (r.returns line).functionContext = r.functionContext :=
      congrArg Place.functionContext (place_returns r line)
    have hreturn := (quietIff_returns line).trans (quietIff_returnsValue line (r := r.returns line))
    have hvalue := e.quietIff_resolve h (hr.of_place hplace)
    rw [mayRead_congr (congrArg Place.scopes hplace)] at hvalue
    have hlegal : (⟨.stmt (.returns line (some e)), around⟩ : Occurrence).IsLegal ↔
        r.functionContext ≠ .outside ∧ r.functionContext ≠ .inInitializer := by
      rw [hr.functionContext, functionContextOf_ne_outside, functionContextOf_ne_inInitializer]
      exact and_iff_right nofun
    rw [hcontext] at hreturn
    exact (hreturn.trans hvalue).congr
      (by simp [Stmt.parts, Stmt.declared?, hlegal, hc.mayRead])
  | .classDecl x superclass methods, r, around, h, hr, hc => by
    rw [Stmt.IsPlain] at h
    rw [Stmt.resolve]
    have hclass := quietIff_inClass (x := x) hc fun r hclass ↦
      quietIff_resolveMethods methods superclass.isSome around h hclass
    refine hclass.congr ?_
    cases superclass <;>
      simp [Stmt.parts, Stmt.declared?, Occurrence.IsLegal, Part.scopes, and_assoc, and_left_comm]

theorem quietIff_resolveStmts : ∀ (ss : List Stmt) {r : Resolver} {around : List Enclosure},
    ArePlain ss → r.LiesIn around → r.IsComplete → QuietIff r (resolveStmts ss r)
      (r.Accepts (declaredNames ss) ∧ AreLegal (partsOf around ss))
  | [], r, _, _, _, _ => by
    rw [resolveStmts]
    exact quietIff_of_errors rfl (by simp [partsOf, declaredNames, accepts_nil])
  | s :: ss, r, around, h, hr, hc => by
    rw [ArePlain] at h
    rw [resolveStmts]
    have hfirst := s.quietIff_resolve h.1 hr hc
    have hscopes := s.scopes_resolve_of_isPlain h.1 r
    have hplace := s.place_resolve r
    rw [← s.scopes_resolve] at hplace
    cases hdecl : s.declared? with
    | none =>
      rw [hdecl] at hfirst hscopes
      have hothers := quietIff_resolveStmts ss h.2 (hr.of_scopes hplace (by rw [hscopes]))
        (hc.congr hscopes)
      rw [accepts_congr hscopes] at hothers
      exact (hfirst.trans hothers).congr
        (by simp [partsOf, hdecl, and_left_comm])
    | some x =>
      rw [hdecl] at hfirst hscopes
      have hothers := quietIff_resolveStmts ss h.2
        (hr.of_scopes hplace (by rw [hscopes, bindInnermost_eq_nil_iff]))
        (hc.bindInnermost hscopes)
      exact (hfirst.trans hothers).congr
        (by simp [partsOf, hdecl, accepts_cons hscopes, and_assoc, and_left_comm])

theorem FunctionDecl.quietIff_resolve : ∀ (f : FunctionDecl) {r : Resolver}
    {body : Enclosure} {around : List Enclosure} {context : FunctionContext}, f.IsPlain →
    context = functionContextOf (body :: around) →
    r.classContext = classContextOf (body :: around) → QuietIff r (f.resolve context r)
      ((functionNames f.params f.body).Nodup ∧ AreLegal (f.parts (body :: around)))
  | .mk _ params ss, r, body, around, context, h, hcontext, hclass => by
    rw [FunctionDecl.IsPlain] at h
    rw [FunctionDecl.resolve]
    have hbody := quietIff_inFunction (fun _ ↦ quietIff_resolveStmts ss h) hcontext hclass params
    exact hbody.congr (by simp [FunctionDecl.parts, functionNames, FunctionDecl.params,
      FunctionDecl.body])

theorem quietIff_resolveMethods : ∀ (fs : List FunctionDecl) {r : Resolver} (inherits : Bool)
    (around : List Enclosure), ArePlainMethods fs →
    r.classContext = (if inherits then .inSubclass else .inClass) →
    QuietIff r (resolveMethods fs r) ((∀ f ∈ fs, (functionNames f.params f.body).Nodup) ∧
      AreLegal (partsOfMethods inherits around fs))
  | [], r, _, _, _, _ => by
    rw [resolveMethods]
    exact quietIff_of_errors rfl (by simp [partsOfMethods])
  | f :: fs, r, inherits, around, h, hclass => by
    rw [ArePlainMethods] at h
    rw [resolveMethods]
    have hcontext : (if f.isInitializer then .inInitializer else .inFunction) =
        functionContextOf (.method f.name.text inherits :: around) := rfl
    have hclass' : r.classContext = classContextOf (.method f.name.text inherits :: around) := by
      rw [hclass]
      cases inherits <;> rfl
    have hf := f.quietIff_resolve h.1 hcontext hclass'
    have hplace := f.place_resolve (if f.isInitializer then .inInitializer else .inFunction) r
    have hothers := quietIff_resolveMethods fs inherits around h.2
      ((congrArg Place.classContext hplace).trans hclass)
    exact (hf.trans hothers).congr (by simp [partsOfMethods, and_assoc, and_left_comm])

end

/-- A program whose branches declare nothing is accepted by name resolution if and only if each of
its parts is legal where it lies. -/
theorem errors_resolveProgram_eq_nil_iff {program : List Stmt} (hplain : ArePlain program) :
    (resolveProgram program).errors = [] ↔ AreLegal (partsOf [] program) := by
  have hstart : Resolver.start.LiesIn [] := ⟨rfl, rfl, iff_of_true rfl rfl⟩
  have hquiet := (quietIff_resolveStmts _ hplain hstart fun _ ↦ rfl).2
  have haccepts (names : List String) : Resolver.start.Accepts names :=
    ⟨fun hne ↦ absurd rfl hne, fun _ _ ↦ rfl⟩
  rw [and_iff_right (haccepts _)] at hquiet
  rw [← hquiet, resolveProgram, resolverAfter]
  simp [Resolver.start]

/-- A program that is parsed without an error is accepted by name resolution if and only if it is
well scoped: returns lie in functions and return no value from an initializer, `this` and `super`
lie in methods whose classes have what they name, no scope binds a name twice, no local variable
is read in its own initializer, and no class is its own superclass. -/
theorem resolveProgram_iff_wellScoped {firstId : Nat} {tokens : List Token}
    (h : (parse firstId tokens).errors = []) :
    (resolveProgram (parse firstId tokens).statements).errors = [] ↔
      IsWellScoped (parse firstId tokens).statements := by
  have hplain : ArePlain (parse firstId tokens).statements :=
    ((derivable_of_parse h).derives firstId).1.isPlain
  rw [isWellScoped_iff]
  exact errors_resolveProgram_eq_nil_iff hplain

/-- In an initializer a function can return a value, but the initializer cannot:
`class A { init() { fun () { return this; }; } }` is accepted, `class A { init() { return this; } }`
is not. -/
theorem resolveProgram_iff_wellScoped_initializer :
    let accepted : Parsed := parse 0
      ([.keyword .classWord, .identifier "A", .symbol .leftBrace,
        .identifier "init", .symbol .leftParen, .symbol .rightParen, .symbol .leftBrace,
        .keyword .funWord, .symbol .leftParen, .symbol .rightParen, .symbol .leftBrace,
        .keyword .returnWord, .keyword .thisWord, .symbol .semicolon, .symbol .rightBrace,
        .symbol .semicolon, .symbol .rightBrace, .symbol .rightBrace].map fun kind ↦ ⟨kind, 1⟩)
    let refused : Parsed := parse 0
      ([.keyword .classWord, .identifier "A", .symbol .leftBrace,
        .identifier "init", .symbol .leftParen, .symbol .rightParen, .symbol .leftBrace,
        .keyword .returnWord, .keyword .thisWord, .symbol .semicolon,
        .symbol .rightBrace, .symbol .rightBrace].map fun kind ↦ ⟨kind, 1⟩)
    (accepted.errors = [] ∧ IsWellScoped accepted.statements) ∧
      (refused.errors = [] ∧ ¬ IsWellScoped refused.statements) := by
  intro accepted refused
  have haccepted : accepted.errors = [] := by decide +kernel
  have hrefused : refused.errors = [] := by decide +kernel
  have hquiet : (resolveProgram accepted.statements).errors = [] := by decide +kernel
  have hloud : (resolveProgram refused.statements).errors ≠ [] := by decide +kernel
  exact ⟨⟨haccepted, (resolveProgram_iff_wellScoped haccepted).1 hquiet⟩, hrefused,
    fun h ↦ hloud ((resolveProgram_iff_wellScoped hrefused).2 h)⟩

end LexScript
