import LexScript.Proofs.Renaming.Programs
import LexScript.Proofs.Scope.Places

/-!
# Name resolution of renamed programs

If the new name of a variable does not occur in a program, then name resolution finds in the renamed
program what it finds in the program: uses with the same ids are bound at the same distances. It
accepts the renamed program if it accepts the program.

The two walks go side by side. The scopes of the second one bind renamed what those of the first one
bind, and no scope of the first one binds the new name, so that no use is captured.

## Main definitions

* `ScopesRenameTo`, `Resolver.RenamesTo` : what is known at the same point of both walks.
* `ResolvesAlike` : walks that find the same.

## Main statements

* `resolveProgram_of_renames` : a renamed program is accepted, with the same distances.
-/

namespace LexScript

variable {ρ : Renaming} {mark : Bool} {marks : List Bool}

/-! ### Scopes -/

/-- The second scope binds renamed what the first one binds, which is not the new name. -/
structure Scope.RenamesTo (ρ : Renaming) (mark : Bool) (scope scope' : Scope) : Prop where
  find : ∀ x, scope'.find? (ρ.name mark x) = scope.find? x
  new : scope.find? (.ident ρ.new) = none

/-- The scopes of the second list bind renamed what those of the first one bind. -/
inductive ScopesRenameTo (ρ : Renaming) : List Bool → List Scope → List Scope → Prop where
  | nil : ScopesRenameTo ρ [] [] []
  | cons {mark : Bool} {marks : List Bool} {scope scope' : Scope} {scopes scopes' : List Scope}
      (innermost : scope.RenamesTo ρ mark scope') (outer : ScopesRenameTo ρ marks scopes scopes') :
      ScopesRenameTo ρ (mark :: marks) (scope :: scopes) (scope' :: scopes')

/-- A name other than the new one is kept unless it becomes the new one. -/
theorem Renaming.name_cases {x : Name} (h : x ≠ .ident ρ.new) :
    ρ.name mark x = x ∨ ρ.name mark x = .ident ρ.new := by
  cases x with
  | ident text =>
    rcases text_cases (ρ := ρ) mark fun heq ↦ h (congrArg Name.ident heq) with
      hkeep | ⟨-, hnew⟩
    · exact .inl (congrArg Name.ident hkeep)
    · exact .inr (congrArg Name.ident hnew)
  | this => exact .inl rfl
  | super => exact .inl rfl

namespace Scope.RenamesTo

variable {scope scope' : Scope}

theorem binds (h : scope.RenamesTo ρ mark scope') (x : Name) :
    scope'.binds (ρ.name mark x) = scope.binds x := congrArg Option.isSome (h.find x)

/-- A name that a scope does not bind is not bound in the other scope, whatever it becomes. -/
theorem find?_eq_none (h : scope.RenamesTo ρ mark scope') {x : Name} (hx : x ≠ .ident ρ.new)
    (hnot : scope.find? x = none) (other : Bool) : scope'.find? (ρ.name other x) = none := by
  have hnone (y : Name) (hy : y = x ∨ y = .ident ρ.new) : scope.find? y = none := by
    rcases hy with rfl | rfl
    · exact hnot
    · exact h.new
  rw [← ρ.name_name mark (ρ.name other x), h.find]
  cases mark with
  | false => exact hnone _ (by simpa using Renaming.name_cases hx)
  | true =>
    cases other with
    | false => exact hnone _ (by simpa using Renaming.name_cases hx)
    | true => exact hnone _ (by simp)

theorem put (h : scope.RenamesTo ρ mark scope') {x : Name} (hx : x ≠ .ident ρ.new)
    (complete : Bool) :
    Scope.RenamesTo ρ mark (scope.put x complete) (scope'.put (ρ.name mark x) complete) where
  find y := by
    rw [Bindings.find?_put, Bindings.find?_put, h.find]
    simp only [Renaming.name_inj]
  new := by
    rw [Bindings.find?_put, if_neg (Ne.symm hx)]
    exact h.new

end Scope.RenamesTo

theorem scope_renamesTo_empty (ρ : Renaming) (mark : Bool) :
    Scope.RenamesTo ρ mark .empty .empty := ⟨fun _ ↦ rfl, rfl⟩

/-- A use is bound at the same distance if it is renamed with the scope that binds it. -/
theorem ScopesRenameTo.findIdx?_eq {scopes scopes' : List Scope}
    (h : ScopesRenameTo ρ marks scopes scopes') {x : Name} (hx : x ≠ .ident ρ.new) {mark : Bool}
    (hmark : ∀ distance, scopes.findIdx? (Bindings.binds · x) = some distance →
      marks.getD distance false = mark) :
    scopes'.findIdx? (Bindings.binds · (ρ.name mark x)) = scopes.findIdx? (Bindings.binds · x) := by
  induction h with
  | nil => rfl
  | @cons innermostMark _ scope scope' scopes scopes' hinnermost _ ih =>
    rw [List.findIdx?_cons, List.findIdx?_cons] at *
    by_cases hbinds : scope.binds x = true
    · rw [if_pos hbinds] at hmark ⊢
      have hinnermostMark : innermostMark = mark := hmark 0 rfl
      subst hinnermostMark
      rw [if_pos ((hinnermost.binds x).trans hbinds)]
    · have hnot : scope'.binds (ρ.name mark x) = false := by
        rw [Bindings.binds, hinnermost.find?_eq_none hx (by simpa [Bindings.binds] using hbinds)]
        rfl
      rw [if_neg hbinds] at hmark ⊢
      rw [hnot, if_neg Bool.false_ne_true, ih fun distance hd ↦ ?_]
      exact hmark (distance + 1) (by rw [hd, Option.map_some])

/-! ### Walks -/

/-- What a use was found to be, its name aside. -/
def NameUse.finding (use : NameUse) : Nat × Option Nat := (use.id, use.distance)

namespace Resolver

/-- Nothing was found to be an error, and the uses were found at the distances of a renaming. -/
def IsAccepted (ρ : Renaming) (r : Resolver) : Prop :=
  r.errors = #[] ∧ ∀ use ∈ r.uses, ρ.distances.find? use.id = use.distance

/-- The second resolver is where the first one is, in the renamed program, and has found the same if
the first one has found no error. -/
structure RenamesTo (ρ : Renaming) (marks : List Bool) (r r' : Resolver) : Prop where
  scopes : ScopesRenameTo ρ marks r.scopes r'.scopes
  functionContext : r'.functionContext = r.functionContext
  classContext : r'.classContext = r.classContext
  accepted : r.IsAccepted ρ →
    r'.errors = #[] ∧ r'.uses.map NameUse.finding = r.uses.map NameUse.finding

variable {r r' : Resolver}

theorem not_isAccepted_report (fault : ScopeFault) (m : Mark) :
    ¬(r.report fault m).IsAccepted ρ := fun h ↦ absurd h.1 (Array.push_ne_empty)

/-- What is found by noting a use. -/
theorem IsAccepted.of_use {id : Nat} {x : Name} (h : (r.use id x).IsAccepted ρ) :
    r.IsAccepted ρ ∧ ρ.distances.find? id = r.distance? x :=
  ⟨⟨h.1, fun use hmem ↦ h.2 use (Array.mem_push_of_mem _ hmem)⟩,
    h.2 ⟨id, x, r.distance? x⟩ Array.mem_push_self⟩

namespace RenamesTo

/-- Further on at the same place, only what is found is of interest. -/
theorem of_place (h : r.RenamesTo ρ marks r') {s s' : Resolver} (hs : s.place = r.place)
    (hs' : s'.place = r'.place) (haccepted : s.IsAccepted ρ →
      s'.errors = #[] ∧ s'.uses.map NameUse.finding = s.uses.map NameUse.finding) :
    s.RenamesTo ρ marks s' := by
  injection hs with hscopes hfunction hclass
  injection hs' with hscopes' hfunction' hclass'
  refine ⟨?_, ?_, ?_, haccepted⟩
  · rw [hscopes, hscopes']
    exact h.scopes
  · rw [hfunction, hfunction', h.functionContext]
  · rw [hclass, hclass', h.classContext]

/-- Behind an error, only the place is of interest. -/
theorem behind_report (h : r.RenamesTo ρ marks r') (fault : ScopeFault) (m : Mark) {s : Resolver}
    (hs : s.place = r'.place) : (r.report fault m).RenamesTo ρ marks s :=
  h.of_place rfl hs fun hr ↦ absurd hr (not_isAccepted_report fault m)

theorem use (h : r.RenamesTo ρ marks r') (id : Nat) {x : Name} (hx : x ≠ .ident ρ.new) :
    (r.use id x).RenamesTo ρ marks (r'.use id (ρ.name (ρ.reaches marks id) x)) := by
  refine h.of_place rfl rfl fun hr ↦ ?_
  obtain ⟨hr, hid⟩ := hr.of_use
  obtain ⟨herrors, huses⟩ := h.accepted hr
  refine ⟨herrors, ?_⟩
  have hdistance : r'.distance? (ρ.name (ρ.reaches marks id) x) = r.distance? x := by
    refine h.scopes.findIdx?_eq hx fun distance hd ↦ ?_
    rw [Renaming.reaches, hid, Resolver.distance?, hd]
  simp only [Resolver.use, Array.map_push, huses, hdistance, NameUse.finding]

theorem isIncomplete (h : r.RenamesTo ρ marks r') {id : Nat} {x : Name}
    (hx : x ≠ .ident ρ.new) (hid : ρ.distances.find? id = r.distance? x) :
    r'.isIncomplete (ρ.name (ρ.reaches marks id) x) = r.isIncomplete x := by
  have hscopes := h.scopes
  unfold Resolver.isIncomplete
  unfold Resolver.distance? at hid
  generalize r.scopes = scopes at hscopes hid
  generalize r'.scopes = scopes' at hscopes
  cases hscopes with
  | nil => rfl
  | @cons mark marks scope scope' _ _ hinnermost _ =>
    dsimp only
    cases hfind : scope.find? x with
    | none => rw [hinnermost.find?_eq_none hx hfind]
    | some complete =>
      have hbinds : scope.binds x = true := by rw [Bindings.binds, hfind, Option.isSome_some]
      rw [List.findIdx?_cons, if_pos hbinds] at hid
      have hreaches : ρ.reaches (mark :: marks) id = mark := by
        rw [Renaming.reaches, hid]
        rfl
      rw [hreaches, hinnermost.find, hfind]

theorem read (h : r.RenamesTo ρ marks r') (id : Nat) {x : Ident} (hx : x.text ≠ ρ.new) :
    (r.read id x).RenamesTo ρ marks (r'.read id (ρ.ident (ρ.reaches marks id) x)) := by
  have hname : x.name ≠ .ident ρ.new := fun heq ↦ hx (Name.ident.inj heq)
  refine h.of_place (place_read r id x) (place_read ..) fun hr ↦ ?_
  unfold Resolver.read at hr ⊢
  cases hincomplete : r.isIncomplete x.name with
  | true =>
    rw [hincomplete, if_pos rfl] at hr
    exact absurd hr.of_use.1 (not_isAccepted_report _ _)
  | false =>
    rw [hincomplete, if_neg Bool.false_ne_true] at hr
    rw [Renaming.name_ident, h.isIncomplete hname hr.of_use.2, hincomplete]
    exact (h.use id hname).accepted hr

/-! ### Declarations -/

theorem define (h : r.RenamesTo ρ marks r') {x : Name} (hx : x ≠ .ident ρ.new) :
    (r.define x).RenamesTo ρ marks (r'.define (ρ.name (marks.headD false) x)) := by
  obtain ⟨scopes, _, _, _, _⟩ := r
  obtain ⟨scopes', _, _, _, _⟩ := r'
  obtain ⟨hscopes, hfunction, hclass, haccepted⟩ := h
  cases hscopes with
  | nil => exact ⟨.nil, hfunction, hclass, haccepted⟩
  | cons hinnermost houter =>
    exact ⟨.cons (hinnermost.put hx true) houter, hfunction, hclass, haccepted⟩

theorem declare (h : r.RenamesTo ρ marks r') {x : Ident} (hx : x.text ≠ ρ.new) :
    (r.declare x).RenamesTo ρ marks (r'.declare (ρ.ident (marks.headD false) x)) := by
  have hname : x.name ≠ .ident ρ.new := fun heq ↦ hx (Name.ident.inj heq)
  obtain ⟨scopes, _, _, _, _⟩ := r
  obtain ⟨scopes', _, _, _, _⟩ := r'
  obtain ⟨hscopes, hfunction, hclass, haccepted⟩ := id h
  cases hscopes with
  | nil => exact h
  | @cons mark _ scope scope' _ _ hinnermost houter =>
    have hbinds := hinnermost.binds x.name
    rw [← Renaming.name_ident] at hbinds
    unfold Resolver.declare
    dsimp only [List.headD_cons]
    simp only [hbinds]
    split
    · exact h.behind_report .redeclared x.mark rfl
    · exact ⟨.cons (hinnermost.put hname false) houter, hfunction, hclass, haccepted⟩

theorem bind (h : r.RenamesTo ρ marks r') {x : Ident} (hx : x.text ≠ ρ.new) :
    (r.bind x).RenamesTo ρ marks (r'.bind (ρ.ident (marks.headD false) x)) :=
  (h.declare hx).define fun heq ↦ hx (Name.ident.inj heq)

/-! ### Walks through scopes -/

theorem enter (h : r.RenamesTo ρ marks r') (mark : Bool) :
    r.enter.RenamesTo ρ (mark :: marks) r'.enter :=
  ⟨.cons (scope_renamesTo_empty ρ mark) h.scopes, h.functionContext, h.classContext, h.accepted⟩

theorem leave (h : r.RenamesTo ρ (mark :: marks) r') : r.leave.RenamesTo ρ marks r'.leave := by
  obtain ⟨scopes, _, _, _, _⟩ := r
  obtain ⟨scopes', _, _, _, _⟩ := r'
  obtain ⟨hscopes, hfunction, hclass, haccepted⟩ := h
  cases hscopes with
  | cons _ houter => exact ⟨houter, hfunction, hclass, haccepted⟩

theorem withFunctionContext (h : r.RenamesTo ρ marks r') (context : FunctionContext) :
    (r.withFunctionContext context).RenamesTo ρ marks (r'.withFunctionContext context) :=
  ⟨h.scopes, rfl, h.classContext, h.accepted⟩

theorem withClassContext (h : r.RenamesTo ρ marks r') (context : ClassContext) :
    (r.withClassContext context).RenamesTo ρ marks (r'.withClassContext context) :=
  ⟨h.scopes, h.functionContext, rfl, h.accepted⟩

theorem params (h : r.RenamesTo ρ (mark :: marks) r') {xs : List Ident}
    (hxs : ∀ x ∈ xs, x.text ≠ ρ.new) :
    (xs.foldl Resolver.bind r).RenamesTo ρ (mark :: marks)
      ((xs.map (ρ.ident mark)).foldl Resolver.bind r') := by
  induction xs generalizing r r' with
  | nil => exact h
  | cons x xs ih =>
    rw [List.forall_mem_cons] at hxs
    exact ih (h.bind hxs.1) hxs.2

end RenamesTo

end Resolver

/-- Walks through a program and a renamed one that find the same. -/
def ResolvesAlike (ρ : Renaming) (marks : List Bool) (walk walk' : Resolver → Resolver) : Prop :=
  ∀ r r', r.RenamesTo ρ marks r' → (walk r).RenamesTo ρ marks (walk' r')

namespace Resolver.RenamesTo

variable {r r' : Resolver} {walk walk' : Resolver → Resolver}

theorem inScope (h : r.RenamesTo ρ marks r') (hwalk : ResolvesAlike ρ (mark :: marks) walk walk') :
    (r.inScope walk).RenamesTo ρ marks (r'.inScope walk') := (hwalk _ _ (h.enter mark)).leave

theorem inFunction (h : r.RenamesTo ρ marks r') (context : FunctionContext) {xs : List Ident}
    (hxs : ∀ x ∈ xs, x.text ≠ ρ.new) (hwalk : ResolvesAlike ρ (mark :: marks) walk walk') :
    (r.inFunction context xs walk).RenamesTo ρ marks
      (r'.inFunction context (xs.map (ρ.ident mark)) walk') := by
  have hbody : ResolvesAlike ρ (mark :: marks) (fun r ↦ walk (xs.foldl Resolver.bind r))
      fun r ↦ walk' ((xs.map (ρ.ident mark)).foldl Resolver.bind r) :=
    fun _ _ hr ↦ hwalk _ _ (hr.params hxs)
  have hinner := (h.withFunctionContext context).inScope hbody
  have houter := hinner.withFunctionContext r.functionContext
  rw [Resolver.inFunction, Resolver.inFunction, h.functionContext]
  exact houter

theorem inMethods (h : r.RenamesTo ρ marks r')
    (hwalk : ResolvesAlike ρ (false :: marks) walk walk') :
    (r.inMethods walk).RenamesTo ρ marks (r'.inMethods walk') :=
  h.inScope fun _ _ hr ↦ hwalk _ _ (hr.define nofun)

theorem inherits (h : r.RenamesTo ρ marks r') {x y : Ident} (hx : x.text ≠ ρ.new)
    (hy : y.text ≠ ρ.new) (mark : Bool) :
    (r.inherits x y).RenamesTo ρ marks (r'.inherits x (ρ.ident mark y)) := by
  unfold Resolver.inherits
  cases hsame : y.text == x.text with
  | true =>
    rw [if_pos rfl]
    exact h.behind_report .inheritsFromItself y.mark (place_inherits r' x _)
  | false =>
    have hsame' : ((ρ.ident mark y).text == x.text) = false := by
      rw [beq_eq_false_iff_ne] at hsame ⊢
      rcases Renaming.text_cases mark hy with hkeep | ⟨-, hnew⟩
      · exact fun heq ↦ hsame (hkeep.symm.trans heq)
      · exact fun heq ↦ hx (heq.symm.trans hnew)
    rw [hsame', if_neg Bool.false_ne_true, if_neg Bool.false_ne_true]
    exact h

/-- A class keeps its name, and its superclass is renamed as a use. -/
theorem inClass (h : r.RenamesTo ρ marks r') {x : Ident} (hx : x.text ≠ ρ.new)
    (hname : ρ.ident (marks.headD false) x = x)
    (hwalk : ResolvesAlike ρ (false :: marks) walk walk') :
    (r.inClass x none walk).RenamesTo ρ marks (r'.inClass x none walk') := by
  have hinner := (h.withClassContext .inClass).bind hx
  rw [hname] at hinner
  rw [Resolver.inClass, Resolver.inClass, h.classContext]
  exact (hinner.inMethods hwalk).withClassContext r.classContext

theorem inSubclass (h : r.RenamesTo ρ marks r') {x y : Ident} (hx : x.text ≠ ρ.new)
    (hy : y.text ≠ ρ.new) (hname : ρ.ident (marks.headD false) x = x) (id : Nat)
    (hwalk : ResolvesAlike ρ (false :: false :: marks) walk walk') :
    (r.inClass x (some ⟨id, y⟩) walk).RenamesTo ρ marks
      (r'.inClass x (some ⟨id, ρ.ident (ρ.reaches marks id) y⟩) walk') := by
  have hinner := (h.withClassContext .inClass).bind hx
  rw [hname] at hinner
  have hread := ((hinner.inherits hx hy (ρ.reaches marks id)).withClassContext .inSubclass).read
    id hy
  have hbody : ResolvesAlike ρ (false :: marks) (fun r ↦ (r.define .super).inMethods walk)
      fun r ↦ (r.define .super).inMethods walk' :=
    fun _ _ hr ↦ (hr.define (x := .super) nofun).inMethods hwalk
  have hmethods := hread.inScope hbody
  rw [Resolver.inClass, Resolver.inClass, h.classContext]
  exact hmethods.withClassContext r.classContext

theorem this (h : r.RenamesTo ρ marks r') (id line : Nat) :
    (r.this id line).RenamesTo ρ marks (r'.this id line) := by
  unfold Resolver.this
  rw [h.classContext]
  split
  · exact h.behind_report _ _ rfl
  · exact h.use id (x := .this) nofun

theorem super (h : r.RenamesTo ρ marks r') (id line : Nat) :
    (r.super id line).RenamesTo ρ marks (r'.super id line) := by
  unfold Resolver.super
  rw [h.classContext]
  split
  · exact h.behind_report _ _ rfl
  · exact h.behind_report _ _ rfl
  · exact h.use id (x := .super) nofun

theorem returns (h : r.RenamesTo ρ marks r') (line : Nat) :
    (r.returns line).RenamesTo ρ marks (r'.returns line) := by
  unfold Resolver.returns
  rw [h.functionContext]
  split
  · exact h.behind_report _ _ rfl
  · exact h

theorem returnsValue (h : r.RenamesTo ρ marks r') (line : Nat) :
    (r.returnsValue line).RenamesTo ρ marks (r'.returnsValue line) := by
  unfold Resolver.returnsValue
  rw [h.functionContext]
  split
  · exact h.behind_report _ _ rfl
  · exact h

end Resolver.RenamesTo

/-! ### Programs -/

mutual

theorem Expr.RenamesTo.resolvesAlike : ∀ {e e' : Expr} {marks : List Bool},
    e.RenamesTo ρ marks e' → (∀ x ∈ e.variables, x.text ≠ ρ.new) →
    ResolvesAlike ρ marks e.resolve e'.resolve
  | _, _, _, .literal, _, _, _, hr => by simpa only [Expr.resolve] using hr
  | _, _, _, .grouping inner, hx, _, _, hr => by
    rw [Expr.variables] at hx
    rw [Expr.resolve, Expr.resolve]
    exact inner.resolvesAlike hx _ _ hr
  | _, _, _, .unary operand, hx, _, _, hr => by
    rw [Expr.variables] at hx
    rw [Expr.resolve, Expr.resolve]
    exact operand.resolvesAlike hx _ _ hr
  | _, _, _, .binary left right, hx, _, _, hr => by
    rw [Expr.variables, List.forall_mem_append] at hx
    rw [Expr.resolve, Expr.resolve]
    exact right.resolvesAlike hx.2 _ _ (left.resolvesAlike hx.1 _ _ hr)
  | _, _, _, .logical left right, hx, _, _, hr => by
    rw [Expr.variables, List.forall_mem_append] at hx
    rw [Expr.resolve, Expr.resolve]
    exact right.resolvesAlike hx.2 _ _ (left.resolvesAlike hx.1 _ _ hr)
  | _, _, _, .read _, hx, _, _, hr => by
    rw [Expr.variables, List.forall_mem_singleton] at hx
    rw [Expr.resolve, Expr.resolve]
    exact hr.read _ hx
  | _, _, _, .assign _ value, hx, _, _, hr => by
    rw [Expr.variables, List.forall_mem_cons] at hx
    rw [Expr.resolve, Expr.resolve]
    exact (value.resolvesAlike hx.2 _ _ hr).use _ fun heq ↦ hx.1 (Name.ident.inj heq)
  | _, _, _, .call callee arguments, hx, _, _, hr => by
    rw [Expr.variables, List.forall_mem_append] at hx
    rw [Expr.resolve, Expr.resolve]
    exact arguments.resolvesAlike hx.2 _ _ (callee.resolvesAlike hx.1 _ _ hr)
  | _, _, _, .lambda mark body, hx, _, _, hr => by
    rw [Expr.variables, List.forall_mem_append] at hx
    rw [Expr.resolve, Expr.resolve]
    exact hr.inFunction _ hx.1 (body.resolvesAlike hx.2)
  | _, _, _, .get object, hx, _, _, hr => by
    rw [Expr.variables] at hx
    rw [Expr.resolve, Expr.resolve]
    exact object.resolvesAlike hx _ _ hr
  | _, _, _, .set object value, hx, _, _, hr => by
    rw [Expr.variables, List.forall_mem_append] at hx
    rw [Expr.resolve, Expr.resolve]
    exact object.resolvesAlike hx.1 _ _ (value.resolvesAlike hx.2 _ _ hr)
  | _, _, _, .this _, _, _, _, hr => by
    rw [Expr.resolve]
    exact hr.this _ _
  | _, _, _, .super _, _, _, _, hr => by
    rw [Expr.resolve]
    exact hr.super _ _

theorem RenamesExprsTo.resolvesAlike : ∀ {es es' : List Expr} {marks : List Bool},
    RenamesExprsTo ρ marks es es' → (∀ x ∈ variablesOfExprs es, x.text ≠ ρ.new) →
    ResolvesAlike ρ marks (resolveExprs es) (resolveExprs es')
  | _, _, _, .nil, _, _, _, hr => by simpa only [resolveExprs] using hr
  | _, _, _, .cons first others, hx, _, _, hr => by
    rw [variablesOfExprs, List.forall_mem_append] at hx
    rw [resolveExprs, resolveExprs]
    exact others.resolvesAlike hx.2 _ _ (first.resolvesAlike hx.1 _ _ hr)

theorem Stmt.RenamesTo.resolvesAlike : ∀ {s s' : Stmt} {marks : List Bool},
    s.RenamesTo ρ marks s' → (∀ x ∈ s.variables, x.text ≠ ρ.new) →
    ResolvesAlike ρ marks s.resolve s'.resolve
  | _, _, _, .expression inner, hx, _, _, hr => by
    rw [Stmt.variables] at hx
    rw [Stmt.resolve, Stmt.resolve]
    exact inner.resolvesAlike hx _ _ hr
  | _, _, _, .print value, hx, _, _, hr => by
    rw [Stmt.variables] at hx
    rw [Stmt.resolve, Stmt.resolve]
    exact value.resolvesAlike hx _ _ hr
  | _, _, _, .varNil, hx, _, _, hr => by
    rw [Stmt.variables, List.forall_mem_singleton] at hx
    rw [Stmt.resolve, Stmt.resolve]
    exact hr.bind hx
  | _, _, _, .varValue value, hx, _, _, hr => by
    rw [Stmt.variables, List.forall_mem_cons] at hx
    rw [Stmt.resolve, Stmt.resolve]
    exact (value.resolvesAlike hx.2 _ _ (hr.declare hx.1)).define
      fun heq ↦ hx.1 (Name.ident.inj heq)
  | _, _, _, .block mark body, hx, _, _, hr => by
    rw [Stmt.variables] at hx
    rw [Stmt.resolve, Stmt.resolve]
    exact hr.inScope (body.resolvesAlike hx)
  | _, _, _, .ifThen condition thenBranch, hx, _, _, hr => by
    rw [Stmt.variables, List.forall_mem_append] at hx
    rw [Stmt.resolve, Stmt.resolve]
    exact thenBranch.resolvesAlike hx.2 _ _ (condition.resolvesAlike hx.1 _ _ hr)
  | _, _, _, .ifElse condition thenBranch elseBranch, hx, _, _, hr => by
    rw [Stmt.variables, List.forall_mem_append, List.forall_mem_append] at hx
    rw [Stmt.resolve, Stmt.resolve]
    exact elseBranch.resolvesAlike hx.2.2 _ _ <|
      thenBranch.resolvesAlike hx.2.1 _ _ (condition.resolvesAlike hx.1 _ _ hr)
  | _, _, _, .whileLoop condition body, hx, _, _, hr => by
    rw [Stmt.variables, List.forall_mem_append] at hx
    rw [Stmt.resolve, Stmt.resolve]
    exact body.resolvesAlike hx.2 _ _ (condition.resolvesAlike hx.1 _ _ hr)
  | _, _, _, .funDecl hname decl, hx, _, _, hr => by
    rw [Stmt.variables, List.forall_mem_cons] at hx
    rw [Stmt.resolve, Stmt.resolve]
    have hbind := hr.bind hx.1
    rw [hname] at hbind
    exact decl.resolvesAlike .inFunction hx.2 _ _ (decl.name ▸ hbind)
  | _, _, _, .returnNil, _, _, _, hr => by
    rw [Stmt.resolve]
    exact hr.returns _
  | _, _, _, .returnValue value, hx, _, _, hr => by
    rw [Stmt.variables] at hx
    rw [Stmt.resolve, Stmt.resolve]
    exact value.resolvesAlike hx _ _ ((hr.returns _).returnsValue _)
  | _, _, _, .classDecl hname methods, hx, _, _, hr => by
    rw [Stmt.variables, List.forall_mem_cons] at hx
    rw [Stmt.resolve, Stmt.resolve]
    exact hr.inClass hx.1 hname (methods.resolvesAlike hx.2)
  | _, _, _, .subclassDecl hname _ methods, hx, _, _, hr => by
    rw [Stmt.variables, List.forall_mem_cons, List.forall_mem_cons] at hx
    rw [Stmt.resolve, Stmt.resolve]
    exact hr.inSubclass hx.1 hx.2.1 hname _ (methods.resolvesAlike hx.2.2)

theorem RenamesProgramTo.resolvesAlike : ∀ {ss ss' : List Stmt} {marks : List Bool},
    RenamesProgramTo ρ marks ss ss' → (∀ x ∈ variablesOfProgram ss, x.text ≠ ρ.new) →
    ResolvesAlike ρ marks (resolveStmts ss) (resolveStmts ss')
  | _, _, _, .nil, _, _, _, hr => by simpa only [resolveStmts] using hr
  | _, _, _, .cons first others, hx, _, _, hr => by
    rw [variablesOfProgram, List.forall_mem_append] at hx
    rw [resolveStmts, resolveStmts]
    exact others.resolvesAlike hx.2 _ _ (first.resolvesAlike hx.1 _ _ hr)

theorem FunctionDecl.RenamesTo.resolvesAlike (context : FunctionContext) :
    ∀ {f f' : FunctionDecl} {marks : List Bool}, f.RenamesTo ρ marks f' →
    (∀ x ∈ f.variables, x.text ≠ ρ.new) →
    ResolvesAlike ρ marks (f.resolve context) (f'.resolve context)
  | _, _, _, .mk mark body, hx, _, _, hr => by
    rw [FunctionDecl.variables, List.forall_mem_append] at hx
    rw [FunctionDecl.resolve, FunctionDecl.resolve]
    exact hr.inFunction _ hx.1 (body.resolvesAlike hx.2)

theorem RenamesMethodsTo.resolvesAlike : ∀ {fs fs' : List FunctionDecl} {marks : List Bool},
    RenamesMethodsTo ρ marks fs fs' → (∀ x ∈ variablesOfMethods fs, x.text ≠ ρ.new) →
    ResolvesAlike ρ marks (resolveMethods fs) (resolveMethods fs')
  | _, _, _, .nil, _, _, _, hr => by simpa only [resolveMethods] using hr
  | _, _, _, .cons first others, hx, _, _, hr => by
    rw [variablesOfMethods, List.forall_mem_append] at hx
    rw [resolveMethods, resolveMethods, first.isInitializer]
    exact others.resolvesAlike hx.2 _ _ (first.resolvesAlike _ hx.1 _ _ hr)

end

/-- Name resolution accepts a renamed program and binds its uses at the same distances. -/
theorem resolveProgram_of_renames {program program' : List Stmt}
    (h : RenamesProgramTo ρ [] program program')
    (hnew : ∀ x ∈ variablesOfProgram program, x.text ≠ ρ.new)
    (haccepted : (resolveProgram program).errors = [])
    (hdistances : ∀ use ∈ (resolveProgram program).uses,
      ρ.distances.find? use.id = use.distance) :
    (resolveProgram program').errors = [] ∧
      (resolveProgram program').uses.map NameUse.finding =
        (resolveProgram program).uses.map NameUse.finding := by
  have hstart : Resolver.start.RenamesTo ρ [] .start := ⟨.nil, rfl, rfl, fun _ ↦ ⟨rfl, rfl⟩⟩
  have hend := h.resolvesAlike hnew _ _ hstart
  obtain ⟨herrors, huses⟩ := hend.accepted ⟨Array.toList_eq_nil_iff.1 haccepted,
    fun use huse ↦ hdistances use (Array.mem_toList_iff.2 huse)⟩
  refine ⟨Array.toList_eq_nil_iff.2 herrors, ?_⟩
  have hlists := congrArg Array.toList huses
  rwa [Array.toList_map, Array.toList_map] at hlists

end LexScript
