import LexScript.Proofs.Relabelling.Nodes
import LexScript.Proofs.Sessions.Reachable

/-!
# Walks restore their context

Name resolution opens and closes scopes, and enters and leaves functions and classes. Whatever it
reports in between, it ends in the function and the class in which it started and with as many
scopes. An expression leaves these as they were. A statement does too, except that the innermost
scope then binds the names that the statement declares: each of them is new, or was declared before
and has become complete, or was complete already. At the top level no scope is open, so a program
leaves nothing behind that another one after it could notice.

## Main definitions

* `Stmt.bound` : the names that a statement binds where it lies.
* `Resolver.known?` : what the innermost scope knows of a name.
* `Resolver.Restores` : the context is the same, except for names in the innermost scope.

## Main statements

* `Stmt.restores_resolve` : the context behind a statement.
* `resolveProgram_append` : two programs, one after the other.
* `walks_restore_context` : what walks leave as it was, and what two programs are resolved to.
-/

namespace LexScript

/-- The names that a statement binds in the scope that it lies in. Its branches lie there, too. -/
def Stmt.bound : Stmt → List Name
  | .varDecl name _ | .classDecl name _ _ => [name.name]
  | .funDecl decl => [decl.name.name]
  | .ifElse _ thenBranch none => thenBranch.bound
  | .ifElse _ thenBranch (some elseBranch) => thenBranch.bound ++ elseBranch.bound
  | .whileLoop _ body => body.bound
  | .expression _ | .print _ _ | .block _ | .returns _ _ => []

namespace Resolver

variable {r r' r'' : Resolver} {names names' : List Name}

/-- Whether the declaration of a name in the innermost scope is complete, if there is one. -/
def known? (r : Resolver) (x : Name) : Option Bool := r.scopes.head?.bind (Bindings.find? · x)

/-- The second resolver has the context of the first one, except that the innermost scope has
complete declarations of some names. -/
structure Restores (r r' : Resolver) (names : List Name) : Prop where
  height : r'.scopes.length = r.scopes.length
  outer : r'.scopes.tail = r.scopes.tail
  others : ∀ x ∉ names, r'.known? x = r.known? x
  complete : r.scopes ≠ [] → ∀ x ∈ names, r'.known? x = some true
  functionContext : r'.functionContext = r.functionContext
  classContext : r'.classContext = r.classContext

theorem restores_of_place (h : r'.place = r.place) : r.Restores r' [] := by
  have hscopes : r'.scopes = r.scopes := congrArg Place.scopes h
  exact {
    height := by rw [hscopes]
    outer := by rw [hscopes]
    others := fun x _ ↦ by rw [known?, known?, hscopes]
    complete := fun _ _ hx ↦ absurd hx List.not_mem_nil
    functionContext := congrArg Place.functionContext h
    classContext := congrArg Place.classContext h }

/-- A name that is bound in the innermost scope is complete, and all others are as before. -/
theorem restores_of_bindInnermost {x : Name}
    (h : r'.place = { r.place with scopes := bindInnermost x r.scopes }) : r.Restores r' [x] := by
  have hscopes : r'.scopes = bindInnermost x r.scopes := congrArg Place.scopes h
  have hknown (y : Name) :
      r'.known? y = if r.scopes ≠ [] ∧ y = x then some true else r.known? y := by
    rw [known?, known?, hscopes]
    cases r.scopes with
    | nil => rfl
    | cons scope outer => simp [bindInnermost, Bindings.find?_put]
  exact {
    height := by
      rw [hscopes]
      cases r.scopes <;> rfl
    outer := by rw [hscopes, tail_bindInnermost]
    others := fun y hy ↦ by
      rw [hknown, if_neg fun hyx ↦ hy (List.mem_singleton.2 hyx.2)]
    complete := fun hne y hy ↦ by
      rw [hknown, if_pos ⟨hne, List.mem_singleton.1 hy⟩]
    functionContext := congrArg Place.functionContext h
    classContext := congrArg Place.classContext h }

theorem Restores.trans (h : r.Restores r' names) (h' : r'.Restores r'' names') :
    r.Restores r'' (names ++ names') where
  height := h'.height.trans h.height
  outer := h'.outer.trans h.outer
  others x hx := by
    rw [List.mem_append, not_or] at hx
    exact (h'.others x hx.2).trans (h.others x hx.1)
  complete hne x hx := by
    have hne' : r'.scopes ≠ [] := by
      rw [← List.length_pos_iff, h.height, List.length_pos_iff]
      exact hne
    by_cases hx' : x ∈ names'
    · exact h'.complete hne' x hx'
    · -- The second walk has left the name as the first one has bound it.
      have hfirst : x ∈ names := (List.mem_append.1 hx).resolve_right hx'
      exact (h'.others x hx').trans (h.complete hne x hfirst)
  functionContext := h'.functionContext.trans h.functionContext
  classContext := h'.classContext.trans h.classContext

end Resolver

open Resolver

/-- Behind a statement the context is the same, except that the innermost scope binds the names of
the statement. -/
theorem Stmt.restores_resolve : ∀ (s : Stmt) (r : Resolver), r.Restores (s.resolve r) s.bound
  | .expression e, r => restores_of_place ((Stmt.expression e).place_resolve r)
  | .print line value, r => restores_of_place ((Stmt.print line value).place_resolve r)
  | .block body, r => restores_of_place ((Stmt.block body).place_resolve r)
  | .returns line value, r => restores_of_place ((Stmt.returns line value).place_resolve r)
  | .varDecl name value, r => restores_of_bindInnermost ((Stmt.varDecl name value).place_resolve r)
  | .funDecl decl, r => restores_of_bindInnermost ((Stmt.funDecl decl).place_resolve r)
  | .classDecl name superclass methods, r =>
    restores_of_bindInnermost ((Stmt.classDecl name superclass methods).place_resolve r)
  | .ifElse condition thenBranch none, r => by
    rw [Stmt.resolve, Stmt.bound]
    exact (restores_of_place (condition.place_resolve r)).trans (thenBranch.restores_resolve _)
  | .ifElse condition thenBranch (some elseBranch), r => by
    rw [Stmt.resolve, Stmt.bound]
    have hthen := (restores_of_place (condition.place_resolve r)).trans
      (thenBranch.restores_resolve _)
    exact hthen.trans (elseBranch.restores_resolve _)
  | .whileLoop condition body, r => by
    rw [Stmt.resolve, Stmt.bound]
    exact (restores_of_place (condition.place_resolve r)).trans (body.restores_resolve _)

/-- A program behind another one is resolved as it is on its own. -/
theorem resolveProgram_append (program later : List Stmt) :
    resolveProgram (program ++ later) =
      ⟨(resolveProgram program).uses ++ (resolveProgram later).uses,
        (resolveProgram program).errors ++ (resolveProgram later).errors⟩ := by
  have hlater : relabelProgram ⟨id, id⟩ later = later :=
    relabelProgram_eq_self_of_ids fun _ _ ↦ rfl
  have huses (uses : List NameUse) : uses.map (NameUse.relabel ⟨id, id⟩) = uses :=
    List.map_id uses
  have herrors (errors : List ScopeError) : errors.map (ScopeError.relabel ⟨id, id⟩) = errors :=
    List.map_id errors
  have h := resolveProgram_append_relabel ⟨id, id⟩ program later
  rwa [hlater, huses, herrors] at h

/-- Wherever it starts and whatever it reports, the walk over an expression leaves all scopes, the
function and the class as they were, and so does the walk over a statement, except that the
innermost scope binds the names of the statement. Therefore two programs one after the other have
the errors of the first one and then those of the second one, and what is recorded for them are the
distances of both; for an id that has two of these, the one of the second program counts. -/
theorem walks_restore_context :
    (∀ (e : Expr) (r : Resolver), (e.resolve r).place = r.place) ∧
    (∀ (s : Stmt) (r : Resolver), r.Restores (s.resolve r) s.bound) ∧
    ∀ program later : List Stmt,
      resolveProgram (program ++ later) =
        ⟨(resolveProgram program).uses ++ (resolveProgram later).uses,
          (resolveProgram program).errors ++ (resolveProgram later).errors⟩ ∧
      ∀ (d : Distances) (id : Nat),
        (d.recordAll (resolveProgram (program ++ later)).uses).find? id =
          ((Distances.empty.recordAll (resolveProgram later).uses).find? id).or
            (((Distances.empty.recordAll (resolveProgram program).uses).find? id).or
              (d.find? id)) := by
  refine ⟨Expr.place_resolve, Stmt.restores_resolve, fun program later ↦ ?_⟩
  have happend := resolveProgram_append program later
  refine ⟨happend, fun d id ↦ ?_⟩
  rw [happend, Distances.recordAll_append, Distances.find?_recordAll_or,
    d.find?_recordAll_or]

end LexScript
