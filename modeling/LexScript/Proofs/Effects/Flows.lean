import LexScript.Proofs.Heap.Growth
import LexScript.Proofs.Scope.Occurrences

/-!
# How statements finish

A statement finishes with the next one to come or with a value on its way back to the call in
progress. Nothing checks at run time that there is such a call: it is said by where the statement
lies. If each part of a statement is legal where it lies, then a value is on its way back only
inside of the body of a function, and inside of an initializer it is `nil`.

A return that is executed, in blocks, branches and loops, ends the statements of the body around it:
they finish with its value, and nothing else is executed of them. Conversely, statements finish with
a value on its way back only if their execution has come to a return.

## Main definitions

* `Flow.IsAllowedIn` : how statements can finish that lie in some enclosures.
* `ComesTo` : an execution of statements comes to a return.

## Main statements

* `Stmt.yields_exec` : legal statements finish as is allowed.
* `ComesTo.execStmts_eq` : a return ends the statements around it.
* `exists_comesTo_of_execStmts` : a value is on its way back from a return only.
-/

namespace LexScript

open Run

/-! ### Allowed flows -/

/-- How statements can finish that lie in some enclosures. -/
def Flow.IsAllowedIn (around : List Enclosure) : Flow → Prop
  | .next => True
  | .returned v => (∃ body ∈ around, body.isBody = true) ∧
      ∀ inherits, around.find? Enclosure.isBody = some (.method "init" inherits) → v = .nil

theorem Flow.isAllowedIn_block_iff {around : List Enclosure} {flow : Flow} :
    flow.IsAllowedIn (.block :: around) ↔ flow.IsAllowedIn around := by
  cases flow with
  | next => exact Iff.rfl
  | returned v => simp [IsAllowedIn, Enclosure.isBody]

/-- Outside of all bodies, no value is on its way back. -/
theorem Flow.IsAllowedIn.eq_next {flow : Flow} (h : flow.IsAllowedIn []) : flow = .next := by
  cases flow with
  | next => rfl
  | returned v =>
    obtain ⟨body, hmem, -⟩ := h.1
    cases hmem

/-- Only `nil` is on its way back from an initializer. -/
theorem Flow.IsAllowedIn.of_initializer {flow : Flow} {inherits : Bool} {around : List Enclosure}
    (h : flow.IsAllowedIn (.method "init" inherits :: around)) :
    flow = .next ∨ flow = .returned .nil := by
  cases flow with
  | next => exact .inl rfl
  | returned v => exact .inr (congrArg Flow.returned (h.2 inherits rfl))

namespace Run

variable {α β : Type} {P : α → Prop} {Q : β → Prop}

/-- Of whatever result an action ends with, something holds. -/
def Yields (p : Run α) (P : α → Prop) : Prop := ∀ m a m', p m = .ok a m' → P a

theorem yields_true (p : Run α) : p.Yields fun _ ↦ True := fun _ _ _ _ ↦ trivial

theorem yields_pure {a : α} (ha : P a) : (pure a : Run α).Yields P := by
  rintro m _ _ ⟨⟩
  exact ha

theorem yields_throw (e : Stop) : (throw e : Run α).Yields P := nofun

theorem Yields.bind {p : Run α} {q : α → Run β} (hp : p.Yields P)
    (hq : ∀ a, P a → (q a).Yields Q) : (p >>= q).Yields Q := by
  intro m b m' h
  obtain ⟨a, t, hpm, hqt⟩ := eq_ok_of_bind h
  exact hq a (hp m a t hpm) t b m' hqt

/-- What holds of the last result does not depend on those before. -/
theorem yields_bind {p : Run α} {q : α → Run β} (hq : ∀ a, (q a).Yields Q) : (p >>= q).Yields Q :=
  (yields_true p).bind fun a _ ↦ hq a

theorem Yields.inFrame {p : Run α} (hp : p.Yields P) (f : Nat) : (inFrame f p).Yields P := by
  intro m a m' h
  unfold Run.inFrame at h
  dsimp only at h
  split at h
  · next hpm =>
    cases h
    exact hp _ _ _ hpm
  · cases h

theorem Yields.inBlock {p : Run α} (hp : p.Yields P) : (inBlock p).Yields P :=
  yields_bind fun _ ↦ yields_bind fun f ↦ hp.inFrame f

theorem yields_repeatWhile {condition : Run Value} {body : Run Flow} {P : Flow → Prop}
    (hnext : P .next) (hbody : body.Yields P) (turns : Nat) :
    (repeatWhile condition body turns).Yields P := by
  induction turns with
  | zero => exact yields_throw _
  | succ turns ih =>
    refine yields_bind fun v ↦ ?_
    split
    · refine hbody.bind fun flow hflow ↦ ?_
      cases flow with
      | next => exact ih
      | returned v => exact yields_pure hflow
    · exact yields_pure hnext

end Run

variable {call : Call} {turns : Nat}

mutual

/-- A statement whose parts are legal finishes as is allowed where it lies. -/
theorem Stmt.yields_exec {around : List Enclosure} : ∀ s : Stmt, AreLegal (s.parts around) →
    (s.exec call turns).Yields (Flow.IsAllowedIn around)
  | .expression _, _ | .print _ _, _ | .varDecl _ (some _), _ | .varDecl _ none, _
  | .funDecl _, _ | .classDecl _ _ _, _ => by
    rw [Stmt.exec]
    repeat' refine yields_bind fun _ ↦ ?_
    exact yields_pure trivial
  | .block body, h => by
    rw [Stmt.parts, areLegal_cons] at h
    rw [Stmt.exec]
    refine Yields.inBlock fun m flow m' hflow ↦ ?_
    exact Flow.isAllowedIn_block_iff.1 (yields_execStmts body h.2 m flow m' hflow)
  | .ifElse condition thenBranch none, h => by
    rw [Stmt.parts, areLegal_cons, areLegal_append] at h
    rw [Stmt.exec]
    refine yields_bind fun v ↦ ?_
    split
    · exact thenBranch.yields_exec h.2.2
    · exact yields_pure trivial
  | .ifElse condition thenBranch (some elseBranch), h => by
    rw [Stmt.parts, areLegal_cons, areLegal_append, areLegal_append] at h
    rw [Stmt.exec]
    refine yields_bind fun v ↦ ?_
    split
    · exact thenBranch.yields_exec h.2.2.1
    · exact elseBranch.yields_exec h.2.2.2
  | .whileLoop condition body, h => by
    rw [Stmt.parts, areLegal_cons, areLegal_append] at h
    rw [Stmt.exec]
    exact yields_repeatWhile trivial (body.yields_exec h.2.2) turns
  | .returns line none, h => by
    rw [Stmt.parts, areLegal_cons] at h
    rw [Stmt.exec]
    exact yields_pure ⟨h.1.2, fun _ _ ↦ rfl⟩
  | .returns line (some value), h => by
    rw [Stmt.parts, areLegal_cons] at h
    rw [Stmt.exec]
    exact yields_bind fun v ↦
      yields_pure ⟨h.1.2.1, fun inherits hinit ↦ absurd hinit (h.1.2.2 inherits)⟩

theorem yields_execStmts {around : List Enclosure} : ∀ ss : List Stmt,
    AreLegal (partsOf around ss) → (execStmts call turns ss).Yields (Flow.IsAllowedIn around)
  | [], _ => by
    rw [execStmts]
    exact yields_pure trivial
  | s :: ss, h => by
    rw [partsOf, areLegal_append] at h
    rw [execStmts]
    refine (s.yields_exec h.1).bind fun flow hflow ↦ ?_
    cases flow with
    | next => exact yields_execStmts ss h.2
    | returned v => exact yields_pure hflow

end

/-! ### Returns -/

/-- The value of a return, given the expression that it has. -/
def returnValue (call : Call) (turns : Nat) : Option Expr → Run Value
  | none => pure .nil
  | some value => value.eval call turns

/-- A loop takes a number of turns, each of which finishes with the next one to come. -/
inductive TakesTurns (call : Call) (turns : Nat) (condition : Expr) (body : Stmt) :
    Nat → Machine → Machine → Prop where
  | none {m : Machine} : TakesTurns call turns condition body 0 m m
  | more {k : Nat} {m m₁ m₂ m' : Machine} {v : Value}
      (hcondition : condition.eval call turns m = .ok v m₁) (htrue : v.isTruthy = true)
      (hbody : body.exec call turns m₁ = .ok .next m₂)
      (hrest : TakesTurns call turns condition body k m₂ m') :
      TakesTurns call turns condition body (k + 1) m m'

/-- A machine in a new frame inside the frame in scope. -/
def Machine.inNewFrame (m : Machine) : Machine :=
  { m with heap := (m.heap.newFrame m.current).2, current := m.heap.frames.size }

/-- The execution of statements comes to a return, which is to be executed next: one of them or,
at any depth of blocks, branches and loops, a part of one of them. -/
inductive ComesTo (call : Call) (turns : Nat) :
    List Stmt → Machine → Option Expr → Machine → Prop where
  | here {line : Nat} {value : Option Expr} {ss : List Stmt} {m : Machine} :
      ComesTo call turns (.returns line value :: ss) m value m
  | later {s : Stmt} {ss : List Stmt} {m m₁ m' : Machine} {value : Option Expr}
      (hs : s.exec call turns m = .ok .next m₁) (hss : ComesTo call turns ss m₁ value m') :
      ComesTo call turns (s :: ss) m value m'
  | block {body ss : List Stmt} {m m' : Machine} {value : Option Expr}
      (hbody : ComesTo call turns body m.inNewFrame value m') :
      ComesTo call turns (.block body :: ss) m value m'
  | thenBranch {condition : Expr} {thenBranch : Stmt} {elseBranch : Option Stmt} {ss : List Stmt}
      {m m₁ m' : Machine} {v : Value} {value : Option Expr}
      (hcondition : condition.eval call turns m = .ok v m₁) (htrue : v.isTruthy = true)
      (hthen : ComesTo call turns [thenBranch] m₁ value m') :
      ComesTo call turns (.ifElse condition thenBranch elseBranch :: ss) m value m'
  | elseBranch {condition : Expr} {thenBranch elseBranch : Stmt} {ss : List Stmt}
      {m m₁ m' : Machine} {v : Value} {value : Option Expr}
      (hcondition : condition.eval call turns m = .ok v m₁) (hfalse : v.isTruthy = false)
      (helse : ComesTo call turns [elseBranch] m₁ value m') :
      ComesTo call turns (.ifElse condition thenBranch (some elseBranch) :: ss) m value m'
  | loop {condition : Expr} {body : Stmt} {ss : List Stmt} {k : Nat} {m m₁ m₂ m' : Machine}
      {v : Value} {value : Option Expr} (hk : k < turns)
      (hturns : TakesTurns call turns condition body k m m₁)
      (hcondition : condition.eval call turns m₁ = .ok v m₂) (htrue : v.isTruthy = true)
      (hbody : ComesTo call turns [body] m₂ value m') :
      ComesTo call turns (.whileLoop condition body :: ss) m value m'

/-- Ends with a value on its way back, or with the error, in a frame. -/
def Run.returnIn (f : Nat) : EStateM.Result Stop Machine Value → EStateM.Result Stop Machine Flow
  | .ok v m => .ok (.returned v) { m with current := f }
  | .error e m => .error e { m with current := f }

/-- A return finishes with its value. -/
theorem Stmt.exec_returns (hcall : CallSettles call) (line : Nat) (value : Option Expr)
    (m : Machine) : (Stmt.returns line value).exec call turns m =
      returnIn m.current (returnValue call turns value m) := by
  cases value with
  | none =>
    rw [Stmt.exec]
    rfl
  | some value =>
    have hsettles : (value.eval call turns).Settles := value.settles_eval hcall
    have hm := hsettles m
    rw [Stmt.exec, bind_apply, returnValue]
    cases hvalue : value.eval call turns m with
    | ok v m' =>
      rw [hvalue] at hm
      rw [returnIn, ← hm.current]
      rfl
    | error e m' =>
      rw [hvalue] at hm
      rw [returnIn, ← hm.current]

/-- What is done in a block is done in a new frame, which is left again. -/
theorem Run.inBlock_apply {α : Type} (p : Run α) (m : Machine) :
    inBlock p m =
      match p m.inNewFrame with
      | .ok a m' => .ok a { m' with current := m.current }
      | .error e m' => .error e { m' with current := m.current } := by
  unfold inBlock
  simp only [bind_apply, currentFrame, change]
  rfl

/-- Statements of which the first one returns. -/
theorem execStmts_cons_of_returned {s : Stmt} {m : Machine}
    {r : EStateM.Result Stop Machine Value} {f : Nat}
    (h : s.exec call turns m = returnIn f r) (ss : List Stmt) :
    execStmts call turns (s :: ss) m = returnIn f r := by
  rw [execStmts, bind_apply, h]
  cases r <;> rfl

theorem execStmts_singleton (s : Stmt) (m : Machine) :
    execStmts call turns [s] m = s.exec call turns m := by
  rw [execStmts, bind_apply]
  rcases s.exec call turns m with ⟨_ | v, m'⟩ | ⟨e, m'⟩
  · exact congrFun (execStmts.eq_1 call turns) m'
  · rfl
  · rfl

theorem TakesTurns.repeatWhile_eq {condition : Expr} {body : Stmt} {k : Nat} {m m' : Machine}
    (h : TakesTurns call turns condition body k m m') (n : Nat) :
    repeatWhile (condition.eval call turns) (body.exec call turns) (k + n) m =
      repeatWhile (condition.eval call turns) (body.exec call turns) n m' := by
  induction h with
  | none => rw [Nat.zero_add]
  | @more k _ _ _ _ _ hcondition htrue hbody _ ih =>
    rw [Nat.add_right_comm, repeatWhile, bind_apply, hcondition]
    simp only [htrue, if_true, bind_apply, hbody, ih]

theorem TakesTurns.current_eq (hcall : CallSettles call) {condition : Expr} {body : Stmt} {k : Nat}
    {m m' : Machine} (h : TakesTurns call turns condition body k m m') :
    m'.current = m.current := by
  induction h with
  | none => rfl
  | more hcondition _ hbody _ ih =>
    have hcondition := Settles.of_eq_ok (condition.settles_eval hcall) hcondition
    have hbody := Settles.of_eq_ok (body.settles_exec hcall) hbody
    rw [ih, hbody.current, hcondition.current]

/-- A return that the execution of statements comes to ends them: they finish with its value, and
nothing else is executed of them. -/
theorem ComesTo.execStmts_eq (hcall : CallSettles call) {ss : List Stmt} {m m' : Machine}
    {value : Option Expr} (h : ComesTo call turns ss m value m') :
    execStmts call turns ss m = returnIn m.current (returnValue call turns value m') := by
  induction h with
  | here => exact execStmts_cons_of_returned (Stmt.exec_returns hcall _ _ _) _
  | @later s ss m m₁ m' value hs _ ih =>
    have hcurrent := (Settles.of_eq_ok (s.settles_exec hcall) hs).current
    rw [execStmts, bind_apply, hs, ← hcurrent]
    exact ih
  | @block body ss m m' value _ ih =>
    refine execStmts_cons_of_returned ?_ ss
    rw [Stmt.exec, inBlock_apply, ih]
    cases returnValue call turns value m' <;> rfl
  | @thenBranch condition thenBranch elseBranch ss m m₁ m' v value hcondition htrue _ ih =>
    refine execStmts_cons_of_returned ?_ ss
    have hcurrent := (Settles.of_eq_ok (condition.settles_eval hcall) hcondition).current
    rw [execStmts_singleton, hcurrent] at ih
    cases elseBranch <;> simp only [Stmt.exec, bind_apply, hcondition, htrue, if_true, ih]
  | @elseBranch condition thenBranch elseBranch ss m m₁ m' v value hcondition hfalse _ ih =>
    refine execStmts_cons_of_returned ?_ ss
    have hcurrent := (Settles.of_eq_ok (condition.settles_eval hcall) hcondition).current
    rw [execStmts_singleton, hcurrent] at ih
    simp only [Stmt.exec, bind_apply, hcondition, hfalse, Bool.false_eq_true, if_false, ih]
  | @loop condition body ss k m m₁ m₂ m' v value hk hturns hcondition htrue _ ih =>
    refine execStmts_cons_of_returned ?_ ss
    have hcurrent := (Settles.of_eq_ok (condition.settles_eval hcall) hcondition).current
    rw [execStmts_singleton, hcurrent, hturns.current_eq hcall] at ih
    obtain ⟨n, hn⟩ : ∃ n, k + (n + 1) = turns := ⟨turns - k - 1, by omega⟩
    have hloop := hturns.repeatWhile_eq (n + 1)
    rw [hn, repeatWhile] at hloop
    rw [Stmt.exec, hloop]
    simp only [bind_apply, hcondition, htrue, if_true, ih]
    cases returnValue call turns value m' <;> rfl

/-- A loop that finishes with a value on its way back has taken some turns, and then its body has
finished so. -/
theorem exists_takesTurns_of_repeatWhile {condition : Expr} {body : Stmt} {n : Nat}
    {m m' : Machine} {v : Value}
    (h : repeatWhile (condition.eval call turns) (body.exec call turns) n m =
      .ok (.returned v) m') :
    ∃ k m₁ m₂ w, k < n ∧ TakesTurns call turns condition body k m m₁ ∧
      condition.eval call turns m₁ = .ok w m₂ ∧ w.isTruthy = true ∧
      body.exec call turns m₂ = .ok (.returned v) m' := by
  induction n generalizing m with
  | zero => cases h
  | succ n ih =>
    rw [repeatWhile] at h
    obtain ⟨w, m₁, hcondition, h⟩ := eq_ok_of_bind h
    split at h
    · next htrue =>
      obtain ⟨flow, m₂, hbody, h⟩ := eq_ok_of_bind h
      cases flow with
      | next =>
        obtain ⟨k, m₃, m₄, u, hk, hturns, hrest⟩ := ih h
        exact ⟨k + 1, m₃, m₄, u, Nat.succ_lt_succ hk, .more hcondition htrue hbody hturns, hrest⟩
      | returned u =>
        cases h
        exact ⟨0, m, m₁, w, Nat.succ_pos n, .none, hcondition, htrue, hbody⟩
    · cases h

mutual

theorem Stmt.exists_comesTo_of_exec : ∀ (s : Stmt) {ss : List Stmt} {m m' : Machine} {v : Value},
    s.exec call turns m = .ok (.returned v) m' → ∃ value m₁ m₂,
      ComesTo call turns (s :: ss) m value m₁ ∧ returnValue call turns value m₁ = .ok v m₂
  | .expression _, _, _, _, _, h | .varDecl _ none, _, _, _, _, h | .funDecl _, _, _, _, _, h
  | .classDecl _ _ _, _, _, _, _, h => by
    rw [Stmt.exec] at h
    obtain ⟨_, _, -, h⟩ := eq_ok_of_bind h
    cases h
  | .print _ _, _, _, _, _, h | .varDecl _ (some _), _, _, _, _, h => by
    rw [Stmt.exec] at h
    obtain ⟨_, _, -, h⟩ := eq_ok_of_bind h
    obtain ⟨_, _, -, h⟩ := eq_ok_of_bind h
    cases h
  | .block body, _, m, _, _, h => by
    rw [Stmt.exec, inBlock_apply] at h
    cases hbody : execStmts call turns body m.inNewFrame with
    | ok flow m' =>
      rw [hbody] at h
      cases h
      obtain ⟨value, m₁, m₂, hcomes, hvalue⟩ := exists_comesTo_of_execStmts body hbody
      exact ⟨value, m₁, m₂, .block hcomes, hvalue⟩
    | error e m' =>
      rw [hbody] at h
      cases h
  | .ifElse condition thenBranch none, _, _, _, _, h => by
    rw [Stmt.exec] at h
    obtain ⟨w, m₁, hcondition, h⟩ := eq_ok_of_bind h
    split at h
    · next htrue =>
      obtain ⟨value, m₂, m₃, hcomes, hvalue⟩ := thenBranch.exists_comesTo_of_exec h
      exact ⟨value, m₂, m₃, .thenBranch hcondition htrue hcomes, hvalue⟩
    · cases h
  | .ifElse condition thenBranch (some elseBranch), _, _, _, _, h => by
    rw [Stmt.exec] at h
    obtain ⟨w, m₁, hcondition, h⟩ := eq_ok_of_bind h
    split at h
    · next htrue =>
      obtain ⟨value, m₂, m₃, hcomes, hvalue⟩ := thenBranch.exists_comesTo_of_exec h
      exact ⟨value, m₂, m₃, .thenBranch hcondition htrue hcomes, hvalue⟩
    · next hfalse =>
      obtain ⟨value, m₂, m₃, hcomes, hvalue⟩ := elseBranch.exists_comesTo_of_exec h
      exact ⟨value, m₂, m₃, .elseBranch hcondition (Bool.not_eq_true _ ▸ hfalse) hcomes, hvalue⟩
  | .whileLoop condition body, _, _, _, _, h => by
    rw [Stmt.exec] at h
    obtain ⟨k, m₁, m₂, w, hk, hturns, hcondition, htrue, hbody⟩ :=
      exists_takesTurns_of_repeatWhile h
    obtain ⟨value, m₃, m₄, hcomes, hvalue⟩ := body.exists_comesTo_of_exec hbody
    exact ⟨value, m₃, m₄, .loop hk hturns hcondition htrue hcomes, hvalue⟩
  | .returns _ none, _, m, m', _, h => by
    rw [Stmt.exec] at h
    cases h
    exact ⟨none, m, m, .here, rfl⟩
  | .returns _ (some value), _, m, m', _, h => by
    rw [Stmt.exec] at h
    obtain ⟨w, _, hvalue, h⟩ := eq_ok_of_bind h
    cases h
    exact ⟨some value, m, m', .here, hvalue⟩

/-- Statements finish with a value on its way back only if their execution has come to a return with
that value. -/
theorem exists_comesTo_of_execStmts : ∀ (ss : List Stmt) {m m' : Machine} {v : Value},
    execStmts call turns ss m = .ok (.returned v) m' → ∃ value m₁ m₂,
      ComesTo call turns ss m value m₁ ∧ returnValue call turns value m₁ = .ok v m₂
  | [], _, _, _, h => by
    rw [execStmts] at h
    cases h
  | s :: ss, _, _, _, h => by
    rw [execStmts] at h
    obtain ⟨flow, m₁, hs, h⟩ := eq_ok_of_bind h
    cases flow with
    | next =>
      obtain ⟨value, m₂, m₃, hcomes, hvalue⟩ := exists_comesTo_of_execStmts ss h
      exact ⟨value, m₂, m₃, .later hs hcomes, hvalue⟩
    | returned w =>
      cases h
      exact s.exists_comesTo_of_exec hs

end

end LexScript
