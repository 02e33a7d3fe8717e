import LexScript.Proofs.Loops.Runs
import LexScript.Proofs.Sessions.Rejection
import LexScript.Proofs.Watching.Calls

/-!
# Sessions without loops

A session that was only ever given sources without `while` and `for` has no loop in its heap: the
functions and methods there come from the programs of these sources. A further such source comes to
an end, with success or with an error of the program, however much its functions call each other.

## Main definitions

* `Session.ReachableBy` : sessions that were given sources of one kind.

## Main statements

* `run_terminates` : without loops, running a source comes to an end.
-/

namespace LexScript

open Run

/-- The sessions that a program using sessions can meet if it gives them sources of one kind. -/
inductive Session.ReachableBy (IsGiven : String → Prop) : Session → Prop where
  | start (sink : Sink) (clock : Clock) : ReachableBy IsGiven (.start sink clock)
  | run (turns : Nat) {source : String} (hsource : IsGiven source) {s : Session}
      (h : ReachableBy IsGiven s) : ReachableBy IsGiven (s.run turns source).2
  | takeOutput {s : Session} (h : ReachableBy IsGiven s) : ReachableBy IsGiven s.takeOutput.2

theorem Session.ReachableBy.reachable {IsGiven : String → Prop} {s : Session}
    (h : s.ReachableBy IsGiven) : s.Reachable := by
  induction h with
  | start sink clock => exact .start sink clock
  | run turns _ _ ih => exact .run turns _ ih
  | takeOutput _ ih => exact .takeOutput ih

theorem Run.HasHalted.outcomeOf {α : Type} {depth : Nat} {P : α → Prop}
    {result : EStateM.Result Stop Machine α} (h : HasHalted depth P result) :
    Run.outcomeOf result = .finished ∨ ∃ e, Run.outcomeOf result = .stopped e := by
  rcases result with ⟨a, m⟩ | ⟨e | _, m⟩
  · exact .inl rfl
  · exact .inr ⟨e, rfl⟩
  · exact absurd rfl h.2

theorem Run.HasHalted.machineOf {α : Type} {depth : Nat} {P : α → Prop}
    {result : EStateM.Result Stop Machine α} (h : HasHalted depth P result) :
    (Run.machineOf result).IsLoopFree depth := by
  cases result with
  | ok a m => exact h.1
  | error e m => exact h.1

namespace Session

variable {s : Session} {source : String}

/-- Where no function in the heap has a loop and no call is in progress, a legal source without
loops comes to an end and leaves a heap without loops. -/
theorem run_of_isLoopFree {program : List Stmt} {n : Nat} (hm : s.machine.IsLoopFree 0)
    (hsource : IsWithoutLoopWords source) (hread : readSource s.nextId source = ⟨[], program, n⟩)
    (hresolve : (resolveProgram program).errors = []) (turns turns' : Nat) :
    s.run turns' source = s.run turns source ∧
      ((s.run turns source).1 = .finished ∨ ∃ e, (s.run turns source).1 = .stopped e) ∧
      (s.run turns source).2.machine.heap.IsLoopFree := by
  obtain ⟨hsame, hend⟩ := halts_executeProgram turns turns' (hsource.areLoopFree hread)
    (s.machineFor program) ⟨hm.heap, hm.depth⟩
  rw [run_eq hread hresolve, run_eq hread hresolve, hsame]
  exact ⟨rfl, hend.outcomeOf, hend.machineOf.heap⟩

/-- A session that was given sources without loops has none in its heap. -/
theorem ReachableBy.isLoopFree (h : s.ReachableBy IsWithoutLoopWords) :
    s.machine.IsLoopFree 0 := by
  refine ⟨?_, h.reachable.current_eq_globals.2⟩
  induction h with
  | start sink clock => exact .initial
  | @run turns source hsource s h ih =>
    by_cases hlegal : (readSource s.nextId source).errors = [] ∧
      (resolveProgram (readSource s.nextId source).program).errors = []
    · have hread : readSource s.nextId source =
          ⟨[], (readSource s.nextId source).program, (readSource s.nextId source).nextId⟩ := by
        rw [← hlegal.1]
      have hm : s.machine.IsLoopFree 0 := ⟨ih, h.reachable.current_eq_globals.2⟩
      exact (run_of_isLoopFree hm hsource hread hlegal.2 turns turns).2.2
    · obtain ⟨d, hd⟩ := exists_machine_of_rejected hlegal turns
      rw [hd]
      exact ih
  | takeOutput _ ih => exact ih

end Session

/-- In a session that was only given sources without `while` and `for`, a further source without
them and without static errors comes to an end, with success or with an error of the program. The
turns that a loop would be allowed make no difference. -/
theorem run_terminates {s : Session} (hs : s.ReachableBy IsWithoutLoopWords) {source : String}
    (hsource : IsWithoutLoopWords source) (hlegal : IsLegal source) :
    ∃ (outcome : Outcome) (s' : Session), (outcome = .finished ∨ ∃ e, outcome = .stopped e) ∧
      ∀ turns, s.run turns source = (outcome, s') := by
  have hrun := Session.run_of_isLoopFree hs.isLoopFree hsource
    (readSource_eq hlegal.read s.nextId) (hlegal.resolve_relabel _)
  exact ⟨(s.run 0 source).1, (s.run 0 source).2, (hrun 0 0).2.1, fun turns ↦ (hrun 0 turns).1⟩

/-- A function that calls itself without an end is called, and the run comes to an end. -/
theorem run_terminates_recursion :
    let s := ((Session.start .unlimited (.running 0)).run 0 "fun f() { return f(); }").2
    s.ReachableBy IsWithoutLoopWords ∧ IsWithoutLoopWords "f();" ∧ IsLegal "f();" ∧
      ∃ (outcome : Outcome) (s' : Session), (outcome = .finished ∨ ∃ e, outcome = .stopped e) ∧
        ∀ turns, s.run turns "f();" = (outcome, s') := by
  intro s
  have hfirst : IsWithoutLoopWords "fun f() { return f(); }" := by decide +kernel
  have hs : s.ReachableBy IsWithoutLoopWords := .run 0 hfirst (.start _ _)
  have hsource : IsWithoutLoopWords "f();" := by decide +kernel
  have hlegal : IsLegal "f();" := ⟨by decide +kernel, by decide +kernel⟩
  exact ⟨hs, hsource, hlegal, run_terminates hs hsource hlegal⟩

end LexScript
