import LexScript.Proofs.Recursion
import LexScript.Proofs.Watching.Sessions

/-!
# Calls in progress

Whatever is evaluated, and however it ends, the same frame is in scope and the same number of calls
is in progress afterwards. While a session runs, that number is the number of calls whose bodies
have begun and have not ended. It never exceeds its limit: a call that would exceed it ends the run
with the error that says so, and nothing else does.

## Main definitions

* `Run.Restores` : an action that restores the frame in scope and the number of calls.

## Main statements

* `Moment.IsInOrder.callAt_of_refused?` : a refused call ends with the error.
* `Session.Reachable.run_endlessRecursion` : endless recursion ends with the error.
* `evaluation_restores` : evaluation restores the frame and the number of calls, which is limited.
-/

namespace LexScript

open Run

/-- However an action ends, the frame in scope and the number of calls are those from before. -/
def Run.Restores {α : Type} (p : Run α) : Prop :=
  ∀ m, (machineOf (p m)).current = m.current ∧ (machineOf (p m)).depth = m.depth

/-- However an action ends, its machine has settled. -/
theorem Run.Settles.machineOf {α : Type} {p : Run α} (hp : p.Settles) (m : Machine) :
    m.SettlesTo (Run.machineOf (p m)) := by
  have hm := hp m
  cases h : p m <;> rwa [h] at hm

theorem Run.Settles.restores {α : Type} {p : Run α} (h : p.Settles) : p.Restores :=
  fun m ↦ ⟨(h.machineOf m).current, (h.machineOf m).depth⟩

variable {moment : Moment} {s : Session} {turns : Nat} {source : String} {mark : Mark}

/-- A call is refused at the parenthesis that closes it: as many calls as can be are in progress,
and it would run the body of a function or of an initializer. -/
theorem Moment.refused?_eq_some_iff :
    moment.refused? = some mark ↔
      ∃ v vs line, moment.task = .call v vs line ∧ moment.history.calls.length = 3000 ∧
        moment.machine.heap.runsBody v vs.length = true ∧ mark = ⟨")", line⟩ := by
  obtain ⟨task, machine, history⟩ := moment
  cases task with
  | call v vs line =>
    rw [refused?_call_eq_some_iff]
    constructor
    · rintro ⟨⟨hfull, hruns⟩, rfl⟩
      exact ⟨v, vs, line, rfl, hfull, hruns, rfl⟩
    · rintro ⟨_, _, _, ⟨⟩, hfull, hruns, rfl⟩
      exact ⟨⟨hfull, hruns⟩, rfl⟩
  | _ => simp [Moment.refused?]

/-- A call that the limit refuses ends with the error that says so. -/
theorem Moment.IsInOrder.callAt_of_refused? (h : moment.IsInOrder) {v : Value} {vs : List Value}
    {line : Nat} (htask : moment.task = .call v vs line) (hrefused : moment.refused? = some mark)
    (turns level : Nat) :
    ∃ m, callAt turns (level + 1) v vs line moment.machine =
      .error (.fault ⟨.stackOverflow, mark⟩) m := by
  obtain ⟨task, machine, history⟩ := moment
  cases htask
  obtain ⟨⟨hfull, hruns⟩, rfl⟩ := refused?_call_eq_some_iff.1 hrefused
  have herases := erases_watchCallAt turns (level + 1) v vs line ⟨machine, history, []⟩
  rw [watchCallAt] at herases
  cases v with
  | functionRef k =>
    obtain ⟨c, hc, harity⟩ := Option.map_eq_some_iff.1 (beq_iff_eq.1 hruns)
    rw [Watched.callValue_functionRef_refused h.inOrder hfull hc harity] at herases
    exact ⟨_, herases.symm⟩
  | classRef c =>
    obtain ⟨method, hmethod, harity⟩ := Option.map_eq_some_iff.1 (beq_iff_eq.1 hruns)
    rw [Watched.callValue_classRef_refused h.inOrder hfull hmethod harity] at herases
    exact ⟨_, herases.symm⟩
  | _ => cases hruns

theorem Session.Reachable.current_eq_globals (hs : s.Reachable) :
    s.machine.current = Frames.globals ∧ s.machine.depth = 0 := by
  obtain ⟨w, hw, rfl⟩ := WatchedSession.exists_reachable hs
  have horder := hw.isInOrder
  refine ⟨?_, ?_⟩
  · rw [horder.inOrder.current, horder.display]
    rfl
  · rw [horder.inOrder.depth, horder.calls]
    rfl

/-- A session takes nothing away from its heap. -/
theorem Session.growsTo_run (s : Session) (turns : Nat) (source : String) :
    s.machine.heap.GrowsTo (s.run turns source).2.machine.heap := by
  cases hread : readSource s.nextId source with
  | mk errors program m =>
    by_cases haccepted : errors = [] ∧ (resolveProgram program).errors = []
    · obtain ⟨rfl, hresolve⟩ := haccepted
      rw [Session.run_eq hread hresolve]
      exact ((settles_executeProgram turns program).machineOf (s.machineFor program)).heap
    · have hkept : (s.run turns source).2.machine.heap = s.machine.heap := by
        by_cases herrors : errors = []
        · have hresolve : (resolveProgram program).errors ≠ [] := fun h ↦ haccepted ⟨herrors, h⟩
          simp [Session.run, Session.recordUses, hread, herrors, hresolve]
        · simp [Session.run, hread, herrors]
      rw [hkept]
      exact .refl _

theorem Session.Reachable.outermost {s : Session} (hs : s.Reachable) :
    Frames.globals < s.machine.heap.frames.size ∧
      s.machine.heap.frames.enclosing? Frames.globals = none := by
  induction hs with
  | start sink clock => exact ⟨Nat.zero_lt_one, rfl⟩
  | @run turns source s _ ih =>
    have hgrows := s.growsTo_run turns source
    exact ⟨Nat.lt_of_lt_of_le ih.1 hgrows.frames, (hgrows.enclosing _ ih.1).trans ih.2⟩
  | takeOutput _ ih => exact ih

theorem Outcome.mem_refusals_iff {outcome : Outcome} :
    mark ∈ outcome.refusals ↔ outcome = .stopped ⟨.stackOverflow, mark⟩ := by
  cases outcome with
  | stopped e =>
    obtain ⟨fault, mark'⟩ := e
    cases fault with
    | stackOverflow => simp [refusals, Stop.refusals, eq_comm]
    | _ => simp [refusals, Stop.refusals]
  | _ => simp [refusals]

/-- A run ends because of too many calls in progress exactly if a call was refused in it. -/
theorem Session.Reachable.run_eq_stackOverflow_iff (hs : s.Reachable) :
    (s.run turns source).1 = .stopped ⟨.stackOverflow, mark⟩ ↔
      ∃ moment : Moment, moment.OccursIn s turns source ∧ moment.refused? = some mark := by
  have hiff (w : WatchedSession) (hw : w.Reachable) :
      (w.session.run turns source).1 = .stopped ⟨.stackOverflow, mark⟩ ↔
        ∃ moment ∈ (w.run turns source).2.moments, moment.refused? = some mark := by
    rw [← (w.run_session turns source).1, ← Outcome.mem_refusals_iff, ← hw.refusals_run, refusals,
      List.mem_filterMap]
  constructor
  · intro hrun
    obtain ⟨w, hw, rfl⟩ := WatchedSession.exists_reachable hs
    obtain ⟨moment, hmem, hrefused⟩ := (hiff w hw).1 hrun
    exact ⟨moment, ⟨w, hw, rfl, hmem⟩, hrefused⟩
  · rintro ⟨moment, ⟨w, hw, rfl, hmem⟩, hrefused⟩
    exact (hiff w hw).2 ⟨moment, hmem, hrefused⟩

/-- From any state and however it ends, evaluation restores the frame in scope and the number of
calls. Between the runs of a session these are the frame of the globals and zero. In a run, the
number is that of the calls in progress, at most 3000; the run ends because of too many calls
exactly if, while that many are in progress, a function or a class with an initializer is called
with as many arguments as it takes, and then it is that call that ends with the error. -/
theorem evaluation_restores :
    (∀ turns level : Nat,
      (∀ e : Expr, (e.eval (callAt turns level) turns).Restores) ∧
      (∀ s : Stmt, (s.exec (callAt turns level) turns).Restores) ∧
      (∀ body : List Stmt, (inBlock (execStmts (callAt turns level) turns body)).Restores) ∧
      ∀ v vs line, (callAt turns level v vs line).Restores) ∧
    ∀ s : Session, s.Reachable →
      (s.machine.current = Frames.globals ∧ s.machine.depth = 0) ∧
      ∀ turns source,
        (∀ moment : Moment, moment.OccursIn s turns source →
          moment.machine.depth = moment.history.calls.length ∧
          moment.history.calls.length ≤ 3000) ∧
        (∀ mark, (s.run turns source).1 = .stopped ⟨.stackOverflow, mark⟩ ↔
          ∃ moment : Moment, moment.OccursIn s turns source ∧
            ∃ v vs line, moment.task = .call v vs line ∧ moment.history.calls.length = 3000 ∧
              moment.machine.heap.runsBody v vs.length = true ∧ mark = ⟨")", line⟩) ∧
        ∀ moment : Moment, moment.OccursIn s turns source → ∀ v vs line,
          moment.task = .call v vs line → moment.history.calls.length = 3000 →
          moment.machine.heap.runsBody v vs.length = true → ∀ level,
          ∃ m, callAt turns (level + 1) v vs line moment.machine =
            .error (.fault ⟨.stackOverflow, ⟨")", line⟩⟩) m := by
  refine ⟨fun turns level ↦ ?_, fun s hs ↦ ⟨hs.current_eq_globals, fun turns source ↦ ?_⟩⟩
  · have hcall := settles_callAt turns level
    exact ⟨fun e ↦ (e.settles_eval hcall).restores, fun s ↦ (s.settles_exec hcall).restores,
      fun body ↦ (settles_execStmts hcall body).inBlock.restores,
      fun v vs line ↦ (hcall v vs line).restores⟩
  · refine ⟨fun moment h ↦ ⟨h.isInOrder.inOrder.depth, h.isInOrder.inOrder.calls⟩, fun mark ↦ ?_,
      fun moment h v vs line htask hfull hruns level ↦ ?_⟩
    · rw [hs.run_eq_stackOverflow_iff]
      simp only [Moment.refused?_eq_some_iff]
    · exact h.isInOrder.callAt_of_refused? htask
        (Moment.refused?_eq_some_iff.2 ⟨v, vs, line, htask, hfull, hruns, rfl⟩) turns level

/-- A session ends endless recursion with the error. -/
theorem Session.Reachable.run_endlessRecursion (hs : s.Reachable) {f : Ident} {i id i' id' m : Nat}
    (hread : readSource s.nextId source = ⟨[], endlessRecursion f i id i' id', m⟩)
    (hresolve : (resolveProgram (endlessRecursion f i id i' id')).errors = [])
    (hdistances : ∀ use ∈ [id, id'],
      (s.machineFor (endlessRecursion f i id i' id')).distances.find? use = none) :
    (s.run turns source).1 = .stopped ⟨.stackOverflow, ⟨")", f.line⟩⟩ := by
  rw [List.forall_mem_cons, List.forall_mem_singleton] at hdistances
  obtain ⟨m', hm'⟩ := executeProgram_endlessRecursion (f := f)
    (m := s.machineFor (endlessRecursion f i id i' id')) hs.current_eq_globals.1
    hs.current_eq_globals.2 hs.outermost.1 hs.outermost.2 hdistances.1 hdistances.2 i i' turns
  rw [Session.run_eq hread hresolve, hm']
  rfl

/-- After a run that has failed, the globals are in scope and no call is in progress. A block in the
body of a function runs in one call. If a function calls itself without end, a call is refused when
3000 calls are in progress, and ends with the error. -/
theorem evaluation_restores_refused_call :
    let s := ((Session.start .unlimited (.running 0)).run 1 "nil();").2
    let block := "fun f() {{nil;}} f();"
    let recursion := "fun f() {f();} f();"
    ((Session.start .unlimited (.running 0)).run 1 "nil();").1 =
        .stopped ⟨.notCallable, ⟨")", 1⟩⟩ ∧
      (s.machine.current = Frames.globals ∧ s.machine.depth = 0) ∧
      (∃ moment : Moment, moment.OccursIn s 1 block ∧ moment.history.display.length = 2 ∧
        moment.history.calls.length = 1 ∧ moment.machine.depth = moment.history.calls.length ∧
        moment.history.calls.length ≤ 3000) ∧
      ∃ moment : Moment, moment.OccursIn s 1 recursion ∧
        ∃ v vs line, moment.task = .call v vs line ∧ moment.history.calls.length = 3000 ∧
          moment.machine.heap.runsBody v vs.length = true ∧
          ∀ level, ∃ m, callAt 1 (level + 1) v vs line moment.machine =
            .error (.fault ⟨.stackOverflow, ⟨")", line⟩⟩) m := by
  have hread : readSource 2 "fun f() {f();} f();" = ⟨[], endlessRecursion ⟨"f", 1⟩ 3 2 5 4, 6⟩ :=
    readSource_of_derives (by decide +kernel : scan _ = (_ ++ [⟨.endOfFile, 1⟩]).map .token)
      (derives_endlessRecursion ⟨"f", 1⟩ 2)
  intro s block recursion
  let w := ((WatchedSession.start .unlimited (.running 0)).run 1 "nil();").2
  have hs : s.Reachable := .run _ _ (.start _ _)
  have hw : w.Reachable ∧ w.session = s :=
    ⟨.run _ _ (.start _ _), (WatchedSession.run_session _ _ _).2⟩
  obtain ⟨hbetween, hduring⟩ := evaluation_restores.2 s hs
  -- A statement that begins in a block of a call.
  have hsome : ((w.run 1 block).2.moments.find? fun moment ↦
      moment.history.display.length == 2 && moment.history.calls.length == 1).isSome = true := by
    decide +kernel
  obtain ⟨moment, hmoment⟩ := Option.isSome_iff_exists.1 hsome
  have hoccurs : moment.OccursIn s 1 block := ⟨w, hw.1, hw.2, List.mem_of_find?_eq_some hmoment⟩
  have hinside := List.find?_some hmoment
  rw [Bool.and_eq_true, beq_iff_eq, beq_iff_eq] at hinside
  -- The run of the recursion ends with the error, so that there is a call that is refused.
  have hnext : s.nextId = 2 := by decide +kernel
  have hrecursion : (s.run 1 recursion).1 = .stopped ⟨.stackOverflow, ⟨")", 1⟩⟩ :=
    hs.run_endlessRecursion (hnext ▸ hread) (by decide +kernel) (by decide +kernel)
  obtain ⟨refused, hrefused, v, vs, line, htask, hfull, hruns, -⟩ :=
    ((hduring 1 recursion).2.1 _).1 hrecursion
  exact ⟨by decide +kernel, hbetween, ⟨moment, hoccurs, hinside.1, hinside.2,
    (hduring 1 block).1 moment hoccurs⟩, refused, hrefused, v, vs, line, htask, hfull, hruns,
    (hduring 1 recursion).2.2 refused hrefused v vs line htask hfull hruns⟩

end LexScript
