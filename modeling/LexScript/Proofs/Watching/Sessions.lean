import LexScript.Proofs.Scope.Sources
import LexScript.Proofs.Sessions.Reachable
import LexScript.Proofs.Watching.Erasure
import LexScript.Proofs.Watching.Soundness

/-!
# Watched sessions

A session is watched from its start. What a run does to it, and how the run ends, is the same as
without watching, so every reachable session is one that can be watched. At each moment of each run
the machine is as the history tells; between runs the globals alone are in scope and no call is in
progress.

## Main definitions

* `WatchedSession`, `WatchedSession.run` : sessions with the history of all runs.
* `WatchedSession.Reachable` : the watched sessions that there can be.

## Main statements

* `WatchedSession.run_session` : watching does not change a session.
* `WatchedSession.Reachable.isInOrder` : reachable watched sessions are in order.
* `WatchedSession.Reachable.refusals_run` : the calls that are refused in a run.
-/

namespace LexScript

open Run

/-- The marks of the refused calls that an outcome is due to. -/
def Outcome.refusals : Outcome → List Mark
  | .stopped e => (Stop.fault e).refusals
  | .finished | .rejected _ | .exhausted => []

theorem machineOf_forget {α : Type} (r : EStateM.Result Stop Watch α) :
    machineOf (Watch.forget r) = (Watch.atEnd r).machine := by
  cases r <;> rfl

/-- At its end, an action that keeps order has kept it and has accounted for its refused calls. -/
theorem Watched.Ends.atEnd {α : Type} {p : Watched α} {w : Watch} {P : α → Watch → Prop}
    (h : Ends p w P) :
    w.LeadsTo (outcomeOf (Watch.forget (p w))).refusals (Watch.atEnd (p w)) := by
  unfold Ends at h
  cases hp : p w with
  | ok a w' =>
    rw [hp] at h
    exact h.1
  | error e w' =>
    rw [hp] at h
    cases e <;> exact h

/-- A session with what has happened in it. -/
structure WatchedSession where
  session : Session
  history : History
  /-- The moments of the latest run, latest first. -/
  moments : List Moment

namespace WatchedSession

/-- A session that has run nothing. -/
def start (sink : Sink) (clock : Clock) : WatchedSession := ⟨.start sink clock, .start, []⟩

/-- The watch of a session when the execution of a program begins. -/
def watchFor (w : WatchedSession) (program : List Stmt) : Watch where
  machine := w.session.machineFor program
  history := { w.history with lookups := w.history.lookups ++ lookupsOfProgram program }
  moments := []

/-- Executes a program, with at most `turns` turns for each loop. -/
def execute (turns : Nat) (program : List Stmt) (nextId : Nat) (w : WatchedSession) :
    Outcome × WatchedSession :=
  let result := watchProgram turns program (w.watchFor program)
  let last := Watch.atEnd result
  (outcomeOf (Watch.forget result), ⟨⟨last.machine, nextId⟩, last.history, last.moments⟩)

/-- Runs a source. In a source that is rejected there is nothing to watch. -/
def run (turns : Nat) (source : String) (w : WatchedSession) : Outcome × WatchedSession :=
  let reading := readSource w.session.nextId source
  if reading.errors = [] ∧ (resolveProgram reading.program).errors = [] then
    w.execute turns reading.program reading.nextId
  else
    let (outcome, session) := w.session.run turns source
    (outcome, ⟨session, w.history, []⟩)

/-- Takes away what the session has written. -/
def takeOutput (w : WatchedSession) : String × WatchedSession :=
  let (text, session) := w.session.takeOutput
  (text, { w with session := session })

/-- The watched sessions that there can be. -/
inductive Reachable : WatchedSession → Prop where
  | start (sink : Sink) (clock : Clock) : Reachable (.start sink clock)
  | run (turns : Nat) (source : String) {w : WatchedSession} (h : Reachable w) :
      Reachable (w.run turns source).2
  | takeOutput {w : WatchedSession} (h : Reachable w) : Reachable w.takeOutput.2

/-! ### Watching changes nothing -/

variable {w : WatchedSession} {turns : Nat} {source : String}

theorem execute_session (w : WatchedSession) (turns : Nat) (program : List Stmt) (nextId : Nat) :
    (w.execute turns program nextId).1 =
        outcomeOf (executeProgram turns program (w.session.machineFor program)) ∧
      (w.execute turns program nextId).2.session =
        ⟨machineOf (executeProgram turns program (w.session.machineFor program)), nextId⟩ := by
  have herases := erases_watchProgram turns program (w.watchFor program)
  change _ = executeProgram turns program (w.session.machineFor program) at herases
  rw [← herases, machineOf_forget]
  exact ⟨rfl, rfl⟩

/-- The run of a source that is accepted executes its program. -/
theorem run_eq {program : List Stmt} {m : Nat}
    (hread : readSource w.session.nextId source = ⟨[], program, m⟩)
    (hresolve : (resolveProgram program).errors = []) :
    w.run turns source = w.execute turns program m := by
  rw [run]
  dsimp only
  rw [hread, if_pos ⟨rfl, hresolve⟩]

/-- Watching does not change how a run ends, nor what it does to the session. -/
theorem run_session (w : WatchedSession) (turns : Nat) (source : String) :
    (w.run turns source).1 = (w.session.run turns source).1 ∧
      (w.run turns source).2.session = (w.session.run turns source).2 := by
  unfold run
  dsimp only
  split
  · next h =>
    cases hread : readSource w.session.nextId source with
    | mk errors program m =>
      rw [hread] at h
      obtain ⟨rfl, hresolve⟩ := h
      rw [Session.run_eq hread hresolve]
      exact w.execute_session turns program m
  · exact ⟨rfl, rfl⟩

theorem Reachable.session (h : w.Reachable) : w.session.Reachable := by
  induction h with
  | start sink clock => exact .start sink clock
  | @run turns source w _ ih =>
    rw [(run_session w turns source).2]
    exact .run turns source ih
  | takeOutput _ ih => exact .takeOutput ih

/-- Every reachable session can have been watched. -/
theorem exists_reachable {s : Session} (hs : s.Reachable) :
    ∃ w : WatchedSession, w.Reachable ∧ w.session = s := by
  induction hs with
  | start sink clock => exact ⟨_, .start sink clock, rfl⟩
  | run turns source _ ih =>
    obtain ⟨w, hw, rfl⟩ := ih
    exact ⟨_, .run turns source hw, (run_session w turns source).2⟩
  | takeOutput _ ih =>
    obtain ⟨w, hw, rfl⟩ := ih
    exact ⟨_, .takeOutput hw, rfl⟩

/-! ### The lookups of a program that is read -/

/-- Recording the lookups of a program records the distance of each of them. -/
theorem find?_recordAll_lookups {ls : List Lookup} (hnodup : (ls.map Lookup.id).Nodup)
    {d : Distances} (hnew : ∀ l ∈ ls, d.find? l.id = none) {l : Lookup} (hl : l ∈ ls) :
    (d.recordAll (ls.map Lookup.use)).find? l.id = l.distance? := by
  induction ls generalizing d with
  | nil => cases hl
  | cons first ls ih =>
    rw [List.map_cons, List.nodup_cons] at hnodup
    rw [List.forall_mem_cons] at hnew
    rw [List.map_cons, Distances.recordAll_cons]
    have hne {l : Lookup} (hmem : l ∈ ls) : l.id ≠ first.id := fun heq ↦
      hnodup.1 (List.mem_map.2 ⟨l, hmem, heq⟩)
    have hdistance : first.use.distance = first.distance? := rfl
    rw [hdistance]
    rcases List.mem_cons.1 hl with rfl | hmem
    · rw [Distances.find?_recordAll]
      · cases l.distance? with
        | none => exact hnew.1
        | some distance => exact (Distances.find?_record _ _ _ _).trans (if_pos rfl)
      · intro use huse
        obtain ⟨l', hl', rfl⟩ := List.mem_map.1 huse
        exact hne hl'
    · refine ih hnodup.2 (fun l' hl' ↦ ?_) hmem
      cases first.distance? with
      | none => exact hnew.2 l' hl'
      | some distance =>
        exact (Distances.find?_record _ _ _ _).trans <|
          (if_neg (hne hl')).trans (hnew.2 l' hl')

/-! ### Watched sessions in order -/

/-- A watched session is as its history tells, the globals alone are in scope, no call is in
progress, and each moment of the latest run was in order. -/
structure IsInOrder (w : WatchedSession) : Prop where
  inOrder : InOrder w.session.machine w.history
  display : w.history.display = []
  calls : w.history.calls = []
  lookups : ∀ l ∈ w.history.lookups, l.id < w.session.nextId
  moments : ∀ moment ∈ w.moments, moment.IsInOrder

theorem isInOrder_start (sink : Sink) (clock : Clock) : (start sink clock).IsInOrder := by
  have hglobals (f : Nat) (x : Name) : (Frames.initial : Frames Value).find? f x = none := by
    cases f <;> rfl
  have hlayered : Heap.initial.IsLayered := by
    refine ⟨fun c record s hc ↦ ?_, fun f x v hfind ↦ ?_, fun i name v hfield ↦ ?_⟩
    · exact absurd hc (by simp [Heap.initial])
    · rw [Heap.initial, Frames.find?_define, hglobals] at hfind
      split at hfind
      · cases hfind
        trivial
      · cases hfind
    · exact absurd hfield (by simp [Heap.initial, Heap.field?])
  have htells : History.start.Tells Heap.initial :=
    { globals := Nat.zero_lt_one
      layered := hlayered
      size_functions := rfl
      functions := fun _ _ _ hc ↦ absurd hc (by simp [Heap.initial])
      size_classes := rfl
      classes := fun _ _ _ hc ↦ absurd hc (by simp [Heap.initial]) }
  refine ⟨⟨htells, trivial, (fun _ h ↦ by cases h), rfl, rfl, Nat.zero_le _, ?_⟩, rfl, rfl, ?_, ?_⟩
  all_goals exact List.forall_mem_nil _

theorem IsInOrder.takeOutput (hw : w.IsInOrder) : w.takeOutput.2.IsInOrder :=
  { hw with inOrder := { hw.inOrder with } }

/-- An accepted program begins in order: of each of its lookups, the distance is recorded. -/
theorem IsInOrder.watchFor (hw : w.IsInOrder) (htidy : w.session.IsTidy) {program : List Stmt}
    {m : Nat} (hplain : ArePlain program)
    (hfresh : AreFresh w.session.nextId m (lookupsOfProgram program))
    (hresolve : (resolveProgram program).errors = []) :
    InOrder (w.watchFor program).machine (w.watchFor program).history := by
  obtain ⟨huses, hreceiver⟩ := uses_resolveProgram hplain hresolve
  have hp : Precedes w.session.machine.heap w.history w.session.machine.heap
      (w.watchFor program).history :=
    ⟨.refl _, fun _ _ ↦ id, fun _ _ ↦ .inl, fun l hl ↦ List.mem_append_left _ hl⟩
  refine
    { hw.inOrder with
      tells := hw.inOrder.tells.keep hp hw.inOrder.tells.layered rfl rfl rfl rfl
      isOpen := hw.inOrder.isOpen.mono hp
      lookups := List.forall_mem_append.2 ⟨fun l hl ↦ ?_, fun l hl ↦ ?_⟩ }
  · have hdistance : (w.watchFor program).machine.distances.find? l.id =
        w.session.machine.distances.find? l.id := by
      refine Distances.find?_recordAll (fun use huse ↦ ?_) _
      rw [huses] at huse
      obtain ⟨l', hl', rfl⟩ := List.mem_map.1 huse
      exact Nat.ne_of_gt (Nat.lt_of_lt_of_le (hw.lookups l hl) (hfresh.within l' hl').1)
    rw [hdistance]
    exact hw.inOrder.lookups l hl
  · refine ⟨?_, hreceiver l hl⟩
    have hnew (l' : Lookup) (hl' : l' ∈ lookupsOfProgram program) :
        w.session.machine.distances.find? l'.id = none :=
      htidy.distances _ (hfresh.within l' hl').1
    change (w.session.machine.distances.recordAll (resolveProgram program).uses).find? l.id = _
    rw [huses]
    exact find?_recordAll_lookups hfresh.nodup hnew hl

/-- Recorded distances for ids that are new make no difference to what is in order. -/
theorem IsInOrder.recordUses (hw : w.IsInOrder) {uses : List NameUse} {m : Nat}
    (huses : ∀ use ∈ uses, w.session.nextId ≤ use.id) (hm : w.session.nextId ≤ m)
    (moments : List Moment) (hmoments : ∀ moment ∈ moments, moment.IsInOrder) :
    (⟨{ w.session.recordUses uses with nextId := m }, w.history, moments⟩ :
      WatchedSession).IsInOrder where
  inOrder :=
    { hw.inOrder with
      lookups := fun l hl ↦ by
        have hdistance : (w.session.machine.distances.recordAll uses).find? l.id =
            w.session.machine.distances.find? l.id :=
          Distances.find?_recordAll (fun use huse ↦
            Nat.ne_of_gt (Nat.lt_of_lt_of_le (hw.lookups l hl) (huses use huse))) _
        exact ⟨hdistance.trans (hw.inOrder.lookups l hl).1, (hw.inOrder.lookups l hl).2⟩ }
  display := hw.display
  calls := hw.calls
  lookups l hl := Nat.lt_of_lt_of_le (hw.lookups l hl) hm
  moments := hmoments

/-- What a program is that is read without errors, at the top level. -/
theorem plain_fresh_of_readSource {firstId m : Nat} {program : List Stmt}
    (hread : readSource firstId source = ⟨[], program, m⟩) :
    ArePlain program ∧ AreFresh firstId m (lookupsOfProgram program) := by
  have hderives := @derives_of_readSource firstId source
  rw [hread] at hderives
  have hplain := (hderives rfl).isPlain
  have hfresh := (hderives rfl).areFresh []
  exact ⟨hplain, hfresh⟩

/-- Executing an accepted program leads to a watch in order. -/
theorem IsInOrder.leadsTo (hw : w.IsInOrder) (htidy : w.session.IsTidy) {program : List Stmt}
    {m : Nat} (hread : readSource w.session.nextId source = ⟨[], program, m⟩)
    (hresolve : (resolveProgram program).errors = []) (turns : Nat) :
    (w.watchFor program).LeadsTo (w.execute turns program m).1.refusals
      (Watch.atEnd (watchProgram turns program (w.watchFor program))) := by
  obtain ⟨hplain, hfresh⟩ := plain_fresh_of_readSource hread
  have hlies : StmtsLieIn (w.watchFor program).history program := by
    refine ⟨hplain, fun l hl ↦ List.mem_append_right _ ?_⟩
    rwa [History.scopes, WatchedSession.watchFor, hw.display] at hl
  exact (ends_watchProgram turns program (hw.watchFor htidy hplain hfresh hresolve) hw.display
    hlies).atEnd

/-- Executing an accepted program keeps a session in order. -/
theorem IsInOrder.execute (hw : w.IsInOrder) (htidy : w.session.IsTidy) {program : List Stmt}
    {m : Nat} (hread : readSource w.session.nextId source = ⟨[], program, m⟩)
    (hresolve : (resolveProgram program).errors = []) :
    (w.execute turns program m).2.IsInOrder ∧
      refusals (w.execute turns program m).2.moments =
        (w.execute turns program m).1.refusals := by
  obtain ⟨-, hfresh⟩ := plain_fresh_of_readSource hread
  have hl := hw.leadsTo htidy hread hresolve turns
  refine ⟨⟨hl.inOrder, hl.resumes.display_eq_nil hw.display, hl.resumes.calls.trans hw.calls, ?_,
    hl.moments (List.forall_mem_nil _)⟩, hl.refusals.trans (List.append_nil _)⟩
  change ∀ l ∈ (Watch.atEnd (watchProgram turns program (w.watchFor program))).history.lookups,
    l.id < m
  rw [hl.resumes.lookups]
  have hm : w.session.nextId ≤ m := by
    have hle : w.session.nextId ≤ (readSource w.session.nextId source).nextId :=
      firstId_le_nextId _ _
    rwa [hread] at hle
  exact List.forall_mem_append.2 ⟨fun l hl ↦ Nat.lt_of_lt_of_le (hw.lookups l hl) hm,
    fun l hl ↦ (hfresh.within l hl).2⟩

/-- A session that rejects a source goes on in order. -/
theorem IsInOrder.reject (hw : w.IsInOrder)
    (hrejected : ¬((readSource w.session.nextId source).errors = [] ∧
      (resolveProgram (readSource w.session.nextId source).program).errors = [])) :
    (⟨(w.session.run turns source).2, w.history, []⟩ : WatchedSession).IsInOrder ∧
      (w.session.run turns source).1.refusals = [] := by
  have hm : w.session.nextId ≤ (readSource w.session.nextId source).nextId :=
    firstId_le_nextId _ _
  have hderives := @derives_of_readSource w.session.nextId source
  cases hread : readSource w.session.nextId source with
  | mk errors program m =>
    rw [hread] at hm hrejected hderives
    dsimp only at hrejected
    by_cases herrors : errors = []
    · subst herrors
      have hresolve : (resolveProgram program).errors ≠ [] := fun h ↦ hrejected ⟨rfl, h⟩
      have hrun : w.session.run turns source =
          (.rejected ((resolveProgram program).errors.map .resolve),
            { w.session.recordUses (resolveProgram program).uses with nextId := m }) := by
        simp [Session.run, Session.recordUses, hread, hresolve]
      rw [hrun]
      refine ⟨hw.recordUses (fun use huse ↦ ?_) hm [] (List.forall_mem_nil _), rfl⟩
      exact (ids_of_uses (hderives rfl) huse).1
    · have hrun : w.session.run turns source =
          (.rejected errors, { w.session with nextId := m }) := by
        simp [Session.run, hread, herrors]
      rw [hrun]
      exact ⟨hw.recordUses (List.forall_mem_nil _) hm [] (List.forall_mem_nil _), rfl⟩

theorem IsInOrder.run (hw : w.IsInOrder) (htidy : w.session.IsTidy) (turns : Nat)
    (source : String) :
    (w.run turns source).2.IsInOrder ∧
      refusals (w.run turns source).2.moments = (w.run turns source).1.refusals := by
  unfold WatchedSession.run
  dsimp only
  split
  · next h =>
    cases hread : readSource w.session.nextId source with
    | mk errors program m =>
      rw [hread] at h
      obtain ⟨rfl, hresolve⟩ := h
      exact hw.execute htidy hread hresolve
  · next h =>
    obtain ⟨hw', houtcome⟩ := hw.reject h
    exact ⟨hw', houtcome.symm⟩

/-- Reachable watched sessions are in order. -/
theorem Reachable.isInOrder (h : w.Reachable) : w.IsInOrder := by
  induction h with
  | start sink clock => exact isInOrder_start sink clock
  | run turns source h ih => exact (ih.run h.session.isTidy turns source).1
  | takeOutput _ ih => exact ih.takeOutput

/-- The calls that are refused in a run are those that its outcome is due to. -/
theorem Reachable.refusals_run (h : w.Reachable) (turns : Nat) (source : String) :
    refusals (w.run turns source).2.moments = (w.run turns source).1.refusals :=
  (h.isInOrder.run h.session.isTidy turns source).2

end WatchedSession

/-! ### Moments of a run -/

/-- A moment occurs when a session, however it has come about, runs a source. -/
def Moment.OccursIn (moment : Moment) (s : Session) (turns : Nat) (source : String) : Prop :=
  ∃ w : WatchedSession, w.Reachable ∧ w.session = s ∧ moment ∈ (w.run turns source).2.moments

variable {moment : Moment} {s : Session} {turns : Nat} {source : String}

/-- At each moment that occurs, the machine is as the history tells. -/
theorem Moment.OccursIn.isInOrder (h : moment.OccursIn s turns source) : moment.IsInOrder := by
  obtain ⟨w, hw, -, hmoment⟩ := h
  exact (WatchedSession.Reachable.run turns source hw).isInOrder.moments moment hmoment

end LexScript
