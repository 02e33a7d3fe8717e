import LexScript.Proofs.Sessions.Rejection
import LexScript.Proofs.Watching.Evolution
import LexScript.Proofs.Watching.Sessions

/-!
# The heaps of a session

A session goes through many heaps, run after run and, within a run, from moment to moment. Each of
them is well formed, and each comes from the ones before it by changes that programs make: what was
there is still there, and no link that follows a frame to the one around it or a class to its
superclass has been changed. So whatever follows these links comes to an end, at every moment.

## Main definitions

* `WatchedSession.GoesThrough` : the heaps of a session since its start.
* `Heap.SearchesEnd` : whatever follows the links of a heap comes to an end.

## Main statements

* `Moment.OccursIn.growsTo` : the heap at a moment grows into that at the end of the run.
* `heaps_wellFormed` : the heaps of a session are well formed and grow out of each other.
-/

namespace LexScript

open Run

/-- Whatever follows the links of a heap comes to an end: the search for a name, which ends with its
owner, the way outward from a frame, which ends at the globals, and the search for a method. -/
structure Heap.SearchesEnd (h : Heap) : Prop where
  names : ∀ f < h.frames.size, ∀ x, h.frames.Searches x f (h.frames.owner? f x)
  links : ∀ f < h.frames.size,
    ∃ d, h.frames.ancestor? f d = some Frames.globals ∧ h.frames.ancestor? f (d + 1) = none
  methods : ∀ c < h.classes.size, ∀ name, h.SearchesMethod name c (h.findMethod? c name)

theorem Heap.IsWellFormed.searchesEnd {h : Heap} (hw : h.IsWellFormed) : h.SearchesEnd :=
  ⟨fun _ hf x ↦ hw.searches hf x, fun _ hf ↦ hw.exists_ancestor?_eq_globals hf,
    fun _ hc name ↦ hw.searchesMethod hc name⟩

namespace WatchedSession

/-- The heaps of the latest run, latest first: at its end and at each of its moments. -/
def heaps (w : WatchedSession) : List Heap :=
  w.session.machine.heap :: w.moments.map fun moment ↦ moment.machine.heap

/-- The heaps that a session has gone through since its start, latest first. -/
inductive GoesThrough : WatchedSession → List Heap → Prop where
  | start (sink : Sink) (clock : Clock) : GoesThrough (.start sink clock) [.initial]
  | run (turns : Nat) (source : String) {w : WatchedSession} {earlier : List Heap}
      (h : GoesThrough w earlier) :
      GoesThrough (w.run turns source).2 ((w.run turns source).2.heaps ++ earlier)
  | takeOutput {w : WatchedSession} {earlier : List Heap} (h : GoesThrough w earlier) :
      GoesThrough w.takeOutput.2 earlier

variable {w : WatchedSession} {earlier : List Heap}

/-- Every session has gone through some heaps. -/
theorem exists_goesThrough {s : Session} (hs : s.Reachable) :
    ∃ w earlier, GoesThrough w earlier ∧ w.session = s := by
  induction hs with
  | start sink clock => exact ⟨_, _, .start sink clock, rfl⟩
  | run turns source _ ih =>
    obtain ⟨w, earlier, h, rfl⟩ := ih
    exact ⟨_, _, .run turns source h, (w.run_session turns source).2⟩
  | takeOutput _ ih =>
    obtain ⟨w, earlier, h, rfl⟩ := ih
    exact ⟨_, _, .takeOutput h, rfl⟩

end WatchedSession

/-! ### One run -/

/-- The watch at the end of an action has come from the one at its start. -/
theorem Watched.Passes.atEnd {α : Type} {p : Watched α} {w : Watch} {P : α → Heap → Prop}
    (h : Passes p w P) : w.PassesTo (Watch.atEnd (p w)) := by
  unfold Passes at h
  cases hp : p w with
  | ok a w' =>
    rw [hp] at h
    exact h.1
  | error e w' =>
    rw [hp] at h
    exact h

namespace WatchedSession

variable {w : WatchedSession} {earlier : List Heap}

/-- The heaps of a run come from the one before it and from each other, in order. -/
structure EvolvesTo (w w' : WatchedSession) : Prop where
  machine : w.session.machine.EvolvesTo w'.session.machine
  heaps : ∀ h ∈ w'.heaps, w.session.machine.heap.Evolves h
  order : w'.heaps.Pairwise fun later earlier ↦ earlier.Evolves later

theorem evolvesTo_execute (hw : w.session.machine.IsSound) (turns : Nat) (program : List Stmt)
    (nextId : Nat) : w.EvolvesTo (w.execute turns program nextId).2 := by
  have hpasses := (passes_watchProgram turns program (w := w.watchFor program)
    ⟨hw.heap, hw.current⟩).atEnd
  obtain ⟨hmachine, new, hnew, hbetween, horder⟩ := hpasses
  have hmoments : (w.execute turns program nextId).2.moments = new :=
    hnew.trans (by simp [watchFor])
  refine ⟨⟨hmachine.current, hmachine.heap⟩, ?_, ?_⟩
  · rw [heaps, hmoments]
    refine List.forall_mem_cons.2 ⟨hmachine.heap, List.forall_mem_map.2 fun moment hmem ↦ ?_⟩
    exact (hbetween moment hmem).1
  · rw [heaps, hmoments]
    refine List.pairwise_cons.2 ⟨List.forall_mem_map.2 fun moment hmem ↦ ?_,
      List.pairwise_map.2 horder⟩
    exact (hbetween moment hmem).2

theorem evolvesTo_run (hw : w.session.machine.IsSound) (turns : Nat) (source : String) :
    w.EvolvesTo (w.run turns source).2 := by
  unfold WatchedSession.run
  dsimp only
  split
  · exact evolvesTo_execute hw turns _ _
  · next hrejected =>
    obtain ⟨d, hd⟩ := Session.exists_machine_of_rejected hrejected turns
    refine ⟨?_, ?_, ?_⟩
    · rw [hd]
      exact ⟨rfl, .refl _⟩
    · refine List.forall_mem_singleton.2 ?_
      rw [hd]
      exact .refl _
    · exact List.pairwise_singleton _ _

/-! ### All runs -/

/-- The heaps that a session has gone through are well formed and come from each other, in order. -/
structure HasEvolved (w : WatchedSession) (earlier : List Heap) : Prop where
  machine : w.session.machine.IsSound
  heaps : ∀ h ∈ earlier, h.IsWellFormed ∧ h.Evolves w.session.machine.heap
  order : earlier.Pairwise fun later earlier ↦ earlier.Evolves later

theorem HasEvolved.run (h : w.HasEvolved earlier) (turns : Nat) (source : String) :
    (w.run turns source).2.HasEvolved ((w.run turns source).2.heaps ++ earlier) := by
  have hrun := evolvesTo_run h.machine turns source
  refine ⟨hrun.machine.isSound h.machine, List.forall_mem_append.2 ⟨fun heap hmem ↦ ?_,
    fun heap hmem ↦ ?_⟩, List.pairwise_append.2
    ⟨hrun.order, h.order, fun later hlater heap hmem ↦ ?_⟩⟩
  · refine ⟨(hrun.heaps heap hmem).isWellFormed h.machine.heap, ?_⟩
    have horder := hrun.order
    rw [WatchedSession.heaps, List.pairwise_cons] at horder
    rcases List.mem_cons.1 hmem with rfl | hmem
    · exact .refl _
    · exact horder.1 heap hmem
  · exact ⟨(h.heaps heap hmem).1, (h.heaps heap hmem).2.trans hrun.machine.heap⟩
  · exact (h.heaps heap hmem).2.trans (hrun.heaps later hlater)

theorem GoesThrough.hasEvolved (h : GoesThrough w earlier) : w.HasEvolved earlier := by
  induction h with
  | start sink clock =>
    refine ⟨⟨Heap.isWellFormed_initial, Nat.zero_lt_one⟩, List.forall_mem_singleton.2 ?_,
      List.pairwise_singleton _ _⟩
    exact ⟨Heap.isWellFormed_initial, .refl _⟩
  | run turns source _ ih => exact ih.run turns source
  | takeOutput _ ih => exact ⟨⟨ih.machine.heap, ih.machine.current⟩, ih.heaps, ih.order⟩

/-- The heap of a session is one of those that it has gone through. -/
theorem GoesThrough.mem (h : GoesThrough w earlier) : w.session.machine.heap ∈ earlier := by
  induction h with
  | start sink clock => exact List.mem_singleton_self _
  | run turns source _ _ => exact List.mem_append_left _ (List.mem_cons_self ..)
  | takeOutput _ ih => exact ih

end WatchedSession

/-! ### Moments -/

section

variable {moment : Moment} {s : Session} {turns : Nat} {source : String}

theorem Moment.OccursIn.reachable (h : moment.OccursIn s turns source) : s.Reachable := by
  obtain ⟨w, hw, rfl, -⟩ := h
  exact hw.session

/-- The heap at a moment of a run grows into the one at its end. -/
theorem Moment.OccursIn.growsTo (h : moment.OccursIn s turns source) :
    moment.machine.heap.GrowsTo (s.run turns source).2.machine.heap := by
  obtain ⟨w, hw, rfl, hmoment⟩ := h
  obtain ⟨w', earlier, hthrough, hsame⟩ := WatchedSession.exists_goesThrough hw.session
  have hsound : w.session.machine.IsSound := hsame ▸ hthrough.hasEvolved.machine
  have horder := (WatchedSession.evolvesTo_run hsound turns source).order
  rw [WatchedSession.heaps, List.pairwise_cons, (w.run_session turns source).2] at horder
  exact (horder.1 _ (List.mem_map_of_mem hmoment)).growsTo

end

/-- The heaps that a session goes through, between its runs and at each moment of them, are well
formed. In each of them the search for a name, the way outward and the search for a method come to
an end. Each of them comes from the ones before it by single changes, which keep the links and all
that was there. -/
theorem heaps_wellFormed {s : Session} (hs : s.Reachable) :
    (∃ w heaps, WatchedSession.GoesThrough w heaps ∧ w.session = s) ∧
      ∀ w heaps, WatchedSession.GoesThrough w heaps → w.session = s →
        s.machine.heap ∈ heaps ∧
        (∀ h ∈ heaps, h.IsWellFormed ∧ h.SearchesEnd) ∧
        heaps.Pairwise fun later earlier ↦ earlier.Evolves later ∧ earlier.GrowsTo later := by
  refine ⟨WatchedSession.exists_goesThrough hs, fun w heaps h hsession ↦ ?_⟩
  subst hsession
  have hevolved := h.hasEvolved
  refine ⟨h.mem, fun heap hmem ↦ ?_, hevolved.order.imp fun hto ↦ ⟨hto, hto.growsTo⟩⟩
  have hw := (hevolved.heaps heap hmem).1
  exact ⟨hw, hw.searchesEnd⟩

/-- A session in which a class with a superclass is declared has such heaps. -/
theorem heaps_wellFormed_subclass :
    let source := "class A {} class B < A {} var b = B();"
    let s := ((Session.start .unlimited (.running 0)).run 1 source).2
    (∃ w heaps, WatchedSession.GoesThrough w heaps ∧ w.session = s) ∧
      ∀ w heaps, WatchedSession.GoesThrough w heaps → w.session = s →
        s.machine.heap ∈ heaps ∧
        (∀ h ∈ heaps, h.IsWellFormed ∧ h.SearchesEnd) ∧
        heaps.Pairwise fun later earlier ↦ earlier.Evolves later ∧ earlier.GrowsTo later :=
  heaps_wellFormed (.run 1 _ (.start _ _))

end LexScript
