import LexScript.Proofs.Relabelling.Runs

/-!
# Reachable sessions

A session is only ever given sources, one after the other, and its output is taken away. Ids and
lines that the sources did not have occur nowhere in it: no distance is recorded for such an id,
and replacing such ids and lines changes nothing in the heap.

That a run keeps to its ids and lines needs no further look at evaluation. It does on a
relabelled machine what it does on the machine itself; if the relabelling does not change the
machine at the start, then it does not change the one at the end either.

## Main definitions

* `Session.Reachable` : the sessions that a program using sessions can meet.
* `Heap.IsBelow` : ids and lines from some on do not occur in a heap.

## Main statements

* `Session.Reachable.isTidy` : reachable sessions have none of the ids that are to come.
-/

namespace LexScript

/-! ### Recorded distances -/

namespace Distances

/-- A recorded distance is seen at its id and nowhere else. -/
theorem find?_record (d : Distances) (i distance j : Nat) :
    (d.record i distance).find? j = if j = i then some distance else d.find? j := by
  have hsize : i < (d.entries ++ Array.replicate (i + 1 - d.entries.size) none).size := by
    simp only [Array.size_append, Array.size_replicate]
    omega
  rw [find?, record, Array.getElem?_setIfInBounds]
  by_cases hj : j = i
  · rw [if_pos hj.symm, if_pos hsize, if_pos hj, Option.bind_some]
  · rw [if_neg (Ne.symm hj), if_neg hj, find?, Array.getElem?_append]
    split
    · rfl
    · rename_i hlt
      rw [Array.getElem?_replicate, Array.getElem?_eq_none (Nat.le_of_not_lt hlt)]
      split <;> rfl

theorem recordAll_cons (d : Distances) (use : NameUse) (uses : List NameUse) :
    d.recordAll (use :: uses) =
      (match use.distance with
        | some distance => d.record use.id distance
        | none => d).recordAll uses := rfl

theorem find?_recordAll {uses : List NameUse} {j : Nat} (h : ∀ use ∈ uses, use.id ≠ j)
    (d : Distances) : (d.recordAll uses).find? j = d.find? j := by
  induction uses generalizing d with
  | nil => rfl
  | cons use uses ih =>
    rw [List.forall_mem_cons] at h
    rw [recordAll_cons, ih h.2]
    split
    · rw [find?_record, if_neg (Ne.symm h.1)]
    · rfl

theorem recordAll_append (d : Distances) (uses later : List NameUse) :
    d.recordAll (uses ++ later) = (d.recordAll uses).recordAll later := List.foldl_append ..

/-- What is recorded for uses does not depend on what was recorded before. -/
theorem find?_recordAll_or (d : Distances) (uses : List NameUse) (j : Nat) :
    (d.recordAll uses).find? j = ((empty.recordAll uses).find? j).or (d.find? j) := by
  induction uses generalizing d with
  | nil => rfl
  | cons use uses ih =>
    rw [recordAll_cons, recordAll_cons, ih]
    cases use.distance with
    | none => rfl
    | some distance =>
      have hfirst : (d.record use.id distance).find? j =
          ((empty.record use.id distance).find? j).or (d.find? j) := by
        rw [find?_record, find?_record]
        by_cases hj : j = use.id
        · rw [if_pos hj, if_pos hj, Option.some_or]
        · rw [if_neg hj, if_neg hj]
          rfl
      rw [hfirst, ← Option.or_assoc, ← ih]

end Distances

/-! ### Ids and lines that do not occur -/

/-- A relabelling keeps the ids and lines below some numbers, and the ids from there on stay
there. -/
structure Relabelling.Keeps (ρ : Relabelling) (nextId bound : Nat) : Prop where
  ids : ∀ i, i < nextId → ρ.ids i = i
  later : ∀ i, nextId ≤ i → nextId ≤ ρ.ids i
  lines : ∀ line, line < bound → ρ.lines line = line

theorem Relabelling.Keeps.mono {ρ : Relabelling} {n n' b b' : Nat} (h : ρ.Keeps n' b')
    (hn : n ≤ n') (hb : b ≤ b') : ρ.Keeps n b where
  ids i hi := h.ids i (by omega)
  later i hi := by
    rcases Nat.lt_or_ge i n' with hi' | hi'
    · rwa [h.ids i hi']
    · exact Nat.le_trans hn (h.later i hi')
  lines line hline := h.lines line (by omega)

/-- Ids and lines from some on do not occur in a heap: replacing them changes nothing. -/
def Heap.IsBelow (h : Heap) (nextId bound : Nat) : Prop :=
  ∀ ρ : Relabelling, ρ.Keeps nextId bound → h.relabel ρ = h

/-- Distances are recorded for ids below some number only. -/
def Distances.IsBelow (d : Distances) (nextId : Nat) : Prop :=
  ∀ i, nextId ≤ i → d.find? i = none

theorem Distances.IsBelow.agreeOn {d : Distances} {ρ : Relabelling} {nextId bound : Nat}
    (h : d.IsBelow nextId) (hρ : ρ.Keeps nextId bound) : d.AgreeOn ρ d := by
  intro i
  rcases Nat.lt_or_ge i nextId with hi | hi
  · rw [hρ.ids i hi]
  · rw [h i hi, h _ (hρ.later i hi)]

/-! ### Ids and lines behind a run -/

open Run

theorem distances_executeProgram (turns : Nat) (program : List Stmt) (m : Machine) :
    (machineOf (executeProgram turns program m)).distances = m.distances :=
  (follows_executeProgram (ρ := ⟨id, id⟩) turns program m fun _ ↦ rfl).2

/-- Ids and lines that occur neither in a program nor on its machine do not occur behind it. -/
theorem heap_isBelow_executeProgram {nextId bound : Nat} {program : List Stmt} {m : Machine}
    (hprogram : ∀ ρ : Relabelling, ρ.Keeps nextId bound → relabelProgram ρ program = program)
    (hheap : m.heap.IsBelow nextId bound) (hdist : m.distances.IsBelow nextId) (turns : Nat) :
    (machineOf (executeProgram turns program m)).heap.IsBelow nextId bound := by
  intro ρ hρ
  have hm : m.relabel ρ m.distances = m := by rw [Machine.relabel, hheap ρ hρ]
  have hend := (follows_executeProgram turns program m (hdist.agreeOn hρ)).1
  rw [hm, hprogram ρ hρ] at hend
  cases h : executeProgram turns program m with
  | ok a m' =>
    rw [h, relabelEnd, EStateM.Result.ok.injEq] at hend
    exact (congrArg Machine.heap hend.2).symm
  | error e m' =>
    rw [h, relabelEnd, EStateM.Result.error.injEq] at hend
    exact (congrArg Machine.heap hend.2).symm

/-! ### Ids and lines of sources -/

open Grammar

theorem exists_line_bound (ts : List Token) : ∃ bound, ∀ t ∈ ts, t.line < bound := by
  induction ts with
  | nil => exact ⟨0, by simp⟩
  | cons t ts ih =>
    obtain ⟨bound, h⟩ := ih
    refine ⟨max (t.line + 1) bound, List.forall_mem_cons.2 ⟨by omega, fun u hu ↦ ?_⟩⟩
    have := h u hu
    omega

/-- The lines of a program that is derived are those of its tokens, and its ids are those that
its derivation gives out. -/
theorem exists_bound_of_derives {ts : List Token} {n m : Nat} {program : List Stmt}
    (h : Derives .nearest .declarations ts n (.stmts program) m) :
    ∃ bound, ∀ ρ : Relabelling, ρ.Keeps m bound → relabelProgram ρ program = program := by
  obtain ⟨bound, hbound⟩ := exists_line_bound ts
  exact ⟨bound, fun ρ hρ ↦ relabelProgram_eq_self h (fun i _ hi ↦ hρ.ids i hi)
    fun t ht ↦ hρ.lines _ (hbound t ht)⟩

/-- The uses of names in a program have ids that its derivation gives out. -/
theorem ids_of_uses {ts : List Token} {n m : Nat} {program : List Stmt}
    (h : Derives .nearest .declarations ts n (.stmts program) m) {use : NameUse}
    (huse : use ∈ (resolveProgram program).uses) : n ≤ use.id ∧ use.id < m := by
  -- Ids that are not given out are replaced, which the program does not notice.
  let ρ : Relabelling := ⟨fun i ↦ if n ≤ i ∧ i < m then i else i + 1, id⟩
  have hprogram : relabelProgram ρ program = program :=
    relabelProgram_eq_self h (fun i hi hi' ↦ if_pos ⟨hi, hi'⟩) fun _ _ ↦ rfl
  have hid := ids_eq_self_of_use hprogram huse
  refine Decidable.byContradiction fun hout ↦ ?_
  have hnext : ρ.ids use.id = use.id + 1 := if_neg hout
  omega

/-! ### Runs of sessions -/

/-- The sessions that a program using sessions can meet. -/
inductive Session.Reachable : Session → Prop where
  | start (sink : Sink) (clock : Clock) : Reachable (.start sink clock)
  | run (turns : Nat) (source : String) {s : Session} (h : Reachable s) :
      Reachable (s.run turns source).2
  | takeOutput {s : Session} (h : Reachable s) : Reachable s.takeOutput.2

/-- No id that is to come occurs in a session, nor does any line from some on. -/
structure Session.IsTidy (s : Session) : Prop where
  distances : s.machine.distances.IsBelow s.nextId
  heap : ∃ bound, s.machine.heap.IsBelow s.nextId bound

theorem Heap.IsBelow.mono {h : Heap} {n n' b b' : Nat} (hh : h.IsBelow n b) (hn : n ≤ n')
    (hb : b ≤ b') : h.IsBelow n' b' := fun ρ hρ ↦ hh ρ (hρ.mono hn hb)

theorem Distances.IsBelow.mono {d : Distances} {n n' : Nat} (h : d.IsBelow n) (hn : n ≤ n') :
    d.IsBelow n' := fun i hi ↦ h i (Nat.le_trans hn hi)

theorem Distances.IsBelow.recordAll {d : Distances} {n : Nat} (h : d.IsBelow n)
    {uses : List NameUse} (huses : ∀ use ∈ uses, use.id < n) : (d.recordAll uses).IsBelow n := by
  intro i hi
  rw [Distances.find?_recordAll fun use huse ↦ ?_, h i hi]
  have := huses use huse
  omega

/-- How a session comes out of a run. -/
def Run.outcomeOf {α : Type} : EStateM.Result Stop Machine α → Outcome
  | .ok _ _ => .finished
  | .error e _ => .ofResult (.error e : Except Stop α)

/-- The machine of a session with the distances that a program needs. -/
def Session.machineFor (s : Session) (program : List Stmt) : Machine :=
  { s.machine with
    distances := s.machine.distances.recordAll (resolveProgram program).uses }

/-- Running a source without static errors executes its program. -/
theorem Session.run_eq {s : Session} {source : String} {program : List Stmt} {m : Nat}
    (h : readSource s.nextId source = ⟨[], program, m⟩)
    (hresolve : (resolveProgram program).errors = []) (turns : Nat) :
    s.run turns source =
      (Run.outcomeOf (executeProgram turns program (s.machineFor program)),
        ⟨Run.machineOf (executeProgram turns program (s.machineFor program)), m⟩) := by
  let ended := (⟨s.machineFor program, m⟩ : Session).perform (executeProgram turns program)
  have hrun : s.run turns source = (.ofResult ended.1, ended.2) := by
    simp only [Session.run, h, hresolve, List.isEmpty_nil, Bool.not_true, Bool.false_eq_true,
      if_false]
    rfl
  simp only [hrun, ended, Session.perform]
  cases executeProgram turns program (s.machineFor program) with
  | ok a m' => rfl
  | error e m' => rfl

theorem Session.IsTidy.run {s : Session} (hs : s.IsTidy) (turns : Nat) (source : String) :
    (s.run turns source).2.IsTidy := by
  obtain ⟨hdist, bound, hheap⟩ := hs
  have hnext : s.nextId ≤ (readSource s.nextId source).nextId := firstId_le_nextId _ _
  have hderives := @derives_of_readSource s.nextId source
  cases hread : readSource s.nextId source with
  | mk errors program m =>
    rw [hread] at hnext hderives
    by_cases herrors : errors = []
    · subst herrors
      have hderives := hderives rfl
      have huses : ((s.machineFor program).distances).IsBelow m :=
        (hdist.mono hnext).recordAll fun use huse ↦ (ids_of_uses hderives huse).2
      by_cases hresolve : (resolveProgram program).errors = []
      · obtain ⟨bound', hprogram⟩ := exists_bound_of_derives hderives
        rw [Session.run_eq hread hresolve]
        refine ⟨?_, max bound bound', ?_⟩
        · rw [distances_executeProgram]
          exact huses
        · exact heap_isBelow_executeProgram (m := s.machineFor program)
            (fun ρ hρ ↦ hprogram ρ (hρ.mono (Nat.le_refl _) (Nat.le_max_right ..)))
            (hheap.mono hnext (Nat.le_max_left ..)) huses turns
      · have hrun : (s.run turns source).2 = ⟨s.machineFor program, m⟩ := by
          simp [Session.run, hread, hresolve]
          rfl
        rw [hrun]
        exact ⟨huses, bound, hheap.mono hnext (Nat.le_refl _)⟩
    · have hrun : (s.run turns source).2 = { s with nextId := m } := by
        simp [Session.run, hread, herrors]
      rw [hrun]
      exact ⟨hdist.mono hnext, bound, hheap.mono hnext (Nat.le_refl _)⟩

/-- Neither ids that are to come nor lines from some on occur in a reachable session. -/
theorem Session.Reachable.isTidy {s : Session} (h : s.Reachable) : s.IsTidy := by
  induction h with
  | start sink clock =>
    refine ⟨fun i _ ↦ rfl, 0, fun ρ _ ↦ ?_⟩
    simp [Session.start, Machine.initial, Heap.initial, Heap.relabel]
  | run turns source _ ih => exact ih.run turns source
  | takeOutput _ ih => exact ⟨ih.distances, ih.heap⟩

end LexScript
