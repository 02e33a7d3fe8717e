import LexScript.Proofs.Relabelling.Nodes
import LexScript.Proofs.Sessions.Rejection

/-!
# Programs with other ids and on other lines

Two programs that are the same when they are blank do the same in a session if the nodes of each
have different ids that the session has not used yet. Both are compared with one in which these ids
are numbered in the order of the nodes and all lines are forgotten. For either program this is a
relabelling, which the session does not notice, as its ids come before; and it is the same program
for both.

## Main definitions

* `Session.HasNewIds` : a program whose ids a session has not used yet.
* `Relabelling.numbering` : ids that are numbered in the order of a list.

## Main statements

* `Session.HasNewIds.end_eq` : blank programs that are the same do the same.
-/

namespace LexScript

open Run

/-- The nodes of a program have different ids, and a session has used none of them. -/
structure Session.HasNewIds (s : Session) (program : List Stmt) : Prop where
  nodup : (idsOf (nodesOfProgram program)).Nodup
  le : ∀ i ∈ idsOf (nodesOfProgram program), s.nextId ≤ i

namespace Relabelling

/-- Ids from a number on become numbers in the order in which a list has them, and all lines are
forgotten. -/
def numbering (n : Nat) (ids : List Nat) : Relabelling :=
  ⟨fun i ↦ if i < n then i else n + ids.idxOf i, fun _ ↦ 0⟩

variable {n : Nat} {ids : List Nat}

theorem keeps_numbering (n : Nat) (ids : List Nat) : (numbering n ids).Keeps n 0 where
  ids _ hi := if_pos hi
  later i hi := by
    have hlater : (numbering n ids).ids i = n + ids.idxOf i := if_neg (Nat.not_lt.2 hi)
    omega
  lines _ hline := absurd hline (Nat.not_lt_zero _)

theorem map_numbering (hnodup : ids.Nodup) (hle : ∀ i ∈ ids, n ≤ i) :
    ids.map (numbering n ids).ids = List.range' n ids.length := by
  refine List.ext_getElem (by simp) fun k hk _ ↦ ?_
  rw [List.length_map] at hk
  have hn := hle _ (List.getElem_mem hk)
  simp only [numbering, List.getElem_map, List.getElem_range', Nat.not_lt.2 hn, if_false,
    hnodup.idxOf_getElem k hk, Nat.one_mul]

/-- The ids of the list are told from all others. -/
theorem numbering_eq_iff {j : Nat} (hj : j ∈ ids) (hn : n ≤ j) (i : Nat) :
    (numbering n ids).ids i = (numbering n ids).ids j ↔ i = j := by
  refine ⟨fun h ↦ ?_, congrArg _⟩
  have hlt := List.idxOf_lt_length_of_mem hj
  simp only [numbering, Nat.not_lt.2 hn, if_false] at h
  split at h
  · omega
  · have hidx : ids.idxOf i = ids.idxOf j := Nat.add_left_cancel h
    have hi := List.getElem_idxOf (hidx ▸ hlt)
    have hj := List.getElem_idxOf hlt
    simp only [hidx] at hi
    exact hi.symm.trans hj

end Relabelling

/-! ### What a session notices -/

/-- The uses of a program have ids of its nodes. -/
theorem mem_idsOf_of_use {program : List Stmt} {use : NameUse}
    (huse : use ∈ (resolveProgram program).uses) : use.id ∈ idsOf (nodesOfProgram program) := by
  -- Ids of no node are replaced, which the program does not notice.
  let ρ : Relabelling := ⟨fun i ↦ if i ∈ idsOf (nodesOfProgram program) then i else i + 1, id⟩
  have hprogram : relabelProgram ρ program = program :=
    relabelProgram_eq_self_of_ids fun i hi ↦ if_pos hi
  have hid := ids_eq_self_of_use hprogram huse
  refine Decidable.byContradiction fun hout ↦ ?_
  have hnext : ρ.ids use.id = use.id + 1 := if_neg hout
  omega

/-- In a heap without later ids only lines are relabelled. -/
theorem Heap.IsBelow.relabel_eq {h : Heap} {n bound : Nat} (hh : h.IsBelow n bound)
    {ρ : Relabelling} (hρ : ρ.Keeps n 0) : h.relabel ρ = h.relabel ⟨id, ρ.lines⟩ := by
  have hids : h.relabel ⟨ρ.ids, id⟩ = h := hh _ ⟨hρ.ids, hρ.later, fun _ _ ↦ rfl⟩
  have hboth : (h.relabel ⟨ρ.ids, id⟩).relabel ⟨id, ρ.lines⟩ = h.relabel ρ := h.relabel_relabel
  rw [← hboth, hids]

namespace Session

variable {s : Session} {p q : List Stmt}

/-- A program with new ids does what it does with these ids numbered and without lines. -/
theorem HasNewIds.follows (hp : s.HasNewIds p) (hs : s.IsTidy) (turns : Nat) :
    let ρ := Relabelling.numbering s.nextId (idsOf (nodesOfProgram p))
    let start := s.machineFor (relabelProgram ρ p)
    executeProgram turns (relabelProgram ρ p) (start.relabel ⟨id, fun _ ↦ 0⟩ start.distances) =
      relabelEnd ρ start.distances id (executeProgram turns p (s.machineFor p)) := by
  intro ρ start
  obtain ⟨hdist, bound, hheap⟩ := hs
  have hρ := Relabelling.keeps_numbering s.nextId (idsOf (nodesOfProgram p))
  have hagree : (s.machineFor p).distances.AgreeOn ρ start.distances := by
    simp only [start, machineFor, resolveProgram_relabel]
    refine (hdist.agreeOn hρ).recordAll fun use huse i ↦ ?_
    have hid := mem_idsOf_of_use huse
    exact Relabelling.numbering_eq_iff hid (hp.le _ hid) i
  have hlines : s.machine.heap.relabel ρ = s.machine.heap.relabel ⟨id, fun _ ↦ 0⟩ :=
    hheap.relabel_eq hρ
  have hstart : (s.machineFor p).relabel ρ start.distances =
      start.relabel ⟨id, fun _ ↦ 0⟩ start.distances := by
    simp only [Machine.relabel, start, machineFor]
    rw [hlines]
  rw [← (follows_executeProgram turns p _ hagree).1, hstart]

/-- Programs that are the same when they are blank are the same when their ids are numbered. -/
theorem HasNewIds.numbered_eq (hp : s.HasNewIds p) (hq : s.HasNewIds q)
    (h : relabelProgram .blank p = relabelProgram .blank q) :
    relabelProgram (.numbering s.nextId (idsOf (nodesOfProgram p))) p =
      relabelProgram (.numbering s.nextId (idsOf (nodesOfProgram q))) q := by
  have hlength : (idsOf (nodesOfProgram p)).length = (idsOf (nodesOfProgram q)).length := by
    have := congrArg (List.length ∘ nodesOfProgram) h
    simpa [idsOf, nodesOfProgram_relabel] using this
  have hids := Relabelling.map_numbering hp.nodup hp.le
  rw [hlength, ← Relabelling.map_numbering hq.nodup hq.le] at hids
  exact relabelProgram_eq_of_blank h hids

/-- Programs that are the same when they are blank come to the same end, apart from ids and
lines. -/
theorem HasNewIds.end_eq (hp : s.HasNewIds p) (hq : s.HasNewIds q) (hs : s.IsTidy)
    (h : relabelProgram .blank p = relabelProgram .blank q) (turns : Nat) :
    relabelEnd .blank .empty id (executeProgram turns p (s.machineFor p)) =
      relabelEnd .blank .empty id (executeProgram turns q (s.machineFor q)) := by
  have hend := hp.follows hs turns
  dsimp only at hend
  rw [hp.numbered_eq hq h, hq.follows hs turns] at hend
  have hblank := congrArg (relabelEnd .blank .empty id) hend
  rw [relabelEnd_relabelEnd, relabelEnd_relabelEnd] at hblank
  exact hblank.symm

end Session

/-- Programs that are the same when they are blank are resolved in the same way, apart from ids and
lines. -/
theorem resolveProgram_of_blank {p q : List Stmt}
    (h : relabelProgram .blank p = relabelProgram .blank q) :
    (resolveProgram p).errors.map (ScopeError.relabel .blank) =
        (resolveProgram q).errors.map (ScopeError.relabel .blank) ∧
      (resolveProgram p).uses.map (NameUse.relabel .blank) =
        (resolveProgram q).uses.map (NameUse.relabel .blank) := by
  have hresolve := congrArg resolveProgram h
  rw [resolveProgram_relabel, resolveProgram_relabel, Resolution.mk.injEq] at hresolve
  exact hresolve.symm

end LexScript
