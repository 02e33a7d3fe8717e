import LexScript.Proofs.Watching.Access
import LexScript.Proofs.Watching.Sessions

/-!
# Distances and frames

Name resolution counts scopes and never sees a frame. When a name with a recorded distance is looked
up, that many links lead from the frame in scope to the frame that was made for the scope in which
name resolution has found the name. So the name is bound there, unless it is a variable whose
initializer is not complete.

## Main definitions

* `Moment.Finds` : a lookup leads to the frame of its scope.

## Main statements

* `Moment.OccursIn.exists_finds` : recorded distances agree with the frames at every moment.
-/

namespace LexScript

/-- At a moment, a name is looked up at a distance: name resolution has found it that many scopes
up, and as many links up is the frame that was made for the scope. -/
structure Moment.Finds (moment : Moment) (id : Nat) (x : Name) (d : Nat) (a : Activation) :
    Prop where
  /-- The lookup is one of an accepted program, in the scopes that frames are open for. -/
  accepted : ⟨id, x, moment.history.scopes⟩ ∈ moment.history.lookups
  scopesUp : scopesUp? x moment.history.scopes = some d
  isOpen : moment.history.display[d]? = some a
  ancestor : moment.machine.heap.frames.ancestor? moment.machine.current d = some a.frame

/-- A variable of an open frame waits for its initializer. -/
def Moment.Awaits (moment : Moment) (a : Activation) (x : Name) : Prop :=
  a.scope.names.find? x = some .variable ∧ (a.frame, x) ∈ moment.history.unfinished

variable {moment : Moment} {id d : Nat} {x : Name} {a : Activation}

/-- In order, a lookup with a recorded distance leads to the frame of its scope. -/
theorem Moment.IsInOrder.exists_activation (h : moment.IsInOrder)
    (htask : moment.task = .lookup id x) (hd : moment.machine.distances.find? id = some d) :
    ∃ a, moment.Finds id x d a := by
  have haccepted := h.liesIn
  rw [htask, Task.LiesIn] at haccepted
  obtain ⟨hdistance, -⟩ := h.inOrder.lookups _ haccepted
  have hup : scopesUp? x moment.history.scopes = some d := hdistance.symm.trans hd
  obtain ⟨a, outer, hdrop, -⟩ := exists_of_scopesUp? hup
  have hget := getElem?_of_drop hdrop
  refine ⟨a, haccepted, hup, hget, ?_⟩
  rw [h.inOrder.current]
  exact h.inOrder.isOpen.ancestor? hget

/-- The frame of the scope in which a name is found binds it, or the name is a variable that waits
for its initializer. -/
theorem Moment.Finds.binds_or_awaits (hfinds : moment.Finds id x d a) (h : moment.IsInOrder) :
    moment.machine.heap.frames.binds a.frame x = true ∨ moment.Awaits a x := by
  obtain ⟨b, outer, hdrop, hbinds⟩ := exists_of_scopesUp? hfinds.scopesUp
  cases hfinds.isOpen.symm.trans (getElem?_of_drop hdrop)
  have hopen := h.inOrder.isOpen.drop d
  rw [hdrop] at hopen
  obtain ⟨role, hrole⟩ := Option.isSome_iff_exists.1 hbinds
  rcases hopen.1.binds x role hrole with hbound | ⟨rfl, hunfinished⟩
  · exact .inl hbound
  · exact .inr ⟨hrole, hunfinished⟩

/-- A name is read from the frame of its scope, unless it waits for its initializer. -/
theorem Moment.Finds.awaits_of_readAt_eq_error (hfinds : moment.Finds id x d a)
    (h : moment.IsInOrder) {line : Nat} {e : Stop} {m : Machine}
    (herror : Run.readAt d x line moment.machine = .error e m) : moment.Awaits a x := by
  rcases hfinds.binds_or_awaits h with hbinds | hawaits
  · obtain ⟨v, hv⟩ := (Frames.binds_iff _).1 hbinds
    rw [Watched.readAt_of_ancestor? hfinds.ancestor hv] at herror
    cases herror
  · exact hawaits

/-- A name is assigned to in the frame of its scope, unless it waits for its initializer. -/
theorem Moment.Finds.awaits_of_assignName_eq_error (hfinds : moment.Finds id x d a)
    (h : moment.IsInOrder) (hd : moment.machine.distances.find? id = some d) {line : Nat}
    {v : Value} {e : Stop} {m : Machine}
    (herror : Run.assignName id x line v moment.machine = .error e m) : moment.Awaits a x := by
  rcases hfinds.binds_or_awaits h with hbinds | hawaits
  · have hassignee : Run.assignee id x moment.machine = .ok (some a.frame) moment.machine := by
      simp only [Run.assignee, hd, Frames.ownerAt?, hfinds.ancestor, hbinds, if_true]
    rw [Run.assignName, bind_apply, hassignee] at herror
    cases herror
  · exact hawaits

/-- Recorded distances agree with the frames: whenever a name with a recorded distance is looked up,
as many links up is the frame that was made for the scope in which the name was found. Reading it or
assigning to it fails only if it is a variable that waits for its initializer. -/
theorem Moment.OccursIn.exists_finds {s : Session} {turns : Nat} {source : String}
    (h : moment.OccursIn s turns source) (htask : moment.task = .lookup id x)
    (hd : moment.machine.distances.find? id = some d) :
    ∃ a, moment.Finds id x d a ∧
      (∀ line e m, Run.readAt d x line moment.machine = .error e m → moment.Awaits a x) ∧
      ∀ line v e m, Run.assignName id x line v moment.machine = .error e m →
        moment.Awaits a x := by
  obtain ⟨a, hfinds⟩ := h.isInOrder.exists_activation htask hd
  exact ⟨a, hfinds, fun _ _ _ ↦ hfinds.awaits_of_readAt_eq_error h.isInOrder,
    fun _ _ _ _ ↦ hfinds.awaits_of_assignName_eq_error h.isInOrder hd⟩

/-- A variable of a block is looked up while a function runs that was declared there. -/
theorem exists_finds_block_variable :
    let s := Session.start .unlimited (.running 0)
    let x : Name := .ident "a"
    ∃ moment : Moment, moment.OccursIn s 1 "{var a; fun f() {a;} f();}" ∧
      moment.task = .lookup 0 x ∧ moment.machine.distances.find? 0 = some 1 ∧
      ∃ a, moment.Finds 0 x 1 a ∧
        (∀ line e m, Run.readAt 1 x line moment.machine = .error e m → moment.Awaits a x) ∧
        ∀ line v e m, Run.assignName 0 x line v moment.machine = .error e m →
          moment.Awaits a x := by
  intro s x
  let w := WatchedSession.start .unlimited (.running 0)
  have hany : (w.run 1 "{var a; fun f() {a;} f();}").2.moments.any (fun moment ↦
      moment.task.lookup? == some (0, x) && moment.machine.distances.find? 0 == some 1) = true := by
    decide +kernel
  obtain ⟨moment, hmem, hmoment⟩ := List.any_eq_true.1 hany
  rw [Bool.and_eq_true, beq_iff_eq, beq_iff_eq] at hmoment
  have hoccurs : moment.OccursIn s 1 _ := ⟨w, .start _ _, rfl, hmem⟩
  have htask := Task.eq_lookup_of_lookup? hmoment.1
  exact ⟨moment, hoccurs, htask, hmoment.2, hoccurs.exists_finds htask hmoment.2⟩

end LexScript
