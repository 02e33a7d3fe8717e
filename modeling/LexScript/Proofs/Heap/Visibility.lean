import LexScript.Machine
import LexScript.Proofs.Actions
import LexScript.Proofs.Heap.Chains
import Mathlib.Order.Bounds.Defs

/-!
# What a write to a frame changes

Frames are shared: the chains from many frames, inner ones and those of functions that were declared
there, go through the same frame. A write to it is seen from all of them for which no nearer frame
binds the name, and nowhere else. An assignment is a write to the nearest frame that binds the name,
so it is seen wherever the name leads to the same frame, and it binds no name that was not bound.

The search by name and the access by distance meet at the nearest frame: at its distance they read
the same value and change the same frame. Without such a frame, neither of them finds anything.

## Main statements

* `Frames.IsAcyclic.get_define_of_sees`, `Frames.IsAcyclic.get_define_of_not_sees` : where a binding
  is seen.
* `frames_form_scope_chains` : what bindings and assignments change.
* `search_agrees_with_access` : search by name and access by distance.
-/

namespace LexScript

namespace Frames

variable {α : Type} {fs : Frames α} {f g k d : Nat} {x y : Name} {v : α}

/-! ### Searches -/

namespace IsAcyclic

variable (hfs : fs.IsAcyclic)
include hfs

/-- A name leads to what the nearest frame binds it to. -/
theorem bind_owner?_eq_some_iff {w : α} :
    (fs.owner? f x).bind (fs.find? · x) = some w ↔
      ∃ d g, fs.IsNearest x f d g ∧ fs.find? g x = some w := by
  simp only [Option.bind_eq_some_iff, hfs.owner?_eq_some_iff]
  exact ⟨fun ⟨g, ⟨d, h⟩, hw⟩ ↦ ⟨d, g, h, hw⟩, fun ⟨d, g, h, hw⟩ ↦ ⟨g, ⟨d, h⟩, hw⟩⟩

theorem get_of_isNearest (h : fs.IsNearest x f d g) {w : α} (hw : fs.find? g x = some w)
    (line : Nat) : fs.get f x line = .ok w := by
  rw [get, hfs.bind_owner?_eq_some_iff.2 ⟨d, g, h, hw⟩]

theorem assign_of_isNearest (h : fs.IsNearest x f d g) (line : Nat) (v : α) :
    fs.assign f x line v = .ok (fs.define g x v) := by
  rw [assign, hfs.owner?_eq_some_iff.2 ⟨d, h⟩]

/-- An assignment that succeeds is a binding in the nearest frame. -/
theorem exists_isNearest_of_assign {line : Nat} {fs' : Frames α}
    (h : fs.assign f x line v = .ok fs') : ∃ d k, fs.IsNearest x f d k ∧ fs' = fs.define k x v := by
  unfold assign at h
  split at h
  · next k howner =>
    obtain ⟨d, hnearest⟩ := hfs.owner?_eq_some_iff.1 howner
    cases h
    exact ⟨d, k, hnearest, rfl⟩
  · cases h

/-- A name can be assigned to exactly if it can be read. -/
theorem assign_iff_get (line : Nat) :
    (∃ fs', fs.assign f x line v = .ok fs') ↔ ∃ w, fs.get f x line = .ok w := by
  refine ⟨fun ⟨fs', h⟩ ↦ ?_, fun ⟨w, h⟩ ↦ ?_⟩
  · obtain ⟨d, k, hnearest, -⟩ := hfs.exists_isNearest_of_assign h
    obtain ⟨w, hw⟩ := fs.binds_iff.1 hnearest.binds
    exact ⟨w, hfs.get_of_isNearest hnearest hw line⟩
  · unfold get at h
    split at h
    · next w' hw =>
      obtain ⟨d, g, hnearest, -⟩ := hfs.bind_owner?_eq_some_iff.1 hw
      exact ⟨_, hfs.assign_of_isNearest hnearest line v⟩
    · cases h

end IsAcyclic

/-! ### Bindings -/

theorem ancestor?_define (f : Nat) (x : Name) (v : α) (g d : Nat) :
    (fs.define f x v).ancestor? g d = fs.ancestor? g d :=
  ancestor?_congr (fs.enclosing?_define f x v) g d

theorem IsAcyclic.define (hfs : fs.IsAcyclic) (f : Nat) (x : Name) (v : α) :
    (fs.define f x v).IsAcyclic := fun g d h ↦ hfs g d (ancestor?_define f x v g (d + 1) ▸ h)

/-- A name that is bound in another place, or that is another name, is bound as before. -/
theorem find?_define_of_ne (h : ¬(k = f ∧ y = x)) :
    (fs.define f x v).find? k y = fs.find? k y := by
  rw [find?_define, if_neg fun ⟨hk, hy, _⟩ ↦ h ⟨hk, hy⟩]

theorem binds_define_of_ne (h : ¬(k = f ∧ y = x)) :
    (fs.define f x v).binds k y = fs.binds k y := by
  rw [binds, binds, find?_define_of_ne h]

/-- A name that is already bound in the frame is bound in the same frames afterwards. -/
theorem binds_define_of_binds (hf : fs.binds f x = true) (k : Nat) (y : Name) :
    (fs.define f x v).binds k y = fs.binds k y := by
  by_cases h : k = f ∧ y = x
  · obtain ⟨rfl, rfl⟩ := h
    obtain ⟨w, hw⟩ := fs.binds_iff.1 hf
    rw [hf, fs.binds_define_self (fs.lt_size_of_find? hw)]
  · exact binds_define_of_ne h

namespace IsAcyclic

variable (hfs : fs.IsAcyclic)
include hfs

/-- A frame that can be seen for a name is the nearest one once it binds the name. -/
theorem isNearest_define (h : fs.Sees x g d f) (hf : f < fs.size) :
    (fs.define f x v).IsNearest x g d f := by
  refine ⟨⟨(ancestor?_define f x v g d).trans h.ancestor, fun d' hd' k hk ↦ ?_⟩,
    fs.binds_define_self hf x v⟩
  rw [ancestor?_define] at hk
  have hne : k ≠ f := hfs.ancestor?_ne hk h.ancestor (Nat.ne_of_lt hd')
  rw [binds_define_of_ne fun h ↦ hne h.1]
  exact h.nearer d' hd' k hk

/-- A binding is seen where its frame can be seen for the name. -/
theorem get_define_of_sees (h : fs.Sees x g d f) (hf : f < fs.size) (line : Nat) :
    (fs.define f x v).get g x line = .ok v :=
  (hfs.define f x v).get_of_isNearest (hfs.isNearest_define h hf)
    (by rw [find?_define, if_pos ⟨rfl, rfl, hf⟩]) line

/-- A binding is not seen from anywhere else, nor for any other name. -/
theorem get_define_of_not_sees (h : ¬(y = x ∧ ∃ d, fs.Sees x g d f)) (line : Nat) :
    (fs.define f x v).get g y line = fs.get g y line := by
  -- All frames that can be seen are bound as before, and the nearest is among these.
  have hne {d k : Nat} (hsees : fs.Sees y g d k) : ¬(k = f ∧ y = x) := by
    rintro ⟨rfl, rfl⟩
    exact h ⟨rfl, d, hsees⟩
  have hnearest (d k : Nat) :
      (fs.define f x v).IsNearest y g d k ↔ fs.IsNearest y g d k := by
    refine ⟨fun hk ↦ ?_, fun hk ↦ ?_⟩
    · have hsees : fs.Sees y g d k := by
        refine ⟨ancestor?_define f x v g d ▸ hk.ancestor, fun d' hd' k' hk' ↦ ?_⟩
        rw [← ancestor?_define f x v] at hk'
        exact Bool.eq_false_iff.2 fun hbinds ↦
          Bool.eq_false_iff.1 (hk.nearer d' hd' k' hk') (fs.binds_define f x v hbinds)
      exact ⟨hsees, binds_define_of_ne (hne hsees) ▸ hk.binds⟩
    · refine ⟨⟨(ancestor?_define f x v g d).trans hk.ancestor, fun d' hd' k' hk' ↦ ?_⟩, ?_⟩
      · rw [ancestor?_define] at hk'
        rw [binds_define_of_ne (hne (hk.toSees.of_le (Nat.le_of_lt hd') hk'))]
        exact hk.nearer d' hd' k' hk'
      · rw [binds_define_of_ne (hne hk.toSees)]
        exact hk.binds
  have howner : ((fs.define f x v).owner? g y).bind ((fs.define f x v).find? · y)
      = (fs.owner? g y).bind (fs.find? · y) := by
    refine Option.ext fun w ↦ ?_
    rw [(hfs.define f x v).bind_owner?_eq_some_iff, hfs.bind_owner?_eq_some_iff]
    refine exists_congr fun d ↦ exists_congr fun k ↦ ?_
    rw [hnearest]
    exact and_congr_right fun hk ↦ by rw [find?_define_of_ne (hne hk.toSees)]
  rw [get, get, howner]

/-! ### Assignments -/

/-- An assignment is seen where the name leads to the same frame. -/
theorem get_assign_of_shared {line line' d₁ d₂ : Nat} {fs' : Frames α}
    (h : fs.assign f x line v = .ok fs') (hg : fs.IsNearest x g d₁ k)
    (hf : fs.IsNearest x f d₂ k) : fs'.get g x line' = .ok v := by
  obtain ⟨d, k', hnearest, rfl⟩ := hfs.exists_isNearest_of_assign h
  obtain ⟨-, rfl⟩ := hf.eq hnearest
  obtain ⟨w, hw⟩ := fs.binds_iff.1 hg.binds
  exact hfs.get_define_of_sees hg.toSees (fs.lt_size_of_find? hw) line'

/-- An assignment is not seen from anywhere else, nor for any other name. -/
theorem get_assign_of_not_shared {line line' : Nat} {fs' : Frames α}
    (h : fs.assign f x line v = .ok fs')
    (hnot : ¬(y = x ∧ ∃ k, (∃ d, fs.IsNearest x g d k) ∧ ∃ d, fs.IsNearest x f d k)) :
    fs'.get g y line' = fs.get g y line' := by
  obtain ⟨d, k, hnearest, rfl⟩ := hfs.exists_isNearest_of_assign h
  refine hfs.get_define_of_not_sees (fun ⟨hy, d', hsees⟩ ↦ ?_) line'
  exact hnot ⟨hy, k, ⟨d', hsees, hnearest.binds⟩, d, hnearest⟩

/-- An assignment binds no name that was not bound, and in no other frame. -/
theorem binds_assign {line : Nat} {fs' : Frames α} (h : fs.assign f x line v = .ok fs') (k : Nat)
    (y : Name) : fs'.binds k y = fs.binds k y := by
  obtain ⟨d, k', hnearest, rfl⟩ := hfs.exists_isNearest_of_assign h
  exact binds_define_of_binds hnearest.binds k y

end IsAcyclic

/-! ### Access by distance -/

/-- At the distance of the nearest frame, a name is read as by a search. -/
theorem getAt_of_isNearest (h : fs.IsNearest x f d g) {w : α} (hw : fs.find? g x = some w)
    (line : Nat) : fs.getAt f d x line = .ok w := by
  rw [getAt, h.ancestor, Option.bind_some, hw]

/-- At the distance of the nearest frame, a name is assigned to as by a search. -/
theorem assignAt_of_isNearest (h : fs.IsNearest x f d g) (line : Nat) (v : α) :
    fs.assignAt f d x line v = .ok (fs.define g x v) := by
  rw [assignAt, ownerAt?, h.ancestor]
  simp only [h.binds, if_true]

/-- Nothing is read at a distance at which no frame binds the name. -/
theorem getAt_of_not_binds (h : ∀ g, fs.ancestor? f d = some g → fs.binds g x = false)
    (line : Nat) : fs.getAt f d x line = .error (undefinedName x line) := by
  have hnone : (fs.ancestor? f d).bind (fs.find? · x) = none := by
    refine Option.bind_eq_none_iff.2 fun g hg ↦ ?_
    exact Option.isSome_eq_false_iff.1 (h g hg) |> Option.isNone_iff_eq_none.1
  rw [getAt, hnone]

/-- Nothing is assigned at a distance at which no frame binds the name. -/
theorem assignAt_of_not_binds (h : ∀ g, fs.ancestor? f d = some g → fs.binds g x = false)
    (line : Nat) (v : α) : fs.assignAt f d x line v = .error (undefinedName x line) := by
  have hnone : fs.ownerAt? f d x = none := by
    rw [ownerAt?]
    split
    · next g hg => simp only [h g hg, Bool.false_eq_true, if_false]
    · rfl
  rw [assignAt, hnone]

/-- The nearest frame is at the least distance at which a frame binds the name. -/
theorem exists_isNearest_of_isLeast
    (h : IsLeast {d | ∃ g, fs.ancestor? f d = some g ∧ fs.binds g x = true} d) :
    ∃ g, fs.IsNearest x f d g := by
  obtain ⟨⟨g, hg, hbinds⟩, hleast⟩ := h
  refine ⟨g, ⟨hg, fun d' hd' k hk ↦ Bool.eq_false_iff.2 fun hbinds' ↦ ?_⟩, hbinds⟩
  exact Nat.not_le_of_lt hd' (hleast ⟨k, hk, hbinds'⟩)

/-- Nothing is found behind a frame if no frame of its chain binds the name. -/
theorem IsAcyclic.owner?_eq_none (hfs : fs.IsAcyclic)
    (h : ¬∃ d g, fs.ancestor? f d = some g ∧ fs.binds g x = true) : fs.owner? f x = none := by
  refine Option.eq_none_iff_forall_ne_some.2 fun g hg ↦ ?_
  obtain ⟨d, hnearest⟩ := hfs.owner?_eq_some_iff.1 hg
  exact h ⟨d, g, hnearest.ancestor, hnearest.binds⟩

/-- One walk is too long for a chain exactly if one of two parts is. -/
theorem ancestor?_add_eq_none_iff (fs : Frames α) (f a b : Nat) :
    fs.ancestor? f (a + b) = none ↔
      fs.ancestor? f a = none ∨ ∃ g, fs.ancestor? f a = some g ∧ fs.ancestor? g b = none := by
  rw [ancestor?_add]
  cases fs.ancestor? f a <;> simp

end Frames

/-! ## Assignments of runs -/

/-- The frames after an assignment of a run, or its error. -/
def Machine.assignment (m : Machine) (id : Nat) (x : Name) (line : Nat) (v : Value) :
    Except RuntimeError (Frames Value) :=
  match m.distances.find? id with
  | some distance => m.heap.frames.assignAt m.current distance x line v
  | none => m.heap.frames.assign Frames.globals x line v

/-- An assignment of a run changes the frames alone, and nothing at all if it fails. -/
theorem Run.assignName_apply (id : Nat) (x : Name) (line : Nat) (v : Value) (m : Machine) :
    Run.assignName id x line v m = match m.assignment id x line v with
      | .ok fs => .ok () { m with heap := { m.heap with frames := fs } }
      | .error e => .error (.fault e) m := by
  rw [Run.assignName, bind_apply, Run.assignee, Machine.assignment]
  cases m.distances.find? id with
  | some distance =>
    simp only [Frames.assignAt]
    cases m.heap.frames.ownerAt? m.current distance x <;> rfl
  | none =>
    simp only [Frames.assign]
    cases m.heap.frames.owner? Frames.globals x <;> rfl

/-! ## Writes and accesses -/

/-- Three frames, each of which is enclosed by the one before; the first two bind `a`. -/
def nestedFrames : Frames Value :=
  (((Frames.initial.push (some 0)).push (some 1)).define 0 (.ident "a") .nil).define 1
    (.ident "a") (.boolean true)

theorem isAcyclic_nestedFrames : nestedFrames.IsAcyclic := by
  refine Frames.isAcyclic_of_lt fun f outer h ↦ ?_
  simp only [nestedFrames, Frames.enclosing?_define, Frames.enclosing?_push, Frames.size_push] at h
  split at h
  · next hf =>
    cases h
    exact hf ▸ Nat.lt_succ_self _
  · split at h
    · next hf =>
      cases h
      exact hf ▸ Nat.lt_succ_self _
    · cases f <;> cases h

/-- A chain of frames is a chain of scopes. A binding of `x` in the frame `f` is read in every frame
`g` that sees `f` for `x`, and changes nothing for other frames and names. An assignment from `f`
can be made exactly if the name can be read; it is then read wherever `x` leads to the same frame,
changes nothing for other frames and names, and binds no name. An assignment of a run that fails, be
it to the globals or at some distance, leaves the machine with all of its frames as it was, and no
assignment can be made behind the end of a chain. -/
theorem frames_form_scope_chains {fs : Frames Value} (hfs : fs.IsAcyclic) {f : Nat}
    (hf : f < fs.size) (g : Nat) (x y : Name) (v : Value) (line line' : Nat) :
    (y = x → (∃ d, fs.Sees x g d f) → (fs.define f x v).get g y line' = .ok v) ∧
    (¬(y = x ∧ ∃ d, fs.Sees x g d f) → (fs.define f x v).get g y line' = fs.get g y line') ∧
    ((∃ fs', fs.assign f x line v = .ok fs') ↔ ∃ w, fs.get f x line = .ok w) ∧
    (∀ fs', fs.assign f x line v = .ok fs' →
      (y = x → (∃ k, (∃ d, fs.IsNearest x g d k) ∧ ∃ d, fs.IsNearest x f d k) →
        fs'.get g y line' = .ok v) ∧
      (¬(y = x ∧ ∃ k, (∃ d, fs.IsNearest x g d k) ∧ ∃ d, fs.IsNearest x f d k) →
        fs'.get g y line' = fs.get g y line') ∧
      ∀ k z, fs'.binds k z = fs.binds k z) ∧
    (∀ d, fs.ancestor? f d = none → fs.assignAt f d x line v = .error (undefinedName x line)) ∧
    ∀ m : Machine, m.heap.frames = fs → ∀ id e, m.assignment id x line v = .error e →
      Run.assignName id x line v m = .error (.fault e) m := by
  refine ⟨?seen, fun h ↦ hfs.get_define_of_not_sees h line', hfs.assign_iff_get line,
    fun fs' h ↦ ⟨?shared, fun hnot ↦ hfs.get_assign_of_not_shared h hnot, hfs.binds_assign h⟩,
    fun d hend ↦ Frames.assignAt_of_not_binds (fun k hk ↦ nomatch hend.symm.trans hk) line v,
    fun m _ id e he ↦ ?failing⟩
  case seen =>
    rintro rfl ⟨d, hsees⟩
    exact hfs.get_define_of_sees hsees hf line'
  case shared =>
    rintro rfl ⟨k, ⟨d, hg⟩, d', hf'⟩
    exact hfs.get_assign_of_shared h hg hf'
  case failing => rw [Run.assignName_apply, he]

/-- A name that a frame hides is read there as before, whatever the outer frame binds it to. -/
theorem frames_form_scope_chains_hidden :
    nestedFrames.IsAcyclic ∧ 0 < nestedFrames.size ∧
    ¬(Name.ident "a" = .ident "a" ∧ ∃ d, nestedFrames.Sees (.ident "a") 2 d 0) ∧
    (nestedFrames.define 0 (.ident "a") (.boolean false)).get 2 (.ident "a") 1 =
      .ok (.boolean true) := by
  have hsize : 0 < nestedFrames.size := by decide
  have hnot : ¬(Name.ident "a" = .ident "a" ∧ ∃ d, nestedFrames.Sees (.ident "a") 2 d 0) := by
    rintro ⟨-, d, hsees⟩
    have hd : 1 < d := by
      refine Nat.lt_of_not_le fun hle ↦ ?_
      rcases Nat.le_one_iff_eq_zero_or_eq_one.1 hle with rfl | rfl <;>
        exact absurd hsees.ancestor (by decide)
    exact absurd (hsees.nearer 1 hd 1 (by decide)) (by decide)
  have h := frames_form_scope_chains isAcyclic_nestedFrames hsize 2 (.ident "a") (.ident "a")
    (.boolean false) 1 1
  exact ⟨isAcyclic_nestedFrames, hsize, hnot, (h.2.1 hnot).trans (by rfl)⟩

/-- A search by name and an access at the least distance at which a frame binds the name read the
same value and make the same change. If there is no such distance, a search and the accesses at
every distance fail, all with the same error. And a walk along a chain can be made in parts. -/
theorem search_agrees_with_access {α : Type} {fs : Frames α} (hfs : fs.IsAcyclic) (f : Nat)
    (x : Name) (line : Nat) (v : α) :
    (∀ d, IsLeast {d | ∃ g, fs.ancestor? f d = some g ∧ fs.binds g x = true} d →
      (∃ w, fs.get f x line = .ok w ∧ fs.getAt f d x line = .ok w) ∧
      ∃ fs', fs.assign f x line v = .ok fs' ∧ fs.assignAt f d x line v = .ok fs') ∧
    ((¬∃ d g, fs.ancestor? f d = some g ∧ fs.binds g x = true) →
      fs.get f x line = .error (undefinedName x line) ∧
      fs.assign f x line v = .error (undefinedName x line) ∧
      ∀ d, fs.getAt f d x line = .error (undefinedName x line) ∧
        fs.assignAt f d x line v = .error (undefinedName x line)) ∧
    ∀ a b, fs.ancestor? f (a + b) = (fs.ancestor? f a).bind (fs.ancestor? · b) ∧
      (fs.ancestor? f (a + b) = none ↔
        fs.ancestor? f a = none ∨ ∃ g, fs.ancestor? f a = some g ∧ fs.ancestor? g b = none) := by
  refine ⟨fun d hleast ↦ ?found, fun hnone ↦ ?missing,
    fun a b ↦ ⟨fs.ancestor?_add f a b, fs.ancestor?_add_eq_none_iff f a b⟩⟩
  case found =>
    obtain ⟨g, hnearest⟩ := Frames.exists_isNearest_of_isLeast hleast
    obtain ⟨w, hw⟩ := fs.binds_iff.1 hnearest.binds
    exact ⟨⟨w, hfs.get_of_isNearest hnearest hw line, Frames.getAt_of_isNearest hnearest hw line⟩,
      fs.define g x v, hfs.assign_of_isNearest hnearest line v,
      Frames.assignAt_of_isNearest hnearest line v⟩
  case missing =>
    have howner := hfs.owner?_eq_none hnone
    have hnot (d g : Nat) (hg : fs.ancestor? f d = some g) : fs.binds g x = false :=
      Bool.eq_false_iff.2 fun hbinds ↦ hnone ⟨d, g, hg, hbinds⟩
    refine ⟨?_, ?_, fun d ↦ ⟨Frames.getAt_of_not_binds (hnot d) line,
      Frames.assignAt_of_not_binds (hnot d) line v⟩⟩
    · rw [Frames.get, howner, Option.bind_none]
    · rw [Frames.assign, howner]

/-- The innermost of the nested frames reads `a` one link outward. -/
theorem search_agrees_with_access_nested :
    nestedFrames.IsAcyclic ∧
    IsLeast {d | ∃ g, nestedFrames.ancestor? 2 d = some g ∧
      nestedFrames.binds g (.ident "a") = true} 1 ∧
    nestedFrames.getAt 2 1 (.ident "a") 1 = nestedFrames.get 2 (.ident "a") 1 := by
  have hleast : IsLeast {d | ∃ g, nestedFrames.ancestor? 2 d = some g ∧
      nestedFrames.binds g (.ident "a") = true} 1 := by
    refine ⟨⟨1, by decide⟩, fun d ⟨g, hg, hbinds⟩ ↦ Nat.pos_of_ne_zero ?_⟩
    rintro rfl
    cases hg
    exact absurd hbinds (by decide)
  obtain ⟨⟨w, hget, hgetAt⟩, -⟩ :=
    (search_agrees_with_access isAcyclic_nestedFrames 2 (.ident "a") 1 .nil).1 1 hleast
  exact ⟨isAcyclic_nestedFrames, hleast, hgetAt.trans hget.symm⟩

end LexScript
