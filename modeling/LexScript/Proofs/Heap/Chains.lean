import LexScript.Proofs.Heap.Frames
import Mathlib.Data.Fintype.Card

/-!
# Chains of frames

The frames around a frame form a chain, which comes to an end if no link leads back. There are as
many names on it as frames bind, and a name that is bound more than once is seen where it is bound
nearest. So a frame of the chain can be seen for a name from the start of the chain if no nearer one
binds the name.

A chain that does not lead back goes through different frames, so that it has no more of them than
there are. That is why the search for a name looks at as many frames and at no more.

## Main definitions

* `Frames.IsAcyclic` : no link leads back.
* `Frames.Sees`, `Frames.IsNearest` : a frame that is not hidden, and one that binds a name, too.

## Main statements

* `Frames.ancestor?_add` : walks along a chain are put together.
* `Frames.IsAcyclic.owner?_eq_some_iff` : a search by name ends at the nearest frame.
* `Frames.IsAcyclic.owner?_eq` : a search looks at a frame and goes on with the one around it.
-/

namespace LexScript

namespace Frames

variable {α : Type} {fs : Frames α} {f g k d : Nat} {x : Name}

/-! ### Walks -/

/-- Where one walk outward ends, another one goes on. -/
theorem ancestor?_add (fs : Frames α) (f a b : Nat) :
    fs.ancestor? f (a + b) = (fs.ancestor? f a).bind (fs.ancestor? · b) := by
  induction a generalizing f with
  | zero =>
    rw [Nat.zero_add]
    rfl
  | succ a ih =>
    rw [Nat.add_right_comm, ancestor?, ancestor?]
    cases fs.enclosing? f with
    | none => rfl
    | some outer => exact ih outer

/-- A walk of some links goes through every frame at a smaller distance. -/
theorem exists_ancestor?_of_le (h : fs.ancestor? f d = some g) {i : Nat} (hi : i ≤ d) :
    ∃ k, fs.ancestor? f i = some k ∧ fs.ancestor? k (d - i) = some g := by
  rw [← Nat.add_sub_cancel' hi, ancestor?_add] at h
  exact Option.bind_eq_some_iff.1 h

/-- The same links lead to the same frames. -/
theorem ancestor?_congr {fs' : Frames α} (h : ∀ f, fs'.enclosing? f = fs.enclosing? f)
    (f distance : Nat) : fs'.ancestor? f distance = fs.ancestor? f distance := by
  induction distance generalizing f with
  | zero => rfl
  | succ distance ih =>
    rw [ancestor?, ancestor?, h]
    cases fs.enclosing? f with
    | none => rfl
    | some outer => exact ih outer

/-- The links from a frame outward never lead back to it. -/
def IsAcyclic (fs : Frames α) : Prop := ∀ f d, fs.ancestor? f (d + 1) ≠ some f

/-- Links that lead to older frames do not lead back. -/
theorem isAcyclic_of_lt (h : ∀ f outer, fs.enclosing? f = some outer → outer < f) :
    fs.IsAcyclic := by
  have hlt : ∀ d f g, fs.ancestor? f (d + 1) = some g → g < f := by
    intro d
    induction d with
    | zero =>
      intro f g hg
      rw [ancestor?] at hg
      split at hg
      · next outer hlink =>
        cases hg
        exact h f _ hlink
      · cases hg
    | succ d ih =>
      intro f g hg
      rw [ancestor?] at hg
      split at hg
      · next outer hlink => exact Nat.lt_trans (ih outer g hg) (h f outer hlink)
      · cases hg
  exact fun f d hf ↦ Nat.lt_irrefl f (hlt d f f hf)

/-- Two distances along a chain that does not lead back lead to different frames. -/
theorem IsAcyclic.ancestor?_ne (hfs : fs.IsAcyclic) {d' : Nat} (h' : fs.ancestor? f d' = some k)
    (h : fs.ancestor? f d = some g) (hne : d' ≠ d) : k ≠ g := by
  rintro rfl
  have hback {i j : Nat} (hi : fs.ancestor? f i = some k) (hj : fs.ancestor? f j = some k) :
      ¬i < j := by
    intro hlt
    obtain ⟨e, rfl⟩ := Nat.exists_eq_add_of_lt hlt
    rw [Nat.add_assoc, ancestor?_add, hi] at hj
    exact hfs k e hj
  rcases Nat.lt_or_gt_of_ne hne with hlt | hlt
  · exact hback h' h hlt
  · exact hback h h' hlt

/-- A chain that does not lead back has no more frames than there are. -/
theorem IsAcyclic.lt_size (hfs : fs.IsAcyclic) (h : fs.ancestor? f d = some g)
    (hg : g < fs.size) : d < fs.size := by
  have hframe (i : Fin (d + 1)) : ∃ k : Fin fs.size, fs.ancestor? f i = some k.val := by
    obtain ⟨k, hk, hrest⟩ := exists_ancestor?_of_le h (Nat.le_of_lt_succ i.isLt)
    refine ⟨⟨k, ?_⟩, hk⟩
    cases hlast : d - i with
    | zero =>
      rw [hlast] at hrest
      cases hrest
      exact hg
    | succ e =>
      rw [hlast, ancestor?] at hrest
      split at hrest
      · next hlink => exact fs.lt_size_of_enclosing? hlink
      · cases hrest
  choose frame hframe using hframe
  have hinj : Function.Injective frame := by
    intro i j heq
    by_contra hne
    refine hfs.ancestor?_ne (hframe i) (hframe j) (fun hij ↦ hne (Fin.ext hij)) ?_
    rw [heq]
  have hcard := Fintype.card_le_of_injective frame hinj
  rwa [Fintype.card_fin, Fintype.card_fin] at hcard

/-! ### Names -/

/-- From a frame, another one that many links outward can be seen for a name: no nearer frame binds
the name. -/
structure Sees (fs : Frames α) (x : Name) (f d g : Nat) : Prop where
  ancestor : fs.ancestor? f d = some g
  nearer : ∀ d' < d, ∀ k, fs.ancestor? f d' = some k → fs.binds k x = false

/-- Frames that are nearer than one that can be seen can be seen, too. -/
theorem Sees.of_le (h : fs.Sees x f d g) {d' : Nat} (hle : d' ≤ d)
    (hk : fs.ancestor? f d' = some k) : fs.Sees x f d' k :=
  ⟨hk, fun e he ↦ h.nearer e (Nat.lt_of_lt_of_le he hle)⟩

/-- A frame that many links outward is the nearest one that binds a name. -/
structure IsNearest (fs : Frames α) (x : Name) (f d g : Nat) : Prop extends
    fs.Sees x f d g where
  binds : fs.binds g x = true

/-- The nearest frame that binds a name is the only one that can be seen for it and binds it. -/
theorem IsNearest.eq (h : fs.IsNearest x f d g) {d' g' : Nat} (h' : fs.IsNearest x f d' g') :
    d = d' ∧ g = g' := by
  have hle {e e' k k' : Nat} (hk : fs.IsNearest x f e k) (hk' : fs.IsNearest x f e' k') :
      e ≤ e' := by
    refine Nat.le_of_not_lt fun hlt ↦ ?_
    have hbinds := hk.nearer e' hlt k' hk'.ancestor
    rw [hk'.binds] at hbinds
    cases hbinds
  have hd := Nat.le_antisymm (hle h h') (hle h' h)
  subst hd
  exact ⟨rfl, Option.some.inj (h.ancestor.symm.trans h'.ancestor)⟩

/-- A frame that does not bind a name makes no difference to which one is the nearest. -/
theorem isNearest_succ_iff {outer : Nat} (hbinds : fs.binds f x = false)
    (hlink : fs.enclosing? f = some outer) :
    fs.IsNearest x f (d + 1) g ↔ fs.IsNearest x outer d g := by
  have hwalk (e : Nat) : fs.ancestor? f (e + 1) = fs.ancestor? outer e := by
    rw [ancestor?, hlink]
  refine ⟨fun h ↦ ⟨⟨hwalk d ▸ h.ancestor, fun e he k hk ↦ ?_⟩, h.binds⟩, fun h ↦
    ⟨⟨(hwalk d).trans h.ancestor, fun e he k hk ↦ ?_⟩, h.binds⟩⟩
  · exact h.nearer (e + 1) (Nat.succ_lt_succ he) k ((hwalk e).trans hk)
  · cases e with
    | zero =>
      cases hk
      exact hbinds
    | succ e => exact h.nearer e (Nat.lt_of_succ_lt_succ he) k ((hwalk e).symm.trans hk)

/-- The nearest frame is found behind one that does not bind the name. -/
theorem isNearest_iff_of_not_binds (hbinds : fs.binds f x = false) :
    fs.IsNearest x f d g ↔
      ∃ e outer, d = e + 1 ∧ fs.enclosing? f = some outer ∧ fs.IsNearest x outer e g := by
  refine ⟨fun h ↦ ?_, fun ⟨e, outer, hd, hlink, h⟩ ↦ hd ▸ (isNearest_succ_iff hbinds hlink).2 h⟩
  cases d with
  | zero =>
    cases h.ancestor
    exact absurd h.binds (Bool.eq_false_iff.1 hbinds)
  | succ e =>
    have hwalk := h.ancestor
    rw [ancestor?] at hwalk
    split at hwalk
    · next outer hlink =>
      exact ⟨e, outer, rfl, hlink, (isNearest_succ_iff hbinds hlink).1 h⟩
    · cases hwalk

theorem isNearest_iff_of_binds (hbinds : fs.binds f x = true) :
    fs.IsNearest x f d g ↔ d = 0 ∧ f = g := by
  have hself : fs.IsNearest x f 0 f := ⟨⟨rfl, fun _ h ↦ absurd h (Nat.not_lt_zero _)⟩, hbinds⟩
  exact ⟨fun h ↦ h.eq hself |>.imp_right Eq.symm, fun ⟨hd, hg⟩ ↦ hd ▸ hg ▸ hself⟩

/-! ### Searches -/

theorem ownerAmong?_eq_some_iff {count : Nat} :
    fs.ownerAmong? x count f = some g ↔ ∃ d < count, fs.IsNearest x f d g := by
  induction count generalizing f with
  | zero => simp [ownerAmong?]
  | succ count ih =>
    rw [ownerAmong?]
    cases hbinds : fs.binds f x with
    | true => simp [isNearest_iff_of_binds hbinds]
    | false =>
      simp only [Bool.false_eq_true, if_false, isNearest_iff_of_not_binds hbinds]
      cases fs.enclosing? f with
      | none => simp
      | some outer =>
        refine ih.trans ⟨?_, ?_⟩
        · rintro ⟨e, he, h⟩
          exact ⟨e + 1, Nat.succ_lt_succ he, e, outer, rfl, rfl, h⟩
        · rintro ⟨_, hd, e, _, rfl, ⟨⟩, h⟩
          exact ⟨e, Nat.lt_of_succ_lt_succ hd, h⟩

namespace IsAcyclic

variable (hfs : fs.IsAcyclic)
include hfs

/-- A search by name ends at the nearest frame that binds the name. -/
theorem owner?_eq_some_iff : fs.owner? f x = some g ↔ ∃ d, fs.IsNearest x f d g := by
  rw [owner?, ownerAmong?_eq_some_iff]
  constructor
  · rintro ⟨d, -, h⟩
    exact ⟨d, h⟩
  · rintro ⟨d, h⟩
    obtain ⟨v, hv⟩ := fs.binds_iff.1 h.binds
    exact ⟨d, hfs.lt_size h.ancestor (fs.lt_size_of_find? hv), h⟩

/-- A search by name looks at a frame and, if this does not bind the name, goes on with the frame
around it. -/
theorem owner?_eq (f : Nat) (x : Name) :
    fs.owner? f x = if fs.binds f x then some f else (fs.enclosing? f).bind (fs.owner? · x) := by
  refine Option.ext fun g ↦ ?_
  -- With one turn more, the search at the frame itself is a step of its own.
  have hunfold : fs.owner? f x = some g ↔ ∃ count, fs.ownerAmong? x (count + 1) f = some g := by
    simp only [hfs.owner?_eq_some_iff, ownerAmong?_eq_some_iff]
    constructor
    · rintro ⟨d, h⟩
      exact ⟨d, d, Nat.lt_succ_self d, h⟩
    · rintro ⟨-, d, -, h⟩
      exact ⟨d, h⟩
  rw [hunfold]
  simp only [ownerAmong?]
  cases fs.binds f x with
  | true => simp
  | false =>
    cases fs.enclosing? f with
    | none => simp
    | some outer =>
      simp only [Bool.false_eq_true, if_false, Option.bind_some, ownerAmong?_eq_some_iff,
        hfs.owner?_eq_some_iff]
      constructor
      · rintro ⟨-, d, -, h⟩
        exact ⟨d, h⟩
      · rintro ⟨d, h⟩
        exact ⟨d + 1, d, Nat.lt_succ_self d, h⟩

end IsAcyclic

end Frames

end LexScript
