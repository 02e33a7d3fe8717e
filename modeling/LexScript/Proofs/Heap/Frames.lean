import LexScript.Frames

/-!
# Changes to frames

What adding a frame and binding a name do to each question about one frame. The names `this` and
`super` are bound in frames of their own, which programs cannot change.

## Main definitions

* `Name.isReceiver` : `this` and `super` among the names.

## Main statements

* `Frames.find?_push`, `Frames.enclosing?_push` : a new frame is seen at its index alone.
* `Frames.find?_define`, `Frames.enclosing?_define` : a binding is seen at its frame and name alone.
-/

namespace LexScript

/-- Whether a name is bound for its frame when that is made, as `this` and `super` are. -/
def Name.isReceiver : Name → Bool
  | .this | .super => true
  | .ident _ => false

namespace Frames

variable {α : Type} (fs : Frames α)

theorem find?_eq_none_of_size_le {f : Nat} (h : fs.size ≤ f) (x : Name) : fs.find? f x = none := by
  rw [find?, Array.getElem?_eq_none h, Option.bind_none]

theorem lt_size_of_find? {f : Nat} {x : Name} {v : α} (h : fs.find? f x = some v) :
    f < fs.size := by
  refine Nat.lt_of_not_le fun hle ↦ ?_
  rw [fs.find?_eq_none_of_size_le hle] at h
  cases h

theorem lt_size_of_enclosing? {f outer : Nat} (h : fs.enclosing? f = some outer) :
    f < fs.size := by
  refine Nat.lt_of_not_le fun hle ↦ ?_
  rw [enclosing?, Array.getElem?_eq_none hle] at h
  cases h

theorem binds_iff {f : Nat} {x : Name} : fs.binds f x = true ↔ ∃ v, fs.find? f x = some v :=
  Option.isSome_iff_exists

/-- The frame that a search by name ends with binds the name. -/
theorem binds_of_owner? {f g : Nat} {x : Name} (h : fs.owner? f x = some g) :
    fs.binds g x = true := by
  suffices hamong : ∀ count f, fs.ownerAmong? x count f = some g → fs.binds g x = true from
    hamong _ f h
  intro count
  induction count with
  | zero => exact fun _ h ↦ nomatch h
  | succ count ih =>
    intro f h
    rw [ownerAmong?] at h
    split at h
    · next hbinds =>
      cases h
      exact hbinds
    · split at h
      · exact ih _ h
      · cases h

/-- Behind the outermost frame nothing is searched. -/
theorem owner?_of_enclosing?_eq_none {f : Nat} (hf : f < fs.size) (h : fs.enclosing? f = none)
    (x : Name) : fs.owner? f x = if fs.binds f x then some f else none := by
  obtain ⟨count, hcount⟩ := Nat.exists_eq_add_one_of_ne_zero (Nat.ne_zero_of_lt hf)
  rw [owner?, hcount, ownerAmong?, h]

/-- The frame at a distance that is found for a name binds it. -/
theorem binds_of_ownerAt? {f distance g : Nat} {x : Name} (h : fs.ownerAt? f distance x = some g) :
    fs.binds g x = true := by
  unfold ownerAt? at h
  split at h
  · split at h
    · next hbinds =>
      cases h
      exact hbinds
    · cases h
  · cases h

/-! ### A new frame -/

@[simp] theorem size_push (enclosing : Option Nat) : (fs.push enclosing).size = fs.size + 1 :=
  Array.size_push ..

theorem find?_push (enclosing : Option Nat) (f : Nat) (x : Name) :
    (fs.push enclosing).find? f x = fs.find? f x := by
  simp only [find?, push, Array.getElem?_push]
  split
  · subst f
    rw [Array.getElem?_eq_none (Nat.le_refl _)]
    rfl
  · rfl

theorem enclosing?_push (enclosing : Option Nat) (f : Nat) :
    (fs.push enclosing).enclosing? f = if f = fs.size then enclosing else fs.enclosing? f := by
  by_cases hf : f = fs.frames.size
  · simp [enclosing?, push, size, hf]
  · simp [enclosing?, push, Array.getElem?_push, size, hf]

/-! ### A binding -/

@[simp] theorem size_define (f : Nat) (x : Name) (v : α) : (fs.define f x v).size = fs.size :=
  Array.size_modify

theorem find?_define (f : Nat) (x : Name) (v : α) (g : Nat) (y : Name) :
    (fs.define f x v).find? g y = if g = f ∧ y = x ∧ f < fs.size then some v else fs.find? g y := by
  simp only [find?, define, Array.getElem?_modify, size]
  by_cases hg : f = g
  · subst hg
    rcases Nat.lt_or_ge f fs.frames.size with hf | hf
    · simp [hf, Bindings.find?_put]
    · simp [Nat.not_lt.2 hf]
  · simp [hg, Ne.symm hg]

theorem enclosing?_define (f : Nat) (x : Name) (v : α) (g : Nat) :
    (fs.define f x v).enclosing? g = fs.enclosing? g := by
  simp only [enclosing?, define, Array.getElem?_modify]
  split
  · cases fs.frames[g]? <;> rfl
  · rfl

theorem binds_define_self {f : Nat} (hf : f < fs.size) (x : Name) (v : α) :
    (fs.define f x v).binds f x = true := by
  rw [binds_iff]
  exact ⟨v, by rw [find?_define, if_pos ⟨rfl, rfl, hf⟩]⟩

theorem binds_define (f : Nat) (x : Name) (v : α) {g : Nat} {y : Name}
    (h : fs.binds g y = true) : (fs.define f x v).binds g y = true := by
  rw [binds_iff] at h ⊢
  rw [find?_define]
  split
  · exact ⟨v, rfl⟩
  · exact h

end Frames

end LexScript
