/-!
# Actions on a state

Parsers and runs are actions that change a state and end with a result or an error. These lemmas
say what a composed action does to a given state, so that the text of an action can be followed
from left to right.
-/

namespace LexScript

variable {ε σ α β : Type}

@[simp] theorem bind_apply (p : EStateM ε σ α) (f : α → EStateM ε σ β) (s : σ) :
    (p >>= f) s = match p s with
      | .ok a s => f a s
      | .error e s => .error e s := by
  change EStateM.bind p f s = _
  rw [EStateM.bind]
  cases p s <;> rfl

@[simp] theorem map_apply (f : α → β) (p : EStateM ε σ α) (s : σ) :
    (f <$> p) s = match p s with
      | .ok a s => .ok (f a) s
      | .error e s => .error e s := by
  change EStateM.map f p s = _
  rw [EStateM.map]
  cases p s <;> rfl

@[simp] theorem pure_apply (a : α) (s : σ) : (pure a : EStateM ε σ α) s = .ok a s := rfl

@[simp] theorem throw_apply (e : ε) (s : σ) : (throw e : EStateM ε σ α) s = .error e s := rfl

/-- What a composed action that ends with a result has done. -/
theorem eq_ok_of_bind {p : EStateM ε σ α} {f : α → EStateM ε σ β} {s s' : σ} {b : β}
    (h : (p >>= f) s = .ok b s') : ∃ a t, p s = .ok a t ∧ f a t = .ok b s' := by
  rw [bind_apply] at h
  split at h
  · exact ⟨_, _, ‹_›, h⟩
  · cases h

end LexScript
