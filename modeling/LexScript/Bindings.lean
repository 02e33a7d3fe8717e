/-!
# Bindings

Bindings give each of finitely many keys one value. A key that is bound again keeps its place
and gets the new value, so a key occurs once.

## Main definitions

* `Bindings.find?`, `Bindings.put` : reading and writing one key.

## Main statements

* `Bindings.find?_put` : a write is seen at its key and nowhere else.
-/

namespace LexScript

/-- Keys with one value each. -/
structure Bindings (κ α : Type) where
  entries : List (κ × α)

namespace Bindings

variable {κ α : Type} [DecidableEq κ]

/-- No key is bound. -/
def empty : Bindings κ α := ⟨[]⟩

/-- The value of a key in a list of entries. -/
def findEntry (k : κ) : List (κ × α) → Option α
  | [] => none
  | (k', v) :: rest => if k' = k then some v else findEntry k rest

/-- The value of a key. -/
def find? (b : Bindings κ α) (k : κ) : Option α := findEntry k b.entries

/-- Whether a key is bound. -/
def binds (b : Bindings κ α) (k : κ) : Bool := (b.find? k).isSome

/-- Entries with the value of one key replaced, or added at the end. -/
def putEntry (k : κ) (v : α) : List (κ × α) → List (κ × α)
  | [] => [(k, v)]
  | (k', v') :: rest => if k' = k then (k, v) :: rest else (k', v') :: putEntry k v rest

/-- Binds a key, whether or not it was bound. -/
def put (b : Bindings κ α) (k : κ) (v : α) : Bindings κ α := ⟨putEntry k v b.entries⟩

private theorem findEntry_putEntry (entries : List (κ × α)) (k : κ) (v : α) (k' : κ) :
    findEntry k' (putEntry k v entries) = if k' = k then some v else findEntry k' entries := by
  induction entries with
  | nil => simp [putEntry, findEntry, eq_comm]
  | cons e rest ih =>
    obtain ⟨k₀, v₀⟩ := e
    by_cases h₀ : k₀ = k
    · subst h₀
      by_cases h : k' = k₀
      · simp [putEntry, findEntry, h]
      · simp [putEntry, findEntry, h, Ne.symm h]
    · by_cases h : k₀ = k'
      · subst h
        simp [putEntry, findEntry, h₀]
      · simp [putEntry, findEntry, h₀, h, ih]

/-- A write is seen at its key and nowhere else. -/
theorem find?_put (b : Bindings κ α) (k : κ) (v : α) (k' : κ) :
    (b.put k v).find? k' = if k' = k then some v else b.find? k' :=
  findEntry_putEntry b.entries k v k'

/-- A write binds its key and unbinds none. -/
theorem binds_put (b : Bindings κ α) (k : κ) (v : α) (k' : κ) :
    (b.put k v).binds k' = (k' == k || b.binds k') := by
  rw [binds, find?_put, binds]
  by_cases h : k' = k
  · simp [h]
  · simp [h]

private theorem putEntry_putEntry (entries : List (κ × α)) (k : κ) (v w : α) :
    putEntry k w (putEntry k v entries) = putEntry k w entries := by
  induction entries with
  | nil => simp [putEntry]
  | cons e rest ih =>
    by_cases h : e.1 = k
    · simp [putEntry, h]
    · simp [putEntry, h, ih]

/-- The second of two writes to a key counts. -/
theorem put_put (b : Bindings κ α) (k : κ) (v w : α) : (b.put k v).put k w = b.put k w :=
  congrArg mk (putEntry_putEntry b.entries k v w)

/-- No key is bound at first. -/
theorem find?_empty (k : κ) : (empty : Bindings κ α).find? k = none := rfl

end Bindings

end LexScript
