import LexScript.Proofs.Relabelling.Resolution
import LexScript.Value

/-!
# Heaps with other ids and lines

The programs in a heap are the parameters and bodies of its functions and methods. Relabelling
them changes nothing else, and no question to the heap but that for such a program notices.

## Main definitions

* `Heap.relabel` : a heap with other ids and lines.
-/

namespace LexScript

variable {ρ : Relabelling}

/-! ### Bindings with other values -/

namespace Bindings

variable {κ α β : Type} [DecidableEq κ]

/-- The same keys with other values. -/
def mapValues (f : α → β) (b : Bindings κ α) : Bindings κ β :=
  ⟨b.entries.map fun e ↦ (e.1, f e.2)⟩

@[simp] theorem find?_mapValues (f : α → β) (b : Bindings κ α) (k : κ) :
    (b.mapValues f).find? k = (b.find? k).map f := by
  obtain ⟨entries⟩ := b
  simp only [mapValues, find?]
  induction entries with
  | nil => rfl
  | cons e rest ih =>
    rw [List.map_cons, findEntry, findEntry, ih]
    split <;> rfl

@[simp] theorem mapValues_put (f : α → β) (b : Bindings κ α) (k : κ) (v : α) :
    (b.put k v).mapValues f = (b.mapValues f).put k (f v) := by
  obtain ⟨entries⟩ := b
  simp only [mapValues, put, mk.injEq]
  induction entries with
  | nil => rfl
  | cons e rest ih =>
    by_cases h : e.1 = k
    · simp [putEntry, h]
    · simp [putEntry, h, ih]

omit [DecidableEq κ] in
theorem mapValues_mapValues {γ : Type} (g : β → γ) (f : α → β) (b : Bindings κ α) :
    (b.mapValues f).mapValues g = b.mapValues (g ∘ f) := by
  simp only [mapValues, List.map_map]
  rfl

end Bindings

/-! ### Heaps -/

/-- A function with other ids and lines. -/
def Closure.relabel (ρ : Relabelling) (c : Closure) : Closure :=
  { c with
    params := c.params.map (Ident.relabel ρ)
    body := relabelProgram ρ c.body }

/-- A class with other ids and lines in its methods. -/
def ClassRecord.relabel (ρ : Relabelling) (c : ClassRecord) : ClassRecord :=
  { c with methods := c.methods.mapValues (Closure.relabel ρ) }

@[simp] theorem Closure.text_relabel (c : Closure) : (c.relabel ρ).text = c.text := rfl

@[simp] theorem Closure.arity_relabel (c : Closure) : (c.relabel ρ).arity = c.arity := by
  simp [arity, relabel]

theorem Closure.relabel_relabel {σ : Relabelling} (c : Closure) :
    (c.relabel σ).relabel ρ = c.relabel (ρ.after σ) := by
  simp only [relabel, Ident.map_relabel_relabel, relabelProgram_relabelProgram]

theorem ClassRecord.relabel_relabel {σ : Relabelling} (c : ClassRecord) :
    (c.relabel σ).relabel ρ = c.relabel (ρ.after σ) := by
  have hclosures : Closure.relabel ρ ∘ Closure.relabel σ = Closure.relabel (ρ.after σ) :=
    funext Closure.relabel_relabel
  simp only [relabel, Bindings.mapValues_mapValues, hclosures]

namespace Heap

/-- A heap with other ids and lines in its functions and methods. -/
def relabel (ρ : Relabelling) (h : Heap) : Heap :=
  { h with
    functions := h.functions.map (Closure.relabel ρ)
    classes := h.classes.map (ClassRecord.relabel ρ) }

theorem relabel_relabel {σ : Relabelling} (h : Heap) :
    (h.relabel σ).relabel ρ = h.relabel (ρ.after σ) := by
  have hclosures : Closure.relabel ρ ∘ Closure.relabel σ = Closure.relabel (ρ.after σ) :=
    funext Closure.relabel_relabel
  have hclasses : ClassRecord.relabel ρ ∘ ClassRecord.relabel σ = ClassRecord.relabel (ρ.after σ) :=
    funext ClassRecord.relabel_relabel
  simp only [relabel, Array.map_map, hclosures, hclasses]

@[simp] theorem frames_relabel (h : Heap) : (h.relabel ρ).frames = h.frames := rfl

theorem functions_relabel (h : Heap) (i : Nat) :
    (h.relabel ρ).functions[i]? = h.functions[i]?.map (Closure.relabel ρ) := Array.getElem?_map

theorem classes_relabel (h : Heap) (c : Nat) :
    (h.relabel ρ).classes[c]? = h.classes[c]?.map (ClassRecord.relabel ρ) := Array.getElem?_map

@[simp] theorem define_relabel (h : Heap) (f : Nat) (x : Name) (v : Value) :
    (h.relabel ρ).define f x v = (h.define f x v).relabel ρ := rfl

theorem newFrame_relabel (h : Heap) (f : Nat) :
    (h.relabel ρ).newFrame f = ((h.newFrame f).1, (h.newFrame f).2.relabel ρ) := rfl

theorem newFunction_relabel (h : Heap) (c : Closure) :
    (h.relabel ρ).newFunction (c.relabel ρ) =
      ((h.newFunction c).1, (h.newFunction c).2.relabel ρ) := by
  simp [newFunction, relabel]

theorem newClass_relabel (h : Heap) (c : ClassRecord) :
    (h.relabel ρ).newClass (c.relabel ρ) = ((h.newClass c).1, (h.newClass c).2.relabel ρ) := by
  simp [newClass, relabel]

theorem newInstance_relabel (h : Heap) (c : Nat) :
    (h.relabel ρ).newInstance c = ((h.newInstance c).1, (h.newInstance c).2.relabel ρ) := rfl

theorem findMethod?_relabel (h : Heap) (c : Nat) (method : String) :
    (h.relabel ρ).findMethod? c method = (h.findMethod? c method).map (Closure.relabel ρ) := by
  induction c using Nat.strongRecOn with
  | _ c ih =>
    unfold findMethod?
    rw [classes_relabel]
    cases h.classes[c]? with
    | none => rfl
    | some record =>
      have hmethod : (record.relabel ρ).methods.find? method =
          (record.methods.find? method).map (Closure.relabel ρ) := Bindings.find?_mapValues ..
      have hsuper : (record.relabel ρ).superclass = record.superclass := rfl
      simp only [Option.map_some, hmethod, hsuper]
      cases record.methods.find? method with
      | some found => rfl
      | none =>
        simp only [Option.map_none]
        split
        · split
          · exact ih _ ‹_›
          · rfl
        · rfl

theorem classArity_relabel (h : Heap) (c : Nat) : (h.relabel ρ).classArity c = h.classArity c := by
  simp only [classArity, initializer?, findMethod?_relabel, Option.map_map]
  congr 2
  funext c
  exact c.arity_relabel

theorem bindMethod_relabel (h : Heap) (method : Closure) (i : Nat) :
    (h.relabel ρ).bindMethod (method.relabel ρ) i =
      ((h.bindMethod method i).1.relabel ρ, (h.bindMethod method i).2.relabel ρ) := rfl

end Heap

@[simp] theorem Value.text_relabel (h : Heap) (v : Value) : v.text (h.relabel ρ) = v.text h := by
  cases v with
  | functionRef i =>
    simp only [text, Heap.functions_relabel, Option.map_map]
    rfl
  | classRef c =>
    simp only [text, Heap.classes_relabel, Option.map_map]
    rfl
  | instanceRef i =>
    have hclass (c : Nat) : ((h.relabel ρ).classes[c]?).map ClassRecord.name =
        h.classes[c]?.map ClassRecord.name := by
      rw [Heap.classes_relabel, Option.map_map]
      rfl
    have hof : (h.relabel ρ).classOf? i = h.classOf? i := rfl
    simp only [text, hof]
    cases h.classOf? i with
    | none => rfl
    | some c => simp [hclass]
  | boolean b => cases b <;> rfl
  | _ => rfl

end LexScript
