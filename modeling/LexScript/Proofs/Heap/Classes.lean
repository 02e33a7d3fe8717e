import LexScript.Proofs.Heap.Growth

/-!
# Chains of superclasses

A class inherits from its superclass, which inherits from its own. The method that a class has under
a name is its own or else the nearest on this chain. In a heap where each superclass is older than
the class, following the chain comes to an end and finds exactly that method.

## Main definitions

* `Heap.Descends` : a class is another one or inherits from it.
* `Heap.Provides` : the method that a class has or inherits.
* `Heap.IsLayered` : superclasses are older, and nothing refers to a class that is not there.

## Main statements

* `Heap.findMethod?_eq_some_iff`, `Heap.findMethod?_eq_none_iff` : what the search for a method
  finds.
* `exists_mem_of_find?_methodTable` : a class has the methods of its declaration.
-/

namespace LexScript

/-- Whether a value refers to something in the heap. -/
def Value.isReference : Value → Bool
  | .functionRef _ | .classRef _ | .instanceRef _ => true
  | .nil | .boolean _ | .number _ | .string _ | .native _ => false

namespace Heap

/-- A class is another one, or its superclass descends from that one. -/
inductive Descends (h : Heap) : Nat → Nat → Prop where
  | refl (c : Nat) : Descends h c c
  | inherit {c s a : Nat} {record : ClassRecord} (hc : h.classes[c]? = some record)
      (hs : record.superclass = some s) (hsuper : Descends h s a) : Descends h c a

/-- The method that a class has under a name: its own or else that of its superclass. -/
inductive Provides (h : Heap) (name : String) : Nat → Closure → Prop where
  | own {c : Nat} {record : ClassRecord} {method : Closure} (hc : h.classes[c]? = some record)
      (hmethod : record.methods.find? name = some method) : Provides h name c method
  | inherited {c s : Nat} {record : ClassRecord} {method : Closure}
      (hc : h.classes[c]? = some record) (hown : record.methods.find? name = none)
      (hs : record.superclass = some s) (hsuper : Provides h name s method) :
      Provides h name c method

/-- The class on the chain of superclasses in which a method is found. -/
def methodOwner? (h : Heap) (c : Nat) (name : String) : Option Nat :=
  match h.classes[c]? with
  | none => none
  | some record =>
    match record.methods.find? name with
    | some _ => some c
    | none =>
      match record.superclass with
      | some s => if s < c then methodOwner? h s name else none
      | none => none
termination_by c

variable {h h' : Heap}

theorem GrowsTo.descends (hg : h.GrowsTo h') {c a : Nat} (hc : h.Descends c a) :
    h'.Descends c a := by
  induction hc with
  | refl c => exact .refl c
  | inherit hc hs _ ih => exact .inherit (hg.classes _ _ hc) hs ih

theorem Descends.trans {c d e : Nat} (hd : h.Descends c d) (he : h.Descends d e) :
    h.Descends c e := by
  induction hd with
  | refl => exact he
  | inherit hc hs _ ih => exact .inherit hc hs (ih he)

/-- A method that is found belongs to a class on the chain. -/
theorem exists_owner_of_findMethod? {c : Nat} {name : String} {method : Closure}
    (hfind : h.findMethod? c name = some method) :
    ∃ owner record, h.methodOwner? c name = some owner ∧ h.Descends c owner ∧
      h.classes[owner]? = some record ∧ record.methods.find? name = some method := by
  induction c using Nat.strongRecOn with
  | ind c ih =>
    rw [findMethod?] at hfind
    rw [methodOwner?]
    cases hc : h.classes[c]? with
    | none =>
      rw [hc] at hfind
      cases hfind
    | some record =>
      simp only [hc] at hfind ⊢
      cases hown : record.methods.find? name with
      | some own =>
        simp only [hown] at hfind ⊢
        exact ⟨c, record, rfl, .refl c, hc, hown.trans hfind⟩
      | none =>
        simp only [hown] at hfind ⊢
        cases hs : record.superclass with
        | none => simp [hs] at hfind
        | some s =>
          simp only [hs] at hfind ⊢
          by_cases hlt : s < c
          · simp only [hlt, if_true] at hfind ⊢
            obtain ⟨owner, record', howner, hdescends, hrest⟩ := ih s hlt hfind
            exact ⟨owner, record', howner, .inherit hc hs hdescends, hrest⟩
          · simp [hlt] at hfind

/-- The search for a method looks at classes only. -/
theorem findMethod?_congr (hclasses : h'.classes = h.classes) (c : Nat) (name : String) :
    h'.findMethod? c name = h.findMethod? c name := by
  induction c using Nat.strongRecOn with
  | ind c ih =>
    rw [findMethod?, findMethod?, hclasses]
    split
    · rfl
    · split
      · rfl
      · split
        · split
          · next hlt => exact ih _ hlt
          · rfl
        · rfl

/-! ### Heaps in layers -/

/-- A value that refers to a class refers to one that there is. -/
def Holds (h : Heap) : Value → Prop
  | .classRef c => c < h.classes.size
  | _ => True

/-- Each superclass is older than the class, and nothing refers to a class that is not there. -/
structure IsLayered (h : Heap) : Prop where
  superclass : ∀ (c : Nat) record s, h.classes[c]? = some record → record.superclass = some s →
    s < c
  bound : ∀ f x v, h.frames.find? f x = some v → h.Holds v
  fields : ∀ i name v, h.field? i name = some v → h.Holds v

theorem IsLayered.findMethod?_eq (hl : h.IsLayered) {c : Nat} {record : ClassRecord}
    (hc : h.classes[c]? = some record) (name : String) :
    h.findMethod? c name =
      (record.methods.find? name).or (record.superclass.bind (h.findMethod? · name)) := by
  rw [findMethod?]
  simp only [hc]
  cases record.methods.find? name with
  | some own => rfl
  | none =>
    cases hs : record.superclass with
    | none => rfl
    | some s => simp [hl.superclass c record s hc hs]

/-- The search for a method finds what the class has under the name. -/
theorem IsLayered.findMethod?_eq_some_iff (hl : h.IsLayered) {c : Nat} {name : String}
    {method : Closure} : h.findMethod? c name = some method ↔ h.Provides name c method := by
  constructor
  · intro hfind
    induction c using Nat.strongRecOn with
    | ind c ih =>
      cases hc : h.classes[c]? with
      | none =>
        rw [findMethod?, hc] at hfind
        cases hfind
      | some record =>
        rw [hl.findMethod?_eq hc] at hfind
        cases hown : record.methods.find? name with
        | some own =>
          rw [hown, Option.some_or] at hfind
          exact .own hc (hown.trans hfind)
        | none =>
          rw [hown, Option.none_or] at hfind
          obtain ⟨s, hs, hfind⟩ := Option.bind_eq_some_iff.1 hfind
          exact .inherited hc hown hs (ih s (hl.superclass c record s hc hs) hfind)
  · intro hprovides
    induction hprovides with
    | own hc hmethod => rw [hl.findMethod?_eq hc, hmethod, Option.some_or]
    | inherited hc hown hs _ ih =>
      rw [hl.findMethod?_eq hc, hown, hs, Option.none_or, Option.bind_some, ih]

/-- The search finds nothing only if no class on the chain has a method of the name. -/
theorem IsLayered.findMethod?_eq_none_iff (hl : h.IsLayered) {c : Nat} {name : String} :
    h.findMethod? c name = none ↔
      ∀ a record, h.Descends c a → h.classes[a]? = some record →
        record.methods.find? name = none := by
  constructor
  · intro hfind a record hdescends
    induction hdescends with
    | refl c =>
      intro hc
      rw [hl.findMethod?_eq hc] at hfind
      exact (Option.or_eq_none_iff.1 hfind).1
    | @inherit c s a _ hc hs _ ih =>
      rw [hl.findMethod?_eq hc, hs, Option.bind_some] at hfind
      exact ih (Option.or_eq_none_iff.1 hfind).2
  · intro hnone
    cases hfind : h.findMethod? c name with
    | none => rfl
    | some method =>
      obtain ⟨owner, record, -, hdescends, hc, hmethod⟩ := exists_owner_of_findMethod? hfind
      rw [hnone owner record hdescends hc] at hmethod
      cases hmethod

/-! ### Changes -/

theorem holds_of_isReference_eq_false {v : Value} (hv : v.isReference = false) : h.Holds v := by
  cases v with
  | classRef c => cases hv
  | _ => trivial

theorem GrowsTo.holds (hg : h.GrowsTo h') {v : Value} (hv : h.Holds v) : h'.Holds v := by
  cases v with
  | classRef c =>
    have hc := hg.classes c _ (Array.getElem?_eq_getElem hv)
    exact (Array.getElem?_eq_some_iff.1 hc).1
  | _ => trivial

/-- Frames that bind what is held. -/
theorem IsLayered.withFrames (hl : h.IsLayered) {frames : Frames Value}
    (hframes : ∀ f x v, frames.find? f x = some v → h.Holds v) :
    { h with frames := frames }.IsLayered := ⟨hl.superclass, hframes, hl.fields⟩

theorem IsLayered.newFrame (hl : h.IsLayered) (outer : Nat) : (h.newFrame outer).2.IsLayered := by
  refine hl.withFrames fun f x v hfind ↦ ?_
  rw [Frames.find?_push] at hfind
  exact hl.bound f x v hfind

theorem IsLayered.define (hl : h.IsLayered) (f : Nat) (x : Name) {v : Value} (hv : h.Holds v) :
    (h.define f x v).IsLayered := by
  refine hl.withFrames fun g y w hfind ↦ ?_
  rw [Frames.find?_define] at hfind
  split at hfind
  · cases hfind
    exact hv
  · exact hl.bound g y w hfind

theorem IsLayered.bindParams (f : Nat) (params : List Ident) {arguments : List Value} :
    ∀ {h : Heap}, h.IsLayered → (∀ v ∈ arguments, h.Holds v) →
      (Run.bindParams f params arguments h).IsLayered := by
  induction params generalizing arguments with
  | nil => exact fun hl _ ↦ hl
  | cons x params ih =>
    intro h hl hvs
    cases arguments with
    | nil => exact hl
    | cons v arguments =>
      rw [List.forall_mem_cons] at hvs
      exact ih (hl.define f x.name hvs.1) hvs.2

theorem IsLayered.bindMethod (hl : h.IsLayered) (method : Closure) (i : Nat) :
    (h.bindMethod method i).2.IsLayered := (hl.newFrame method.frame).define _ .this trivial

theorem IsLayered.newFunction (hl : h.IsLayered) (c : Closure) :
    (h.newFunction c).2.IsLayered := ⟨hl.superclass, hl.bound, hl.fields⟩

theorem IsLayered.newClass (hl : h.IsLayered) {record : ClassRecord}
    (hs : ∀ s, record.superclass = some s → s < h.classes.size) :
    (h.newClass record).2.IsLayered := by
  have hg := h.growsTo_newClass record
  refine ⟨fun c record' s hc hsuper ↦ ?_, fun f x v hfind ↦ hg.holds (hl.bound f x v hfind),
    fun i name v hfind ↦ hg.holds (hl.fields i name v hfind)⟩
  simp only [Heap.newClass, Array.getElem?_push] at hc
  split at hc
  · cases hc
    have := hs s hsuper
    omega
  · exact hl.superclass c record' s hc hsuper

theorem IsLayered.newInstance (hl : h.IsLayered) (c : Nat) :
    (h.newInstance c).2.IsLayered := by
  refine ⟨hl.superclass, hl.bound, fun i name v hfind ↦ ?_⟩
  simp only [Heap.newInstance, field?, Array.getElem?_push] at hfind
  split at hfind
  · cases hfind
  · exact hl.fields i name v hfind

theorem eq_or_field?_of_setField {i : Nat} {name : String} {v : Value} {j : Nat} {other : String}
    {w : Value} (hw : (h.setField i name v).field? j other = some w) :
    w = v ∨ h.field? j other = some w := by
  simp only [Heap.setField, field?, Array.getElem?_modify] at hw
  split at hw
  · obtain ⟨record, hrecord, hfind⟩ := Option.bind_eq_some_iff.1 hw
    obtain ⟨record', hrecord', rfl⟩ := Option.map_eq_some_iff.1 hrecord
    rw [Bindings.find?_put] at hfind
    split at hfind
    · cases hfind
      exact .inl rfl
    · exact .inr (Option.bind_eq_some_iff.2 ⟨record', hrecord', hfind⟩)
  · exact .inr hw

theorem IsLayered.setField (hl : h.IsLayered) (i : Nat) (name : String) {v : Value}
    (hv : h.Holds v) : (h.setField i name v).IsLayered := by
  refine ⟨hl.superclass, hl.bound, fun j y w hfind ↦ ?_⟩
  rcases eq_or_field?_of_setField hfind with rfl | hold
  · exact hv
  · exact hl.fields j y w hold

end Heap

/-! ### Declared methods -/

private theorem find?_foldl_addMethod {f : Nat} {name : String} {method : Closure}
    (methods : List FunctionDecl) (table : Bindings String Closure)
    (hfind : (methods.foldl (Run.addMethod f) table).find? name = some method) :
    (∃ decl ∈ methods, decl.name.text = name ∧
      method = ⟨some name, decl.params, decl.body, f, decl.isInitializer⟩) ∨
      table.find? name = some method := by
  induction methods generalizing table with
  | nil => exact .inr hfind
  | cons decl methods ih =>
    rw [List.foldl_cons] at hfind
    rcases ih _ hfind with ⟨decl', hmem, hrest⟩ | hfind
    · exact .inl ⟨decl', List.mem_cons_of_mem _ hmem, hrest⟩
    · rw [Run.addMethod, Bindings.find?_put] at hfind
      split at hfind
      · next heq =>
        cases hfind
        exact .inl ⟨decl, List.mem_cons_self, heq.symm, by rw [heq]⟩
      · exact .inr hfind

/-- A method in the table of a class is one of its declaration. -/
theorem exists_mem_of_find?_methodTable {f : Nat} {methods : List FunctionDecl} {name : String}
    {method : Closure} (hfind : (Run.methodTable f methods).find? name = some method) :
    ∃ decl ∈ methods, decl.name.text = name ∧
      method = ⟨some name, decl.params, decl.body, f, decl.isInitializer⟩ := by
  rcases find?_foldl_addMethod methods .empty hfind with hdecl | hempty
  · exact hdecl
  · cases hempty

end LexScript
