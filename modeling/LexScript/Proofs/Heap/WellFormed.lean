import LexScript.Proofs.Heap.Chains
import LexScript.Proofs.Heap.Classes
import Mathlib.Logic.Relation

/-!
# Heaps that are well formed

Frames, functions, classes and instances refer to each other in circles: a function is bound in the
frame in which it lies. Two kinds of links never lead back, that from a frame to the one around it
and that from a class to its superclass. Both are given with the creation and lead to something
older, so whatever follows them comes to an end.

The changes that programs make to a heap are few, and each of them leaves a well-formed heap well
formed and keeps every link that is there.

## Main definitions

* `Heap.Has` : what a value refers to is there.
* `Heap.IsWellFormed` : everything that is referred to is there, and links lead to what is older.
* `Heap.Step`, `Heap.Evolves` : one change, and any number of them.
* `Frames.Searches`, `Heap.SearchesMethod` : the searches as they follow the links.

## Main statements

* `Heap.Evolves.isWellFormed`, `Heap.Evolves.growsTo` : what changes keep.
* `Heap.IsWellFormed.searches`, `Heap.IsWellFormed.searchesMethod`,
  `Heap.IsWellFormed.exists_ancestor?_eq_globals` : following links comes to an end.
-/

namespace LexScript

/-! ### Following links -/

/-- The search for the nearest frame that binds a name: it looks at a frame and, if the name is not
bound there, goes on with the frame around it. It ends with that frame, or with none behind the last
one. -/
inductive Frames.Searches {α : Type} (fs : Frames α) (x : Name) : Nat → Option Nat → Prop where
  | here {f : Nat} (hbinds : fs.binds f x = true) : Searches fs x f (some f)
  | outward {f outer : Nat} {found : Option Nat} (hbinds : fs.binds f x = false)
      (hlink : fs.enclosing? f = some outer) (hrest : Searches fs x outer found) :
      Searches fs x f found
  | nowhere {f : Nat} (hbinds : fs.binds f x = false) (hlink : fs.enclosing? f = none) :
      Searches fs x f none

namespace Heap

/-- The search for a method: it looks at the table of a class and, if no method of the name is
there, goes on with the superclass. It ends with the method, or with none behind the last class. -/
inductive SearchesMethod (h : Heap) (name : String) : Nat → Option Closure → Prop where
  | own {c : Nat} {record : ClassRecord} {method : Closure} (hc : h.classes[c]? = some record)
      (hmethod : record.methods.find? name = some method) : SearchesMethod h name c (some method)
  | upward {c s : Nat} {record : ClassRecord} {found : Option Closure}
      (hc : h.classes[c]? = some record) (hown : record.methods.find? name = none)
      (hlink : record.superclass = some s) (hrest : SearchesMethod h name s found) :
      SearchesMethod h name c found
  | nowhere {c : Nat} {record : ClassRecord} (hc : h.classes[c]? = some record)
      (hown : record.methods.find? name = none) (hlink : record.superclass = none) :
      SearchesMethod h name c none

/-! ### What is there -/

/-- The function, the class or the instance that a value refers to is there. -/
def Has (h : Heap) : Value → Prop
  | .functionRef i => i < h.functions.size
  | .classRef c => c < h.classes.size
  | .instanceRef i => i < h.instances.size
  | .nil | .boolean _ | .number _ | .string _ | .native _ => True

/-- The globals are the outermost frame, every other frame lies in an older one, every superclass is
older than the class, and whatever a binding, a field, a function, a method or an instance refers to
is there. -/
structure IsWellFormed (h : Heap) : Prop where
  globals : Frames.globals < h.frames.size
  outermost : h.frames.enclosing? Frames.globals = none
  enclosing : ∀ f < h.frames.size, f ≠ Frames.globals →
    ∃ outer < f, h.frames.enclosing? f = some outer
  bindings : ∀ f x v, h.frames.find? f x = some v → h.Has v
  functions : ∀ (i : Nat) c, h.functions[i]? = some c → c.frame < h.frames.size
  superclasses : ∀ (c : Nat) record s, h.classes[c]? = some record →
    record.superclass = some s → s < c
  methods : ∀ (c : Nat) record, h.classes[c]? = some record → ∀ name method,
    record.methods.find? name = some method → method.frame < h.frames.size
  instances : ∀ i c, h.classOf? i = some c → c < h.classes.size
  fields : ∀ i name v, h.field? i name = some v → h.Has v

variable {h h' h'' : Heap}

theorem lt_size_of_classOf? {i c : Nat} (hc : h.classOf? i = some c) : i < h.instances.size := by
  obtain ⟨record, hrecord, -⟩ := Option.map_eq_some_iff.1 hc
  exact (Array.getElem?_eq_some_iff.1 hrecord).1

theorem exists_classOf? {i : Nat} (hi : i < h.instances.size) : ∃ c, h.classOf? i = some c :=
  ⟨_, by rw [classOf?, Array.getElem?_eq_getElem hi, Option.map_some]⟩

/-- What is there stays there. -/
theorem GrowsTo.has (hg : h.GrowsTo h') {v : Value} (hv : h.Has v) : h'.Has v := by
  cases v with
  | functionRef i =>
    have hi := hg.functions i _ (Array.getElem?_eq_getElem hv)
    exact (Array.getElem?_eq_some_iff.1 hi).1
  | classRef c =>
    have hc := hg.classes c _ (Array.getElem?_eq_getElem hv)
    exact (Array.getElem?_eq_some_iff.1 hc).1
  | instanceRef i =>
    obtain ⟨c, hc⟩ := exists_classOf? hv
    exact lt_size_of_classOf? (hg.classOf i c hc)
  | _ => trivial

theorem has_nil : h.Has .nil := trivial

theorem has_of_isReference_eq_false {v : Value} (hv : v.isReference = false) : h.Has v := by
  cases v with
  | functionRef i => cases hv
  | classRef c => cases hv
  | instanceRef i => cases hv
  | _ => trivial

theorem has_withFrames (frames : Frames Value) (v : Value) :
    { h with frames := frames }.Has v ↔ h.Has v := by
  cases v <;> rfl

/-! ### Searches that end -/

/-- Following the links from a frame outward leads to the globals, and no further. -/
theorem IsWellFormed.exists_ancestor?_eq_globals (hw : h.IsWellFormed) {f : Nat}
    (hf : f < h.frames.size) :
    ∃ d, h.frames.ancestor? f d = some Frames.globals ∧ h.frames.ancestor? f (d + 1) = none := by
  induction f using Nat.strongRecOn with
  | ind f ih =>
    by_cases hglobals : f = Frames.globals
    · subst hglobals
      exact ⟨0, rfl, by simp only [Frames.ancestor?, hw.outermost]⟩
    · obtain ⟨outer, hlt, hlink⟩ := hw.enclosing f hf hglobals
      obtain ⟨d, hd, hlast⟩ := ih outer hlt (Nat.lt_trans hlt hf)
      refine ⟨d + 1, ?_, ?_⟩
      · simpa only [Frames.ancestor?, hlink] using hd
      · rw [Frames.ancestor?]
        simpa only [hlink] using hlast

/-- The links between the frames of a well-formed heap lead to older ones. -/
theorem IsWellFormed.isAcyclic (hw : h.IsWellFormed) : h.frames.IsAcyclic := by
  refine Frames.isAcyclic_of_lt fun f outer hlink ↦ ?_
  by_cases hglobals : f = Frames.globals
  · rw [hglobals, hw.outermost] at hlink
    cases hlink
  · obtain ⟨outer', hlt, hlink'⟩ := hw.enclosing f (h.frames.lt_size_of_enclosing? hlink) hglobals
    cases hlink.symm.trans hlink'
    exact hlt

/-- The search for a name ends, and finds what is said of it. -/
theorem IsWellFormed.searches (hw : h.IsWellFormed) {f : Nat} (hf : f < h.frames.size) (x : Name) :
    h.frames.Searches x f (h.frames.owner? f x) := by
  induction f using Nat.strongRecOn with
  | ind f ih =>
    rw [hw.isAcyclic.owner?_eq]
    cases hbinds : h.frames.binds f x with
    | true => exact .here hbinds
    | false =>
      by_cases hglobals : f = Frames.globals
      · subst hglobals
        simp only [hw.outermost, Bool.false_eq_true, if_false, Option.bind_none]
        exact .nowhere hbinds hw.outermost
      · obtain ⟨outer, hlt, hlink⟩ := hw.enclosing f hf hglobals
        simp only [hlink, Bool.false_eq_true, if_false, Option.bind_some]
        exact .outward hbinds hlink (ih outer hlt (Nat.lt_trans hlt hf))

/-- The search for a method ends, and finds what is said of it. -/
theorem IsWellFormed.searchesMethod (hw : h.IsWellFormed) {c : Nat} (hc : c < h.classes.size)
    (name : String) : h.SearchesMethod name c (h.findMethod? c name) := by
  induction c using Nat.strongRecOn with
  | ind c ih =>
    have hrecord := Array.getElem?_eq_getElem hc
    rw [findMethod?]
    simp only [hrecord]
    cases hown : h.classes[c].methods.find? name with
    | some method => exact .own hrecord hown
    | none =>
      cases hlink : h.classes[c].superclass with
      | none => exact .nowhere hrecord hown hlink
      | some s =>
        have hlt := hw.superclasses c _ s hrecord hlink
        simp only [hlt, if_true]
        exact .upward hrecord hown hlink (ih s hlt (Nat.lt_trans hlt hc))

/-- A method that is found lies in a frame that is there. -/
theorem IsWellFormed.lt_size_of_findMethod? (hw : h.IsWellFormed) {c : Nat} {name : String}
    {method : Closure} (hfind : h.findMethod? c name = some method) :
    method.frame < h.frames.size := by
  obtain ⟨owner, record, -, -, hrecord, hmethod⟩ := exists_owner_of_findMethod? hfind
  exact hw.methods owner record hrecord name method hmethod

/-! ### Changes -/

/-- A change that a program makes to a heap. What it refers to is there. -/
inductive Step : Heap → Heap → Prop where
  | newFrame {h : Heap} {outer : Nat} (houter : outer < h.frames.size) :
      Step h (h.newFrame outer).2
  /-- A frame that binds `this` or `super` is made together with its binding. -/
  | newFrameWith {h : Heap} {outer : Nat} (x : Name) {v : Value} (houter : outer < h.frames.size)
      (hv : h.Has v) : Step h ((h.newFrame outer).2.define h.frames.size x v)
  | define {h : Heap} (f : Nat) (x : Ident) {v : Value} (hv : h.Has v) :
      Step h (h.define f x.name v)
  | newFunction {h : Heap} {c : Closure} (hc : c.frame < h.frames.size) :
      Step h (h.newFunction c).2
  | newClass {h : Heap} {record : ClassRecord}
      (hsuper : ∀ s, record.superclass = some s → s < h.classes.size)
      (hmethods : ∀ name method, record.methods.find? name = some method →
        method.frame < h.frames.size) : Step h (h.newClass record).2
  | newInstance {h : Heap} {c : Nat} (hc : c < h.classes.size) : Step h (h.newInstance c).2
  | setField {h : Heap} (i : Nat) (name : String) {v : Value} (hv : h.Has v) :
      Step h (h.setField i name v)

theorem Step.growsTo (hs : Step h h') : h.GrowsTo h' := by
  cases hs with
  | newFrame => exact h.growsTo_newFrame _
  | newFrameWith x => exact h.growsTo_newFrame_define _ x _
  | define f x => exact h.growsTo_define f x _
  | newFunction => exact h.growsTo_newFunction _
  | newClass => exact h.growsTo_newClass _
  | newInstance => exact h.growsTo_newInstance _
  | setField i name => exact h.growsTo_setField i name _

/-- Frames of which more are there, with the same links, and which bind what is there. -/
theorem IsWellFormed.withFrames (hw : h.IsWellFormed) {frames : Frames Value}
    (hsize : h.frames.size ≤ frames.size)
    (houtermost : frames.enclosing? Frames.globals = none)
    (henclosing : ∀ f < frames.size, f ≠ Frames.globals →
      ∃ outer < f, frames.enclosing? f = some outer)
    (hbindings : ∀ f x v, frames.find? f x = some v → h.Has v) :
    { h with frames := frames }.IsWellFormed where
  globals := Nat.lt_of_lt_of_le hw.globals hsize
  outermost := houtermost
  enclosing := henclosing
  bindings f x v hv := (has_withFrames frames v).2 (hbindings f x v hv)
  functions i c hc := Nat.lt_of_lt_of_le (hw.functions i c hc) hsize
  superclasses := hw.superclasses
  methods c record hc name method hm :=
    Nat.lt_of_lt_of_le (hw.methods c record hc name method hm) hsize
  instances := hw.instances
  fields i name v hv := (has_withFrames frames v).2 (hw.fields i name v hv)

theorem IsWellFormed.newFrame (hw : h.IsWellFormed) {outer : Nat} (houter : outer < h.frames.size) :
    (h.newFrame outer).2.IsWellFormed := by
  refine hw.withFrames (by simp) ?_ (fun f hf hglobals ↦ ?_) fun f x v hv ↦ ?_
  · rw [Frames.enclosing?_push, if_neg (Nat.ne_of_lt hw.globals)]
    exact hw.outermost
  · rw [Frames.size_push] at hf
    rw [Frames.enclosing?_push]
    split
    · next hnew => exact ⟨outer, hnew ▸ houter, rfl⟩
    · next hold => exact hw.enclosing f (by omega) hglobals
  · rw [Frames.find?_push] at hv
    exact hw.bindings f x v hv

theorem IsWellFormed.define (hw : h.IsWellFormed) (f : Nat) (x : Name) {v : Value} (hv : h.Has v) :
    (h.define f x v).IsWellFormed := by
  refine hw.withFrames (by simp) ?_ (fun g hg hglobals ↦ ?_) fun g y w hw' ↦ ?_
  · rw [Frames.enclosing?_define]
    exact hw.outermost
  · rw [Frames.size_define] at hg
    rw [Frames.enclosing?_define]
    exact hw.enclosing g hg hglobals
  · rw [Frames.find?_define] at hw'
    split at hw'
    · cases hw'
      exact hv
    · exact hw.bindings g y w hw'

theorem IsWellFormed.newFunction (hw : h.IsWellFormed) {c : Closure}
    (hc : c.frame < h.frames.size) : (h.newFunction c).2.IsWellFormed := by
  have hg := h.growsTo_newFunction c
  refine { hw with
    bindings := fun f x v hv ↦ hg.has (hw.bindings f x v hv)
    functions := fun i c' hc' ↦ ?_
    fields := fun i name v hv ↦ hg.has (hw.fields i name v hv) }
  rw [Heap.newFunction, Array.getElem?_push] at hc'
  split at hc'
  · cases hc'
    exact hc
  · exact hw.functions i c' hc'

theorem IsWellFormed.newClass (hw : h.IsWellFormed) {record : ClassRecord}
    (hsuper : ∀ s, record.superclass = some s → s < h.classes.size)
    (hmethods : ∀ name method, record.methods.find? name = some method →
      method.frame < h.frames.size) : (h.newClass record).2.IsWellFormed := by
  have hg := h.growsTo_newClass record
  refine { hw with
    bindings := fun f x v hv ↦ hg.has (hw.bindings f x v hv)
    superclasses := fun c record' s hc ↦ ?_
    methods := fun c record' hc ↦ ?_
    instances := fun i c hc ↦ ?_
    fields := fun i name v hv ↦ hg.has (hw.fields i name v hv) }
  · rw [Heap.newClass, Array.getElem?_push] at hc
    split at hc
    · next hnew =>
      cases hc
      exact fun hs ↦ hnew ▸ hsuper s hs
    · exact hw.superclasses c record' s hc
  · rw [Heap.newClass, Array.getElem?_push] at hc
    split at hc
    · cases hc
      exact hmethods
    · exact hw.methods c record' hc
  · have hold := hw.instances i c hc
    simp only [Heap.newClass, Array.size_push]
    omega

theorem IsWellFormed.newInstance (hw : h.IsWellFormed) {c : Nat} (hc : c < h.classes.size) :
    (h.newInstance c).2.IsWellFormed := by
  have hg := h.growsTo_newInstance c
  refine { hw with
    bindings := fun f x v hv ↦ hg.has (hw.bindings f x v hv)
    instances := fun i c' hc' ↦ ?_
    fields := fun i name v hv ↦ hg.has ?_ }
  · rw [Heap.newInstance, classOf?, Array.getElem?_push] at hc'
    split at hc'
    · cases hc'
      exact hc
    · exact hw.instances i c' hc'
  · rw [Heap.newInstance, field?, Array.getElem?_push] at hv
    split at hv
    · cases hv
    · exact hw.fields i name v hv

theorem IsWellFormed.setField (hw : h.IsWellFormed) (i : Nat) (name : String) {v : Value}
    (hv : h.Has v) : (h.setField i name v).IsWellFormed := by
  have hg := h.growsTo_setField i name v
  refine { hw with
    bindings := fun f x w hw' ↦ hg.has (hw.bindings f x w hw')
    instances := fun j c hc ↦ ?_
    fields := fun j other w hw' ↦ hg.has ?_ }
  · rw [classOf?_setField] at hc
    exact hw.instances j c hc
  · rcases eq_or_field?_of_setField hw' with rfl | hold
    · exact hv
    · exact hw.fields j other w hold

theorem Step.isWellFormed (hs : Step h h') (hw : h.IsWellFormed) : h'.IsWellFormed := by
  cases hs with
  | newFrame houter => exact hw.newFrame houter
  | newFrameWith x houter hv =>
    exact (hw.newFrame houter).define _ x ((has_withFrames _ _).2 hv)
  | define f x hv => exact hw.define f x.name hv
  | newFunction hc => exact hw.newFunction hc
  | newClass hsuper hmethods => exact hw.newClass hsuper hmethods
  | newInstance hc => exact hw.newInstance hc
  | setField i name hv => exact hw.setField i name hv

/-! ### Any number of changes -/

/-- A heap comes from another one by changes that programs make. -/
def Evolves : Heap → Heap → Prop := Relation.ReflTransGen Step

theorem Evolves.refl (h : Heap) : h.Evolves h := Relation.ReflTransGen.refl

theorem Evolves.trans (hs : h.Evolves h') (hs' : h'.Evolves h'') : h.Evolves h'' :=
  Relation.ReflTransGen.trans hs hs'

theorem Step.evolves (hs : Step h h') : h.Evolves h' := Relation.ReflTransGen.single hs

/-- No change takes away what is there, and no link is changed. -/
theorem Evolves.growsTo (hs : h.Evolves h') : h.GrowsTo h' := by
  induction hs with
  | refl => exact .refl h
  | tail _ hstep ih => exact ih.trans hstep.growsTo

/-- Every heap that changes lead to is well formed. -/
theorem Evolves.isWellFormed (hs : h.Evolves h') (hw : h.IsWellFormed) : h'.IsWellFormed := by
  induction hs with
  | refl => exact hw
  | tail _ hstep ih => exact hstep.isWellFormed ih

theorem evolves_bindParams (f : Nat) (params : List Ident) {arguments : List Value} {h : Heap}
    (harguments : ∀ v ∈ arguments, h.Has v) :
    h.Evolves (Run.bindParams f params arguments h) := by
  induction params generalizing arguments h with
  | nil => exact .refl h
  | cons x params ih =>
    cases arguments with
    | nil => exact .refl h
    | cons v arguments =>
      rw [List.forall_mem_cons] at harguments
      have hstep : Step h (h.define f x.name v) := .define f x harguments.1
      exact hstep.evolves.trans (ih fun v hv ↦ hstep.growsTo.has (harguments.2 v hv))

theorem isWellFormed_initial : Heap.initial.IsWellFormed := by
  have hempty (f : Nat) (x : Name) : (Frames.initial : Frames Value).find? f x = none := by
    cases f <;> rfl
  refine ⟨Nat.zero_lt_one, rfl, fun f hf hglobals ↦ absurd (Nat.lt_one_iff.1 hf) hglobals,
    fun f x v hv ↦ ?_, fun i c hc ↦ ?_, fun c record s hc ↦ ?_, fun c record hc ↦ ?_,
    fun i c hc ↦ ?_, fun i name v hv ↦ ?_⟩
  · rw [Heap.initial, Frames.find?_define, hempty] at hv
    split at hv
    · cases hv
      trivial
    · cases hv
  · exact absurd hc (by simp [Heap.initial])
  · exact absurd hc (by simp [Heap.initial])
  · exact absurd hc (by simp [Heap.initial])
  · exact absurd hc (by simp [Heap.initial, classOf?])
  · exact absurd hv (by simp [Heap.initial, field?])

end Heap

end LexScript
