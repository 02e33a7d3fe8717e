import LexScript.Proofs.Heap.Chains
import LexScript.Proofs.Heap.Growth
import LexScript.Proofs.Renaming.Programs

/-!
# Heaps with renamed variables

A frame is marked if it was made for a marked scope. A program and a renamed one create the same
frames, functions, classes and instances in the same order; a marked frame of the renamed program
binds under the new name what the other one binds under the old name, and the code of functions is
renamed. Values are references and so the same in both.

The uses in the code of a function can only be renamed consistently if the frames around it have the
marks of the scopes around it. These are the marks along the chain of frames, as far as the globals.

## Main definitions

* `Frames.HasMarks` : the marks along a chain of frames.
* `Heap.RenamesTo` : a heap of a renamed program.

## Main statements

* `Heap.RenamesTo.find?_ancestor?`, `Heap.RenamesTo.ownerAt?` : access by distance is renamed with
  the frame at the distance.
-/

namespace LexScript

variable {ρ : Renaming} {σ σ' : Nat → Bool} {mark : Bool} {marks inner : List Bool}

/-! ### Marked frames -/

/-- The frames from one outward are marked as listed, as far as the globals. -/
def Frames.HasMarks (fs : Frames Value) (σ : Nat → Bool) : List Bool → Nat → Prop
  | [], f => f = globals
  | mark :: marks, f =>
    σ f = mark ∧ ∃ outer, fs.enclosing? f = some outer ∧ fs.HasMarks σ marks outer

/-- More frames are marked, and those from before as they were. -/
structure MarksMore (fs : Frames Value) (σ : Nat → Bool) (fs' : Frames Value) (σ' : Nat → Bool) :
    Prop where
  marks : ∀ f < fs.size, σ' f = σ f
  enclosing : ∀ f < fs.size, fs'.enclosing? f = fs.enclosing? f

variable {fs fs' : Frames Value}

theorem MarksMore.newFrame (h : Heap) (σ : Nat → Bool) (outer : Nat) (mark : Bool) :
    MarksMore h.frames σ (h.newFrame outer).2.frames (Function.update σ h.frames.size mark) :=
  ⟨fun _ hf ↦ Function.update_of_ne (Nat.ne_of_lt hf) _ _, (h.growsTo_newFrame outer).enclosing⟩

theorem Frames.HasMarks.mono {f : Nat} (h : fs.HasMarks σ marks f)
    (hmore : MarksMore fs σ fs' σ') : fs'.HasMarks σ' marks f := by
  induction marks generalizing f with
  | nil => exact h
  | cons mark marks ih =>
    obtain ⟨hmark, outer, houter, hrest⟩ := h
    have hf := fs.lt_size_of_enclosing? houter
    exact ⟨(hmore.marks f hf).trans hmark, outer, (hmore.enclosing f hf).trans houter, ih hrest⟩

/-- The frame at a distance has the mark at this distance. -/
theorem Frames.HasMarks.mark_ancestor? (hglobals : σ Frames.globals = false)
    (houtermost : fs.enclosing? Frames.globals = none) {f g distance : Nat}
    (h : fs.HasMarks σ marks f) (hg : fs.ancestor? f distance = some g) :
    marks.getD distance false = σ g := by
  induction marks generalizing f distance with
  | nil =>
    cases h
    cases distance with
    | zero =>
      cases hg
      exact hglobals.symm
    | succ distance =>
      rw [Frames.ancestor?, houtermost] at hg
      cases hg
  | cons mark marks ih =>
    obtain ⟨hmark, outer, houter, hrest⟩ := h
    cases distance with
    | zero =>
      cases hg
      exact hmark.symm
    | succ distance =>
      rw [Frames.ancestor?, houter] at hg
      exact ih hrest hg

theorem Frames.HasMarks.headD (hglobals : σ Frames.globals = false) {f : Nat}
    (h : fs.HasMarks σ marks f) : marks.headD false = σ f := by
  cases marks with
  | nil =>
    cases h
    exact hglobals.symm
  | cons mark marks => exact h.1.symm

/-! ### Functions and classes -/

/-- The code of a function becomes other code, inside scopes with the given marks. -/
structure Closure.RenamesTo (ρ : Renaming) (marks : List Bool) (c c' : Closure) : Prop where
  name : c'.name = c.name
  frame : c'.frame = c.frame
  isInitializer : c'.isInitializer = c.isInitializer
  exists_mark : ∃ mark, c'.params = c.params.map (ρ.ident mark) ∧
    RenamesProgramTo ρ (mark :: marks) c.body c'.body

/-- The code of a function becomes other code inside the scopes of the frames around it and of
frames that are still to be made. -/
def Closure.RenamesIn (ρ : Renaming) (fs : Frames Value) (σ : Nat → Bool) (inner : List Bool)
    (c c' : Closure) : Prop :=
  ∃ marks, fs.HasMarks σ marks c.frame ∧ c.RenamesTo ρ (inner ++ marks) c'

/-- A class becomes another one. A frame that binds `this` is made for a method when it is bound. -/
structure ClassRecord.RenamesIn (ρ : Renaming) (fs : Frames Value) (σ : Nat → Bool)
    (record record' : ClassRecord) : Prop where
  name : record'.name = record.name
  superclass : record'.superclass = record.superclass
  methods : ∀ name, Option.Rel (Closure.RenamesIn ρ fs σ [false]) (record.methods.find? name)
    (record'.methods.find? name)

/-- The heap of a renamed program. -/
structure Heap.RenamesTo (ρ : Renaming) (σ : Nat → Bool) (h h' : Heap) : Prop where
  globals_lt : Frames.globals < h.frames.size
  globals : σ Frames.globals = false
  outermost : h.frames.enclosing? Frames.globals = none
  size_frames : h'.frames.size = h.frames.size
  enclosing : ∀ f, h'.frames.enclosing? f = h.frames.enclosing? f
  find : ∀ f x, h'.frames.find? f (ρ.name (σ f) x) = h.frames.find? f x
  size_functions : h'.functions.size = h.functions.size
  functions : ∀ k : Nat, Option.Rel (Closure.RenamesIn ρ h.frames σ []) h.functions[k]?
    h'.functions[k]?
  size_classes : h'.classes.size = h.classes.size
  classes : ∀ c : Nat, Option.Rel (ClassRecord.RenamesIn ρ h.frames σ) h.classes[c]? h'.classes[c]?
  instances : h'.instances = h.instances

theorem Closure.RenamesIn.mono {c c' : Closure} (h : c.RenamesIn ρ fs σ inner c')
    (hmore : MarksMore fs σ fs' σ') : c.RenamesIn ρ fs' σ' inner c' := by
  obtain ⟨marks, hmarks, hc⟩ := h
  exact ⟨marks, hmarks.mono hmore, hc⟩

theorem Closure.RenamesIn.arity {c c' : Closure} (h : c.RenamesIn ρ fs σ inner c') :
    c'.arity = c.arity := by
  obtain ⟨_, -, hc⟩ := h
  obtain ⟨mark, hparams, -⟩ := hc.exists_mark
  rw [Closure.arity, hparams, List.length_map, Closure.arity]

/-- Related options are related in a weaker sense. -/
theorem optionRel_imp {α β : Type} {R S : α → β → Prop} {a : Option α} {b : Option β}
    (h : Option.Rel R a b) (hRS : ∀ a b, R a b → S a b) : Option.Rel S a b := by
  cases h with
  | some hab => exact .some (hRS _ _ hab)
  | none => exact .none

theorem ClassRecord.RenamesIn.mono {record record' : ClassRecord}
    (h : record.RenamesIn ρ fs σ record') (hmore : MarksMore fs σ fs' σ') :
    record.RenamesIn ρ fs' σ' record' :=
  ⟨h.name, h.superclass, fun name ↦ optionRel_imp (h.methods name) fun _ _ hc ↦ hc.mono hmore⟩

namespace Heap.RenamesTo

variable {h h' : Heap} (hr : h.RenamesTo ρ σ h')
include hr

/-! ### Names -/

theorem ancestor? (f distance : Nat) :
    h'.frames.ancestor? f distance = h.frames.ancestor? f distance :=
  Frames.ancestor?_congr hr.enclosing f distance

theorem binds (f : Nat) (x : Name) :
    h'.frames.binds f (ρ.name (σ f) x) = h.frames.binds f x :=
  congrArg Option.isSome (hr.find f x)

/-- What a frame at a distance binds is renamed with the frame. -/
theorem find?_ancestor? {f : Nat} (hf : h.frames.HasMarks σ marks f) (distance : Nat) (x : Name) :
    ((h'.frames.ancestor? f distance).bind
        (h'.frames.find? · (ρ.name (marks.getD distance false) x))) =
      (h.frames.ancestor? f distance).bind (h.frames.find? · x) := by
  rw [hr.ancestor?]
  cases hg : h.frames.ancestor? f distance with
  | none => rfl
  | some g =>
    rw [hf.mark_ancestor? hr.globals hr.outermost hg]
    exact hr.find g x

theorem ownerAt? {f : Nat} (hf : h.frames.HasMarks σ marks f) (distance : Nat) (x : Name) :
    h'.frames.ownerAt? f distance (ρ.name (marks.getD distance false) x) =
      h.frames.ownerAt? f distance x := by
  unfold Frames.ownerAt?
  rw [hr.ancestor?]
  cases hg : h.frames.ancestor? f distance with
  | none => rfl
  | some g =>
    rw [hf.mark_ancestor? hr.globals hr.outermost hg]
    dsimp only
    rw [hr.binds]

omit hr in
theorem mark_ownerAt? (hr : h.RenamesTo ρ σ h') {f g distance : Nat} {x : Name}
    (hf : h.frames.HasMarks σ marks f) (hg : h.frames.ownerAt? f distance x = some g) :
    marks.getD distance false = σ g := by
  unfold Frames.ownerAt? at hg
  split at hg
  · next g' hg' =>
    split at hg
    · cases hg
      exact hf.mark_ancestor? hr.globals hr.outermost hg'
    · cases hg
  · cases hg

/-- Nothing encloses the globals, so names are searched there alone. -/
theorem owner?_globals (x : Name) : h.frames.owner? Frames.globals x =
    if h.frames.binds Frames.globals x then some Frames.globals else none :=
  h.frames.owner?_of_enclosing?_eq_none hr.globals_lt hr.outermost x

theorem owner?_globals_right (x : Name) :
    h'.frames.owner? Frames.globals x = h.frames.owner? Frames.globals x := by
  have hbinds := hr.binds Frames.globals x
  rw [hr.globals, Renaming.name_false] at hbinds
  have hlt : Frames.globals < h'.frames.size := by
    rw [hr.size_frames]
    exact hr.globals_lt
  rw [hr.owner?_globals, h'.frames.owner?_of_enclosing?_eq_none hlt
    ((hr.enclosing _).trans hr.outermost), hbinds]

/-! ### Changes to frames -/

/-- The frames change, and more of them are marked. -/
theorem withFrames (hle : h.frames.size ≤ fs.size) (hmore : MarksMore h.frames σ fs σ')
    (hsize : fs'.size = fs.size) (henclosing : ∀ f, fs'.enclosing? f = fs.enclosing? f)
    (hfind : ∀ f x, fs'.find? f (ρ.name (σ' f) x) = fs.find? f x) :
    Heap.RenamesTo ρ σ' { h with frames := fs } { h' with frames := fs' } where
  globals_lt := Nat.lt_of_lt_of_le hr.globals_lt hle
  globals := (hmore.marks _ hr.globals_lt).trans hr.globals
  outermost := (hmore.enclosing _ hr.globals_lt).trans hr.outermost
  size_frames := hsize
  enclosing := henclosing
  find := hfind
  size_functions := hr.size_functions
  functions k := optionRel_imp (hr.functions k) fun _ _ hc ↦ hc.mono hmore
  size_classes := hr.size_classes
  classes c := optionRel_imp (hr.classes c) fun _ _ hc ↦ hc.mono hmore
  instances := hr.instances

/-- A new frame can be marked or not. -/
theorem newFrame (outer : Nat) (mark : Bool) :
    (h.newFrame outer).2.RenamesTo ρ (Function.update σ h.frames.size mark)
      (h'.newFrame outer).2 := by
  refine hr.withFrames (by simp) (.newFrame h σ outer mark) ?_ (fun f ↦ ?_) fun f x ↦ ?_
  · rw [Frames.size_push, Frames.size_push, hr.size_frames]
  · rw [Frames.enclosing?_push, Frames.enclosing?_push, hr.size_frames, hr.enclosing]
  · rw [Frames.find?_push, Frames.find?_push]
    by_cases hf : f = h.frames.size
    · subst hf
      rw [h.frames.find?_eq_none_of_size_le (Nat.le_refl _),
        h'.frames.find?_eq_none_of_size_le (Nat.le_of_eq hr.size_frames)]
    · rw [Function.update_of_ne hf]
      exact hr.find f x

/-- A name is bound renamed with its frame. -/
theorem define (f : Nat) (x : Name) (v : Value) :
    (h.define f x v).RenamesTo ρ σ (h'.define f (ρ.name (σ f) x) v) := by
  refine hr.withFrames (by simp) ⟨fun _ _ ↦ rfl, fun g _ ↦ Frames.enclosing?_define ..⟩ ?_
    (fun g ↦ ?_) fun g y ↦ ?_
  · rw [Frames.size_define, Frames.size_define, hr.size_frames]
  · rw [Frames.enclosing?_define, Frames.enclosing?_define, hr.enclosing]
  · rw [Frames.find?_define, Frames.find?_define, hr.size_frames, hr.find]
    by_cases hg : g = f
    · subst hg
      simp only [Renaming.name_inj]
    · rw [if_neg fun hall ↦ hg hall.1, if_neg fun hall ↦ hg hall.1]

theorem bindParams (f : Nat) (xs : List Ident) (vs : List Value) :
    (Run.bindParams f xs vs h).RenamesTo ρ σ
      (Run.bindParams f (xs.map (ρ.ident (σ f))) vs h') := by
  induction xs generalizing vs h h' with
  | nil => exact hr
  | cons x xs ih =>
    cases vs with
    | nil => exact hr
    | cons v vs => exact ih (hr.define f x.name v) vs

/-! ### New functions, classes and instances -/

omit hr in
private theorem rel_push {α : Type} {R : α → α → Prop} {as bs : Array α}
    (hsize : bs.size = as.size) (hab : ∀ k : Nat, Option.Rel R as[k]? bs[k]?) {a b : α}
    (hnew : R a b) (k : Nat) : Option.Rel R (as.push a)[k]? (bs.push b)[k]? := by
  rw [Array.getElem?_push, Array.getElem?_push, hsize]
  split
  · exact .some hnew
  · exact hab k

theorem newFunction {c c' : Closure} (hc : c.RenamesIn ρ h.frames σ [] c') :
    (h.newFunction c).2.RenamesTo ρ σ (h'.newFunction c').2 :=
  { hr with
    size_functions := by simp only [Heap.newFunction, Array.size_push, hr.size_functions]
    functions := rel_push hr.size_functions hr.functions hc }

theorem newClass {record record' : ClassRecord} (hc : record.RenamesIn ρ h.frames σ record') :
    (h.newClass record).2.RenamesTo ρ σ (h'.newClass record').2 :=
  { hr with
    size_classes := by simp only [Heap.newClass, Array.size_push, hr.size_classes]
    classes := rel_push hr.size_classes hr.classes hc }

/-- Instances change in the same way. -/
theorem withInstances (instances : Array InstanceRecord) :
    Heap.RenamesTo ρ σ { h with instances := instances } { h' with instances := instances } :=
  { hr with instances := rfl }

theorem newInstance (c : Nat) : (h.newInstance c).2.RenamesTo ρ σ (h'.newInstance c).2 := by
  have hnew := hr.withInstances (h.newInstance c).2.instances
  simp only [Heap.newInstance] at hnew ⊢
  rwa [hr.instances]

theorem setField (i : Nat) (name : String) (v : Value) :
    (h.setField i name v).RenamesTo ρ σ (h'.setField i name v) := by
  have hset := hr.withInstances (h.setField i name v).instances
  simp only [Heap.setField] at hset ⊢
  rwa [hr.instances]

/-! ### Questions -/

theorem field? (i : Nat) (name : String) : h'.field? i name = h.field? i name := by
  rw [Heap.field?, hr.instances, Heap.field?]

theorem classOf? (i : Nat) : h'.classOf? i = h.classOf? i := by
  rw [Heap.classOf?, hr.instances, Heap.classOf?]

theorem findMethod? (c : Nat) (name : String) :
    Option.Rel (Closure.RenamesIn ρ h.frames σ [false]) (h.findMethod? c name)
      (h'.findMethod? c name) := by
  induction c using Nat.strongRecOn with
  | ind c ih =>
    have hc := hr.classes c
    rw [Heap.findMethod?, Heap.findMethod?]
    cases hrecord : h.classes[c]? with
    | none =>
      rw [hrecord] at hc
      generalize h'.classes[c]? = found at hc
      cases hc
      exact .none
    | some record =>
      rw [hrecord] at hc
      generalize h'.classes[c]? = found at hc
      cases hc with
      | @some _ record' hc =>
        have hmethod := hc.methods name
        have hsuper := hc.superclass
        dsimp only
        cases hown : record.methods.find? name with
        | some method =>
          rw [hown] at hmethod
          generalize record'.methods.find? name = own at hmethod
          cases hmethod with
          | some hmethod => exact .some hmethod
        | none =>
          rw [hown] at hmethod
          generalize record'.methods.find? name = own at hmethod
          cases hmethod
          dsimp only
          rw [hsuper]
          cases record.superclass with
          | none => exact .none
          | some s =>
            dsimp only
            split
            · next hlt => exact ih s hlt
            · exact .none

theorem classArity (c : Nat) : h'.classArity c = h.classArity c := by
  have hinit := hr.findMethod? c "init"
  rw [Heap.classArity, Heap.classArity, Heap.initializer?, Heap.initializer?]
  generalize h.findMethod? c "init" = method at hinit
  generalize h'.findMethod? c "init" = method' at hinit
  cases hinit with
  | some hmethod => exact hmethod.arity
  | none => rfl

theorem text (v : Value) : v.text h' = v.text h := by
  have hname (c : Nat) :
      h'.classes[c]?.map ClassRecord.name = h.classes[c]?.map ClassRecord.name := by
    have hc := hr.classes c
    generalize h.classes[c]? = record at hc
    generalize h'.classes[c]? = record' at hc
    cases hc with
    | some hc => exact congrArg some hc.name
    | none => rfl
  cases v with
  | functionRef k =>
    have hk := hr.functions k
    rw [Value.text, Value.text]
    generalize h.functions[k]? = c at hk
    generalize h'.functions[k]? = c' at hk
    cases hk with
    | @some c c' hc =>
      obtain ⟨_, -, hc⟩ := hc
      have htext : c'.text = c.text := by rw [Closure.text, Closure.text, hc.name]
      exact congrArg (fun t ↦ (some t).getD "") htext
    | none => rfl
  | classRef c => rw [Value.text, Value.text, hname]
  | instanceRef i =>
    rw [Value.text, Value.text, hr.classOf?]
    cases h.classOf? i with
    | none => rfl
    | some c =>
      rw [Option.bind_some, Option.bind_some, hname]
  | boolean b => cases b <;> rfl
  | _ => rfl

/-! ### Methods -/

/-- A method lies in an unmarked frame when it has been bound. -/
theorem bindMethod {method method' : Closure} (hm : method.RenamesIn ρ h.frames σ [false] method')
    (i : Nat) :
    (h.bindMethod method i).2.RenamesTo ρ (Function.update σ h.frames.size false)
        (h'.bindMethod method' i).2 ∧
      (h.bindMethod method i).1.RenamesIn ρ (h.bindMethod method i).2.frames
        (Function.update σ h.frames.size false) [] (h'.bindMethod method' i).1 := by
  obtain ⟨marks, hmarks, hm⟩ := hm
  have hmore : MarksMore h.frames σ (h.bindMethod method i).2.frames
      (Function.update σ h.frames.size false) :=
    ⟨fun _ hf ↦ Function.update_of_ne (Nat.ne_of_lt hf) _ _,
      (h.growsTo_bindMethod method i).enclosing⟩
  refine ⟨?_, false :: marks, ⟨Function.update_self .., method.frame,
    h.enclosing?_newFrame_define _ _ _, hmarks.mono hmore⟩, hm.name, hr.size_frames,
    hm.isInitializer, hm.exists_mark⟩
  have hnew := (hr.newFrame method.frame false).define h.frames.size .this (.instanceRef i)
  simp only [Heap.bindMethod, hm.frame]
  have hsize : (h'.newFrame method.frame).1 = h.frames.size := hr.size_frames
  rw [hsize]
  exact hnew

end Heap.RenamesTo

end LexScript
