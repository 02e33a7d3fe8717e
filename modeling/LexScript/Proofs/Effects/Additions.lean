import LexScript.Proofs.Scope.Occurrences
import LexScript.Proofs.Watching.Calls
import Mathlib.Logic.Relation

/-!
# What a run adds to a heap

A run adds to the heap in few ways. The functions that it creates have the code of a function in the
program or of one that is in the heap already. It binds names in the globals only where a statement
of the program declares them there: the statements of a block and of a function have a frame of
their own, an assignment changes a name that is bound, and no branch is a declaration.

So what holds of all parts of a program holds of all code that the program leaves in the heap, and
the names in the globals are those from before and those that the program declares.

## Main definitions

* `Additions` : what may be added.
* `Heap.Adds` : one addition.
* `Run.AddsOnly` : an action that adds nothing else.

## Main statements

* `Machine.AddsTo.isMadeOf`, `Machine.AddsTo.binds_globals` : what additions keep.
* `Expr.addsOnly_eval`, `Stmt.addsOnly_exec`, `addsOnly_callAt`, `addsOnly_executeProgram` :
  evaluation adds nothing else.
-/

namespace LexScript

open Relation (ReflTransGen)

/-! ### Code -/

/-- What may be added to a heap: the parts that code consists of, and the names that are bound in
the globals. -/
structure Additions where
  IsPart : Occurrence → Prop
  IsName : Name → Prop

variable {A : Additions}

/-- All of the parts may be added. -/
def Additions.Admits (A : Additions) (parts : List Occurrence) : Prop := ∀ o ∈ parts, A.IsPart o

namespace Additions

@[simp] theorem admits_cons (o : Occurrence) (parts : List Occurrence) :
    A.Admits (o :: parts) ↔ A.IsPart o ∧ A.Admits parts := List.forall_mem_cons

@[simp] theorem admits_append (parts parts' : List Occurrence) :
    A.Admits (parts ++ parts') ↔ A.Admits parts ∧ A.Admits parts' := List.forall_mem_append

theorem Admits.method {inherits : Bool} {around : List Enclosure} {methods : List FunctionDecl}
    (h : A.Admits (partsOfMethods inherits around methods)) {decl : FunctionDecl}
    (hdecl : decl ∈ methods) :
    A.Admits (decl.parts (.method decl.name.text inherits :: around)) := by
  induction methods with
  | nil => cases hdecl
  | cons f fs ih =>
    rw [partsOfMethods, admits_append] at h
    rcases List.mem_cons.1 hdecl with rfl | hmem
    · exact h.1
    · exact ih h.2 hmem

end Additions

theorem FunctionDecl.parts_eq (around : List Enclosure) (decl : FunctionDecl) :
    decl.parts around = partsOf around decl.body := by
  cases decl
  rfl

/-- The code of a function may be added. It is the body of an initializer if the function is one. -/
def Closure.IsMadeOf (A : Additions) (c : Closure) : Prop :=
  ∃ body around, (c.isInitializer = true → ∃ inherits, body = Enclosure.method "init" inherits) ∧
    A.Admits (partsOf (body :: around) c.body)

/-- The methods of a class are made of what may be added. -/
def ClassRecord.IsMadeOf (A : Additions) (record : ClassRecord) : Prop :=
  ∀ name method, record.methods.find? name = some method → method.IsMadeOf A

/-- The functions and the methods in a heap are made of what may be added. -/
structure Heap.IsMadeOf (A : Additions) (h : Heap) : Prop where
  functions : ∀ (k : Nat) c, h.functions[k]? = some c → c.IsMadeOf A
  classes : ∀ (c : Nat) record, h.classes[c]? = some record → record.IsMadeOf A

/-- Where the code is all right, so are the methods that the table of a class gets from it. -/
theorem isMadeOf_of_find?_methodTable {f : Nat} {inherits : Bool} {around : List Enclosure}
    {methods : List FunctionDecl} (h : A.Admits (partsOfMethods inherits around methods))
    {name : String} {method : Closure}
    (hfind : (Run.methodTable f methods).find? name = some method) : method.IsMadeOf A := by
  obtain ⟨decl, hdecl, -, rfl⟩ := exists_mem_of_find?_methodTable hfind
  refine ⟨_, around, fun hinit ↦ ⟨inherits, ?_⟩, decl.parts_eq _ ▸ h.method hdecl⟩
  rw [beq_iff_eq.1 hinit]

/-! ### Additions to a heap -/

namespace Heap

/-- One addition to a heap. What is not new may be bound again or set again. -/
inductive Adds (A : Additions) : Heap → Heap → Prop where
  | newFrame {h : Heap} (outer : Nat) : Adds A h (h.newFrame outer).2
  | define {h : Heap} {f : Nat} {x : Name} (v : Value)
      (hx : f = Frames.globals → A.IsName x ∨ h.frames.binds f x = true) : Adds A h (h.define f x v)
  | newFunction {h : Heap} {c : Closure} (hc : c.IsMadeOf A) : Adds A h (h.newFunction c).2
  | newClass {h : Heap} {record : ClassRecord} (hrecord : record.IsMadeOf A) :
      Adds A h (h.newClass record).2
  | newInstance {h : Heap} (c : Nat) : Adds A h (h.newInstance c).2
  | setField {h : Heap} (i : Nat) (name : String) (v : Value) : Adds A h (h.setField i name v)

variable {h h' : Heap}

theorem Adds.size_le (ha : Adds A h h') : h.frames.size ≤ h'.frames.size := by
  cases ha with
  | newFrame => simp [Heap.newFrame]
  | define => simp [Heap.define]
  | newFunction | newClass | newInstance | setField => exact Nat.le_refl _

theorem Adds.isMadeOf (ha : Adds A h h') (hh : h.IsMadeOf A) : h'.IsMadeOf A := by
  cases ha with
  | newFunction hc =>
    refine ⟨fun k c hk ↦ ?_, hh.classes⟩
    rw [Heap.newFunction, Array.getElem?_push] at hk
    split at hk
    · cases hk
      exact hc
    · exact hh.functions k c hk
  | newClass hrecord =>
    refine ⟨hh.functions, fun c record hc ↦ ?_⟩
    rw [Heap.newClass, Array.getElem?_push] at hc
    split at hc
    · cases hc
      exact hrecord
    · exact hh.classes c record hc
  | newFrame | define | newInstance | setField => exact ⟨hh.functions, hh.classes⟩

/-- A name that is bound in the globals was bound there before or may be added. -/
theorem Adds.binds_globals (ha : Adds A h h') {x : Name}
    (hx : h'.frames.binds Frames.globals x = true) :
    h.frames.binds Frames.globals x = true ∨ A.IsName x := by
  cases ha with
  | newFrame outer =>
    rw [Frames.binds, Heap.newFrame, Frames.find?_push] at hx
    exact .inl hx
  | @define f y v hdefine =>
    rw [Frames.binds, Heap.define, Frames.find?_define] at hx
    split at hx
    · next hnew =>
      obtain ⟨rfl, rfl, -⟩ := hnew
      exact (hdefine rfl).symm
    · exact .inl hx
  | newFunction | newClass | newInstance | setField => exact .inl hx

/-- A method that is found in a heap is made of what may be added. -/
theorem IsMadeOf.findMethod? (hh : h.IsMadeOf A) {c : Nat} {name : String} {method : Closure}
    (hmethod : h.findMethod? c name = some method) : method.IsMadeOf A := by
  obtain ⟨owner, record, -, -, hrecord, hfind⟩ := exists_owner_of_findMethod? hmethod
  exact hh.classes owner record hrecord name method hfind

/-- A heap comes from another one by additions. -/
abbrev AddsTo (A : Additions) : Heap → Heap → Prop := ReflTransGen (Adds A)

theorem AddsTo.size_le (ha : h.AddsTo A h') : h.frames.size ≤ h'.frames.size := by
  induction ha with
  | refl => exact Nat.le_refl _
  | tail _ ha ih => exact Nat.le_trans ih ha.size_le

theorem AddsTo.isMadeOf (ha : h.AddsTo A h') (hh : h.IsMadeOf A) : h'.IsMadeOf A := by
  induction ha with
  | refl => exact hh
  | tail _ ha ih => exact ha.isMadeOf ih

/-- Only names that may be added are new in the globals. -/
theorem AddsTo.binds_globals (ha : h.AddsTo A h') {x : Name}
    (hx : h'.frames.binds Frames.globals x = true) :
    h.frames.binds Frames.globals x = true ∨ A.IsName x := by
  induction ha with
  | refl => exact .inl hx
  | tail _ ha ih => exact (ha.binds_globals hx).elim ih .inr

/-- A new frame is not that of the globals, whatever is bound in it. -/
theorem addsTo_newFrame_define (hglobals : Frames.globals < h.frames.size) (outer : Nat) (x : Name)
    (v : Value) : h.AddsTo A ((h.newFrame outer).2.define h.frames.size x v) :=
  .tail (.single (.newFrame outer)) (.define v fun hf ↦ absurd hf (Nat.ne_of_gt hglobals))

theorem addsTo_bindParams {f : Nat} (hf : f ≠ Frames.globals) (params : List Ident)
    (arguments : List Value) (h : Heap) :
    h.AddsTo A (Run.bindParams f params arguments h) := by
  induction params generalizing arguments h with
  | nil => exact .refl
  | cons x params ih =>
    cases arguments with
    | nil => exact .refl
    | cons v arguments =>
      exact .head (.define v fun hf' ↦ absurd hf' hf) (ih arguments (h.define f x.name v))

end Heap

/-! ### Actions -/

/-- A machine has a frame in scope, and the code in its heap may be added. -/
structure Machine.IsMadeOf (A : Additions) (f : Nat) (m : Machine) : Prop where
  globals : Frames.globals < m.heap.frames.size
  heap : m.heap.IsMadeOf A
  current : m.current = f

/-- The heap of a machine comes from that of another one by additions, and the same frame is in
scope. -/
structure Machine.AddsTo (A : Additions) (m m' : Machine) : Prop where
  heap : m.heap.AddsTo A m'.heap
  current : m'.current = m.current

namespace Machine

variable {m m' m'' : Machine}

theorem AddsTo.refl (m : Machine) : m.AddsTo A m := ⟨.refl, rfl⟩

theorem AddsTo.trans (h : m.AddsTo A m') (h' : m'.AddsTo A m'') : m.AddsTo A m'' :=
  ⟨h.heap.trans h'.heap, h'.current.trans h.current⟩

theorem AddsTo.isMadeOf (h : m.AddsTo A m') {f : Nat} (hm : m.IsMadeOf A f) :
    m'.IsMadeOf A f :=
  ⟨Nat.lt_of_lt_of_le hm.globals h.heap.size_le, h.heap.isMadeOf hm.heap,
    h.current.trans hm.current⟩

end Machine

namespace Run

variable {α β : Type} {f : Nat} {P : α → Prop} {Q : β → Prop}

/-- However an action ends that is run in a frame, it adds only what may be added, and of a result
something holds. -/
def AddsOnly (A : Additions) (f : Nat) (P : α → Prop) (p : Run α) : Prop :=
  ∀ m, m.IsMadeOf A f →
    match p m with
    | .ok a m' => m.AddsTo A m' ∧ P a
    | .error _ m' => m.AddsTo A m'

/-- An action that adds only what may be added, with whatever result. -/
abbrev Adds (A : Additions) (f : Nat) (p : Run α) : Prop := AddsOnly A f (fun _ ↦ True) p

theorem addsOnly_pure {a : α} (ha : P a) : AddsOnly A f P (pure a) := fun m _ ↦ ⟨.refl m, ha⟩

theorem adds_pure (a : α) : Adds A f (pure a : Run α) := addsOnly_pure trivial

theorem addsOnly_throw (e : Stop) : AddsOnly A f P (throw e : Run α) := fun m _ ↦ .refl m

theorem addsOnly_fail (fault : Fault) (mark : Mark) : AddsOnly A f P (fail fault mark : Run α) :=
  addsOnly_throw _

theorem AddsOnly.bind {p : Run α} {q : α → Run β} (hp : AddsOnly A f P p)
    (hq : ∀ a, P a → AddsOnly A f Q (q a)) : AddsOnly A f Q (p >>= q) := by
  intro m hm
  have hpm := hp m hm
  rw [bind_apply]
  cases h : p m with
  | error e m' =>
    rw [h] at hpm
    exact hpm
  | ok a m' =>
    rw [h] at hpm
    have hqm := hq a hpm.2 m' (hpm.1.isMadeOf hm)
    dsimp only
    cases h' : q a m' with
    | ok b m'' =>
      rw [h'] at hqm
      exact ⟨hpm.1.trans hqm.1, hqm.2⟩
    | error e m'' =>
      rw [h'] at hqm
      exact hpm.1.trans hqm

theorem Adds.bind {p : Run α} {q : α → Run β} (hp : Adds A f p)
    (hq : ∀ a, AddsOnly A f Q (q a)) : AddsOnly A f Q (p >>= q) :=
  AddsOnly.bind hp fun a _ ↦ hq a

/-- Looking at the machine adds nothing. -/
theorem Reads.adds {p : Run α} (hp : p.Reads) : Adds A f p := by
  intro m _
  obtain ⟨a, ha⟩ | ⟨e, he, -⟩ := hp m
  · rw [ha]
    exact ⟨.refl m, trivial⟩
  · rw [he]
    exact .refl m

theorem addsOnly_ask {question : Heap → α}
    (h : ∀ heap : Heap, heap.IsMadeOf A → P (question heap)) :
    AddsOnly A f P (ask question) := fun m hm ↦ ⟨.refl m, h m.heap hm.heap⟩

theorem addsOnly_change {step : Heap → α × Heap}
    (h : ∀ heap : Heap, Frames.globals < heap.frames.size →
      heap.AddsTo A (step heap).2 ∧ P (step heap).1) : AddsOnly A f P (change step) := fun m hm ↦
  ⟨⟨(h m.heap hm.globals).1, rfl⟩, (h m.heap hm.globals).2⟩

theorem addsOnly_currentFrame : AddsOnly A f (· = f) currentFrame := fun m hm ↦
  ⟨.refl m, hm.current⟩

/-- A frame that is added is not that of the globals. -/
theorem addsOnly_newFrame (outer : Nat) :
    AddsOnly A f (· ≠ Frames.globals) (change (·.newFrame outer)) :=
  addsOnly_change fun _ hglobals ↦ ⟨.single (.newFrame outer), Nat.ne_of_gt hglobals⟩

theorem AddsOnly.inFrame {g : Nat} {p : Run α} (h : AddsOnly A g P p) :
    AddsOnly A f P (inFrame g p) := by
  intro m hm
  have hp := h { m with current := g } ⟨hm.globals, hm.heap, rfl⟩
  unfold Run.inFrame
  cases hpm : p { m with current := g } with
  | ok a m' =>
    rw [hpm] at hp
    exact ⟨⟨hp.1.heap, rfl⟩, hp.2⟩
  | error e m' =>
    rw [hpm] at hp
    exact ⟨hp.heap, rfl⟩

theorem AddsOnly.inCall {p : Run α} (h : AddsOnly A f P p) (mark : Mark) :
    AddsOnly A f P (inCall mark p) := by
  intro m hm
  have hp := h { m with depth := m.depth + 1 } ⟨hm.globals, hm.heap, hm.current⟩
  unfold Run.inCall
  by_cases hmax : maxCalls ≤ m.depth
  · rw [if_pos hmax]
    exact Machine.AddsTo.refl m
  · rw [if_neg hmax]
    cases hpm : p { m with depth := m.depth + 1 } with
    | ok a m' =>
      rw [hpm] at hp
      exact ⟨⟨hp.1.heap, hp.1.current⟩, hp.2⟩
    | error e m' =>
      rw [hpm] at hp
      exact ⟨hp.heap, hp.current⟩

/-! ### Names, output and time -/

/-- A name is bound in the globals only if it may be added. -/
theorem adds_define {x : Name} (hx : f = Frames.globals → A.IsName x) (v : Value) :
    Adds A f (define x v) := fun _ hm ↦
  ⟨⟨.single (.define v fun hcurrent ↦ .inl (hx (hm.current.symm.trans hcurrent))), rfl⟩, trivial⟩

/-- What an assignment changes is bound. -/
theorem binds_of_assignee_eq_ok {id : Nat} {x : Name} {m m' : Machine} {g : Nat}
    (h : assignee id x m = .ok (some g) m') : m.heap.frames.binds g x = true := by
  obtain ⟨hframe, -⟩ := EStateM.Result.ok.inj h
  split at hframe
  · exact m.heap.frames.binds_of_ownerAt? hframe
  · exact m.heap.frames.binds_of_owner? hframe

theorem adds_assignName (id : Nat) (x : Name) (line : Nat) (v : Value) :
    Adds A f (assignName id x line v) := by
  intro m _
  cases h : assignee id x m with
  | ok frame m' =>
    obtain rfl : m = m' := (EStateM.Result.ok.inj h).2
    unfold assignName
    rw [bind_apply, h]
    cases frame with
    | none => exact Machine.AddsTo.refl m
    | some g => exact ⟨⟨.single (.define v fun _ ↦ .inr (binds_of_assignee_eq_ok h)), rfl⟩, trivial⟩
  | error e m' => cases h

theorem adds_printLine (line : Nat) (v : Value) : Adds A f (printLine line v) := by
  intro m _
  unfold printLine
  dsimp only
  rcases m.sink.printLine (v.text m.heap) with ⟨_ | reason, sink⟩
  · exact ⟨⟨.refl, rfl⟩, trivial⟩
  · exact ⟨.refl, rfl⟩

theorem adds_readClock (mark : Mark) : Adds A f (readClock mark) := by
  intro m _
  unfold readClock
  rcases m.clock.read with ⟨reason | time, clock⟩
  · exact ⟨.refl, rfl⟩
  · exact ⟨⟨.refl, rfl⟩, trivial⟩

theorem adds_ofExcept (result : Except RuntimeError α) : Adds A f (ofExcept result) := by
  cases result with
  | ok a => exact adds_pure a
  | error e => exact addsOnly_throw _

/-! ### Properties -/

theorem adds_newFunction {c : Closure} (hc : c.IsMadeOf A) : Adds A f (newFunction c) :=
  addsOnly_change fun _ _ ↦ ⟨.single (.newFunction hc), trivial⟩

/-- A method that is bound has the code of the method. -/
theorem addsOnly_bindMethod {method : Closure} (hmethod : method.IsMadeOf A) (i : Nat) :
    AddsOnly A f (Closure.IsMadeOf A) (change (·.bindMethod method i)) :=
  addsOnly_change fun _ hglobals ↦ ⟨Heap.addsTo_newFrame_define hglobals _ _ _, hmethod⟩

/-- A method that a class finds has code that may be there. -/
theorem addsOnly_findMethod (c : Nat) (name : String) :
    AddsOnly A f (fun found ↦ ∀ method ∈ found, Closure.IsMadeOf A method)
      (ask (·.findMethod? c name)) :=
  addsOnly_ask fun _ hheap _ hmethod ↦ hheap.findMethod? hmethod

theorem adds_boundMethod (c i : Nat) (name : Ident) : Adds A f (boundMethod c i name) := by
  refine (addsOnly_findMethod c name.text).bind fun found hfound ↦ ?_
  cases found with
  | none => exact addsOnly_fail _ _
  | some method =>
    exact (addsOnly_bindMethod (hfound method rfl) i).bind fun _ hbound ↦ adds_newFunction hbound

theorem adds_getProperty (object : Value) (name : Ident) : Adds A f (getProperty object name) := by
  cases object with
  | instanceRef i =>
    refine (reads_ask _).adds.bind fun field ↦ ?_
    cases field with
    | some v => exact adds_pure v
    | none =>
      refine (reads_ask _).adds.bind fun c ↦ ?_
      cases c with
      | some c => exact adds_boundMethod c i name
      | none => exact addsOnly_fail _ _
  | _ => exact addsOnly_fail _ _

theorem adds_setProperty (i : Nat) (name : Ident) (v : Value) : Adds A f (setProperty i name v) :=
  addsOnly_change fun _ _ ↦ ⟨.single (.setField i name.text v), trivial⟩

theorem adds_superMethod (id line : Nat) (method : Ident) :
    Adds A f (superMethod id line method) := by
  have hdistance : (distanceOf id).Reads := fun _ ↦ .inl ⟨_, rfl⟩
  refine hdistance.adds.bind fun distance ↦ ?_
  cases distance with
  | none => exact addsOnly_throw _
  | some d =>
    refine (reads_readAt d .super line).adds.bind fun superclass ↦ ?_
    cases superclass with
    | classRef c =>
      refine (reads_readAt (d - 1) .this line).adds.bind fun instance_ ↦ ?_
      cases instance_ with
      | instanceRef i => exact adds_boundMethod c i method
      | _ => exact addsOnly_fail _ _
    | _ => exact addsOnly_fail _ _

/-! ### Calls -/

section

variable {body : List Stmt → Run Flow}
  (hbody : ∀ c : Closure, c.IsMadeOf A → ∀ g, g ≠ Frames.globals → Adds A g (body c.body))
include hbody

theorem adds_callClosure {c : Closure} (hc : c.IsMadeOf A) (arguments : List Value) (mark : Mark) :
    Adds A f (callClosure body c arguments mark) := by
  refine AddsOnly.inCall ?_ mark
  refine (addsOnly_newFrame c.frame).bind fun g hg ↦ ?_
  refine Adds.bind (addsOnly_change fun heap _ ↦
    ⟨Heap.addsTo_bindParams hg c.params arguments heap, trivial⟩) fun _ ↦ ?_
  exact Adds.bind (hbody c hc g hg).inFrame fun flow ↦ (reads_callResult c flow).adds

theorem adds_callClass (c : Nat) (arguments : List Value) (mark : Mark) :
    Adds A f (callClass body c arguments mark) := by
  refine Adds.bind (addsOnly_change fun _ _ ↦ ⟨.single (.newInstance c), trivial⟩) fun i ↦ ?_
  refine (addsOnly_findMethod c "init").bind fun found hfound ↦ ?_
  cases found with
  | none => exact adds_pure _
  | some method =>
    exact (addsOnly_bindMethod (hfound method rfl) i).bind fun bound hbound ↦
      (adds_callClosure hbody hbound arguments mark).bind fun _ ↦ adds_pure _

theorem adds_callValue (v : Value) (vs : List Value) (line : Nat) :
    Adds A f (callValue body v vs line) := by
  cases v with
  | native g =>
    cases g
    exact (reads_checkArity _ _ _).adds.bind fun _ ↦ adds_readClock _
  | functionRef k =>
    have hfind : AddsOnly A f (fun found ↦ ∀ c ∈ found, Closure.IsMadeOf A c)
        (ask (·.functions[k]?)) := addsOnly_ask fun _ hheap c hc ↦ hheap.functions k c hc
    refine hfind.bind fun found hfound ↦ ?_
    cases found with
    | none => exact addsOnly_fail _ _
    | some c =>
      exact (reads_checkArity _ _ _).adds.bind fun _ ↦ adds_callClosure hbody (hfound c rfl) vs _
  | classRef c =>
    exact (reads_ask _).adds.bind fun arity ↦ (reads_checkArity _ _ _).adds.bind fun _ ↦
      adds_callClass hbody c vs _
  | _ => exact addsOnly_fail _ _

end

/-! ### Statements with parts -/

theorem adds_repeatWhile {condition : Run Value} {body : Run Flow} (hcondition : Adds A f condition)
    (hbody : Adds A f body) (turns : Nat) : Adds A f (repeatWhile condition body turns) := by
  induction turns with
  | zero => exact addsOnly_throw _
  | succ turns ih =>
    refine hcondition.bind fun v ↦ ?_
    split
    · refine hbody.bind fun flow ↦ ?_
      cases flow with
      | next => exact ih
      | returned v => exact adds_pure _
    · exact adds_pure _

theorem adds_inBlock {p : Run α} (h : ∀ g, g ≠ Frames.globals → Adds A g p) :
    Adds A f (inBlock p) :=
  addsOnly_currentFrame.bind fun outer _ ↦ (addsOnly_newFrame outer).bind fun g hg ↦
    (h g hg).inFrame

theorem adds_declareFunction {decl : FunctionDecl} {around : List Enclosure}
    (hdecl : A.Admits (decl.parts (.function :: around)))
    (hname : f = Frames.globals → A.IsName decl.name.name) : Adds A f (declareFunction decl) := by
  have hcode (g : Nat) :
      Closure.IsMadeOf A ⟨some decl.name.text, decl.params, decl.body, g, false⟩ :=
    ⟨.function, around, nofun, decl.parts_eq _ ▸ hdecl⟩
  exact addsOnly_currentFrame.bind fun g _ ↦ (adds_newFunction (hcode g)).bind fun v ↦
    adds_define hname v

section

variable {superclass : Option SuperclassName} {methods : List FunctionDecl}
  {around : List Enclosure}
  (hmethods : A.Admits (partsOfMethods superclass.isSome around methods))
include hmethods

theorem addsOnly_classRecord (outer : Nat) (name : Ident) :
    AddsOnly A f (ClassRecord.IsMadeOf A) (classRecord outer name superclass methods) := by
  have htable (g : Nat) (s : Option Nat) :
      ClassRecord.IsMadeOf A ⟨name.text, s, methodTable g methods⟩ :=
    fun _ _ hfind ↦ isMadeOf_of_find?_methodTable hmethods hfind
  cases superclass with
  | none => exact addsOnly_pure (htable outer none)
  | some s =>
    refine (reads_readSuperclass s).adds.bind fun c ↦ ?_
    refine (addsOnly_newFrame outer).bind fun g hg ↦ ?_
    refine Adds.bind (addsOnly_change fun _ _ ↦
      ⟨.single (.define _ fun hg' ↦ absurd hg' hg), trivial⟩) fun _ ↦ ?_
    exact addsOnly_pure (htable g (some c))

theorem adds_declareClass {name : Ident} (hname : f = Frames.globals → A.IsName name.name) :
    Adds A f (declareClass name superclass methods) :=
  addsOnly_currentFrame.bind fun outer _ ↦ (addsOnly_classRecord hmethods outer name).bind
    fun _ hrecord ↦ Adds.bind (addsOnly_change fun _ _ ↦ ⟨.single (.newClass hrecord), trivial⟩)
      fun v ↦ adds_define hname v

end

end Run

/-! ### Expressions and statements -/

open Run

/-- A meaning of calls that adds only what may be added. -/
def CallAdds (A : Additions) (call : Call) : Prop := ∀ f v vs line, Adds A f (call v vs line)

/-- Executed in a frame, a statement binds no other names in the globals than may be added: what it
declares there may be added, and its branches declare nothing. -/
def Stmt.DeclaresIn (A : Additions) (f : Nat) (s : Stmt) : Prop :=
  f = Frames.globals → s.IsPlain ∧ ∀ x ∈ s.declared?, A.IsName x.name

variable {turns : Nat} {call : Call}

theorem Stmt.declaresIn_of_ne {f : Nat} (hf : f ≠ Frames.globals) (s : Stmt) : s.DeclaresIn A f :=
  fun hf' ↦ absurd hf' hf

theorem Stmt.declaresIn_of_isDeclaration {f : Nat} {s : Stmt}
    (h : f = Frames.globals → s.IsPlain ∧ s.isDeclaration = false) : s.DeclaresIn A f := by
  intro hf
  obtain ⟨hplain, hs⟩ := h hf
  rw [Stmt.declared?_eq_none hs]
  exact ⟨hplain, nofun⟩

mutual

theorem Expr.adds_eval (hcall : CallAdds A call) {f : Nat} {around : List Enclosure} : ∀ e : Expr,
    A.Admits (e.parts around) → Adds A f (e.eval call turns)
  | .literal _ _, _ => by
    rw [Expr.eval]
    exact adds_pure _
  | .grouping _ inner, h => by
    rw [Expr.parts, Additions.admits_cons] at h
    rw [Expr.eval]
    exact inner.adds_eval hcall h.2
  | .unary _ _ _ operand, h => by
    rw [Expr.parts, Additions.admits_cons] at h
    rw [Expr.eval]
    exact (operand.adds_eval hcall h.2).bind fun _ ↦ adds_ofExcept _
  | .binary _ _ _ left right, h => by
    rw [Expr.parts, Additions.admits_cons, Additions.admits_append] at h
    rw [Expr.eval]
    exact (left.adds_eval hcall h.2.1).bind fun _ ↦ (right.adds_eval hcall h.2.2).bind fun _ ↦
      adds_ofExcept _
  | .logical _ _ _ left right, h => by
    rw [Expr.parts, Additions.admits_cons, Additions.admits_append] at h
    rw [Expr.eval]
    refine (left.adds_eval hcall h.2.1).bind fun v ↦ ?_
    split
    · exact adds_pure v
    · exact right.adds_eval hcall h.2.2
  | .read id name, _ => by
    rw [Expr.eval]
    exact (reads_readName id name.name name.line).adds
  | .assign id name value, h => by
    rw [Expr.parts, Additions.admits_cons] at h
    rw [Expr.eval]
    exact (value.adds_eval hcall h.2).bind fun v ↦
      (adds_assignName id name.name name.line v).bind fun _ ↦ adds_pure v
  | .call _ callee line arguments, h => by
    rw [Expr.parts, Additions.admits_cons, Additions.admits_append] at h
    rw [Expr.eval]
    exact (callee.adds_eval hcall h.2.1).bind fun v ↦
      (adds_evalExprs hcall arguments h.2.2).bind fun vs ↦ hcall f v vs line
  | .lambda _ _ params body, h => by
    rw [Expr.parts, Additions.admits_cons] at h
    rw [Expr.eval]
    exact addsOnly_currentFrame.bind fun g _ ↦ adds_newFunction ⟨.function, around, nofun, h.2⟩
  | .get _ object name, h => by
    rw [Expr.parts, Additions.admits_cons] at h
    rw [Expr.eval]
    exact (object.adds_eval hcall h.2).bind fun v ↦ adds_getProperty v name
  | .set _ object name value, h => by
    rw [Expr.parts, Additions.admits_cons, Additions.admits_append] at h
    rw [Expr.eval]
    exact (object.adds_eval hcall h.2.1).bind fun o ↦ (reads_requireInstance o name).adds.bind
      fun i ↦ (value.adds_eval hcall h.2.2).bind fun v ↦ (adds_setProperty i name v).bind fun _ ↦
        adds_pure v
  | .this id line, _ => by
    rw [Expr.eval]
    exact (reads_readName id .this line).adds
  | .super id line method, _ => by
    rw [Expr.eval]
    exact adds_superMethod id line method

theorem adds_evalExprs (hcall : CallAdds A call) {f : Nat} {around : List Enclosure} :
    ∀ es : List Expr, A.Admits (partsOfExprs around es) → Adds A f (evalExprs call turns es)
  | [], _ => by
    rw [evalExprs]
    exact adds_pure []
  | e :: es, h => by
    rw [partsOfExprs, Additions.admits_append] at h
    rw [evalExprs]
    exact (e.adds_eval hcall h.1).bind fun v ↦ (adds_evalExprs hcall es h.2).bind fun vs ↦
      adds_pure (v :: vs)

theorem Stmt.adds_exec (hcall : CallAdds A call) {f : Nat} {around : List Enclosure} : ∀ s : Stmt,
    A.Admits (s.parts around) → s.DeclaresIn A f → Adds A f (s.exec call turns)
  | .expression e, h, _ => by
    rw [Stmt.parts, Additions.admits_cons] at h
    rw [Stmt.exec]
    exact (e.adds_eval hcall h.2).bind fun _ ↦ adds_pure _
  | .print line value, h, _ => by
    rw [Stmt.parts, Additions.admits_cons] at h
    rw [Stmt.exec]
    exact (value.adds_eval hcall h.2).bind fun v ↦ (adds_printLine line v).bind fun _ ↦ adds_pure _
  | .varDecl name none, _, hf => by
    rw [Stmt.exec]
    exact (adds_define (fun h ↦ (hf h).2 name rfl) .nil).bind fun _ ↦ adds_pure _
  | .varDecl name (some value), h, hf => by
    rw [Stmt.parts, Additions.admits_cons] at h
    rw [Stmt.exec]
    exact (value.adds_eval hcall h.2).bind fun v ↦
      (adds_define (fun h ↦ (hf h).2 name rfl) v).bind fun _ ↦ adds_pure _
  | .block body, h, _ => by
    rw [Stmt.parts, Additions.admits_cons] at h
    rw [Stmt.exec]
    exact adds_inBlock fun g hg ↦ adds_execStmts hcall body h.2 hg
  | .ifElse condition thenBranch none, h, hf => by
    rw [Stmt.parts, Additions.admits_cons, Additions.admits_append] at h
    rw [Stmt.exec]
    refine (condition.adds_eval hcall h.2.1).bind fun v ↦ ?_
    split
    · refine thenBranch.adds_exec hcall h.2.2 (Stmt.declaresIn_of_isDeclaration fun h ↦ ?_)
      have hplain := (hf h).1
      rw [Stmt.IsPlain] at hplain
      exact hplain.2
    · exact adds_pure _
  | .ifElse condition thenBranch (some elseBranch), h, hf => by
    rw [Stmt.parts, Additions.admits_cons, Additions.admits_append, Additions.admits_append] at h
    rw [Stmt.exec]
    refine (condition.adds_eval hcall h.2.1).bind fun v ↦ ?_
    split
    · refine thenBranch.adds_exec hcall h.2.2.1 (Stmt.declaresIn_of_isDeclaration fun h ↦ ?_)
      have hplain := (hf h).1
      rw [Stmt.IsPlain] at hplain
      exact hplain.2.1
    · refine elseBranch.adds_exec hcall h.2.2.2 (Stmt.declaresIn_of_isDeclaration fun h ↦ ?_)
      have hplain := (hf h).1
      rw [Stmt.IsPlain] at hplain
      exact hplain.2.2
  | .whileLoop condition body, h, hf => by
    rw [Stmt.parts, Additions.admits_cons, Additions.admits_append] at h
    rw [Stmt.exec]
    refine adds_repeatWhile (condition.adds_eval hcall h.2.1) ?_ turns
    refine body.adds_exec hcall h.2.2 (Stmt.declaresIn_of_isDeclaration fun h ↦ ?_)
    have hplain := (hf h).1
    rw [Stmt.IsPlain] at hplain
    exact hplain.2
  | .funDecl decl, h, hf => by
    rw [Stmt.parts, Additions.admits_cons] at h
    rw [Stmt.exec]
    exact (adds_declareFunction h.2 fun h ↦ (hf h).2 decl.name rfl).bind fun _ ↦ adds_pure _
  | .returns _ none, _, _ => by
    rw [Stmt.exec]
    exact adds_pure _
  | .returns _ (some value), h, _ => by
    rw [Stmt.parts, Additions.admits_cons] at h
    rw [Stmt.exec]
    exact (value.adds_eval hcall h.2).bind fun v ↦ adds_pure _
  | .classDecl name superclass methods, h, hf => by
    rw [Stmt.parts, Additions.admits_cons] at h
    rw [Stmt.exec]
    exact (adds_declareClass h.2 fun h ↦ (hf h).2 name rfl).bind fun _ ↦ adds_pure _

theorem adds_execStmts (hcall : CallAdds A call) {f : Nat} {around : List Enclosure} :
    ∀ ss : List Stmt, A.Admits (partsOf around ss) → f ≠ Frames.globals →
      Adds A f (execStmts call turns ss)
  | [], _, _ => by
    rw [execStmts]
    exact adds_pure _
  | s :: ss, h, hf => by
    rw [partsOf, Additions.admits_append] at h
    rw [execStmts]
    refine (s.adds_exec hcall h.1 (s.declaresIn_of_ne hf)).bind fun flow ↦ ?_
    cases flow with
    | next => exact adds_execStmts hcall ss h.2 hf
    | returned v => exact adds_pure _

end

theorem adds_callAt (turns level : Nat) : CallAdds A (callAt turns level) := by
  induction level with
  | zero => exact fun _ _ _ _ ↦ addsOnly_throw _
  | succ level ih =>
    intro f v vs line
    refine adds_callValue (fun c hc g hg ↦ ?_) v vs line
    obtain ⟨body, around, -, hparts⟩ := hc
    exact adds_execStmts ih c.body hparts hg

/-- A program adds the code of its parts and the names that it declares. -/
theorem adds_executeProgram {f : Nat} (turns : Nat) {program : List Stmt}
    (hplain : ArePlain program) (hparts : A.Admits (partsOf [] program))
    (hnames : ∀ s ∈ program, ∀ x ∈ s.declared?, A.IsName x.name) :
    Adds A f (executeProgram turns program) := by
  induction program with
  | nil => exact adds_pure ()
  | cons s ss ih =>
    rw [ArePlain] at hplain
    rw [partsOf, Additions.admits_append] at hparts
    rw [List.forall_mem_cons] at hnames
    have hs : s.DeclaresIn A f := fun _ ↦ ⟨hplain.1, hnames.1⟩
    exact (s.adds_exec (adds_callAt turns enoughLevels) hparts.1 hs).bind fun _ ↦
      ih hplain.2 hparts.2 hnames.2

/-! ### Runs of sessions -/

/-- However an action ends, its machine has come about by additions. -/
theorem Run.AddsOnly.addsTo_machineOf {α : Type} {f : Nat} {P : α → Prop} {p : Run α}
    (hp : AddsOnly A f P p) {m : Machine} (hm : m.IsMadeOf A f) :
    m.AddsTo A (machineOf (p m)) := by
  have hpm := hp m hm
  cases h : p m with
  | ok a m' =>
    rw [h] at hpm
    exact hpm.1
  | error e m' =>
    rw [h] at hpm
    exact hpm

namespace Session

variable {s : Session} {source : String}

theorem Reachable.isMadeOf (hs : s.Reachable) (hheap : s.machine.heap.IsMadeOf A) :
    s.machine.IsMadeOf A Frames.globals := by
  refine ⟨?_, hheap, hs.current_eq_globals.1⟩
  obtain ⟨w, hw, rfl⟩ := WatchedSession.exists_reachable hs
  exact hw.isInOrder.inOrder.tells.globals

/-- Running an accepted source adds the code of its program and the names that it declares. -/
theorem Reachable.addsTo_run (hs : s.Reachable) (hheap : s.machine.heap.IsMadeOf A)
    (hread : (readSource s.nextId source).errors = [])
    (hresolve : (resolveProgram (readSource s.nextId source).program).errors = [])
    (hparts : A.Admits (partsOf [] (readSource s.nextId source).program))
    (hnames : ∀ st ∈ (readSource s.nextId source).program, ∀ x ∈ st.declared?, A.IsName x.name)
    (turns : Nat) : s.machine.AddsTo A (s.run turns source).2.machine := by
  cases h : readSource s.nextId source with
  | mk errors program n =>
    rw [h] at hread hresolve hparts hnames
    subst hread
    have hplain := (WatchedSession.plain_fresh_of_readSource h).1
    rw [run_eq h hresolve]
    have hm := hs.isMadeOf hheap
    have hadds := (adds_executeProgram turns hplain hparts hnames).addsTo_machineOf
      (m := s.machineFor program) ⟨hm.globals, hm.heap, hm.current⟩
    exact ⟨hadds.heap, hadds.current⟩

end Session

end LexScript
