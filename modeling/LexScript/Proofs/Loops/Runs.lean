import LexScript.Proofs.Heap.Classes
import LexScript.Proofs.Loops.Programs

/-!
# Runs without loops

Where neither a program nor anything in the heap has a loop, evaluation comes to an end, however
functions call each other. The bodies of functions come from the heap, and every way to a body
counts as a call in progress; so evaluation either goes down in the program or makes one more call,
and the number of calls is limited.

Two bounds stand in for running on without an end: the turns that a loop is allowed and the levels
of calls. Evaluation reaches neither of them, and does the same whatever they are, once the levels
are enough for the calls that can still be made.

## Main definitions

* `Heap.IsLoopFree` : a heap in which no function has a loop.
* `Run.Halts` : two actions that do the same and reach no bound.

## Main statements

* `halts_callAt` : calls of functions without loops come to an end.
* `halts_executeProgram` : so do programs.
-/

namespace LexScript

/-! ### Heaps -/

/-- No function and no method in a heap has a loop. -/
structure Heap.IsLoopFree (h : Heap) : Prop where
  functions : ∀ (i : Nat) c, h.functions[i]? = some c → AreLoopFree c.body
  methods : ∀ (i : Nat) record, h.classes[i]? = some record → ∀ name c,
    record.methods.find? name = some c → AreLoopFree c.body

namespace Heap

variable {h h' : Heap}

/-- Only functions and classes have code. -/
theorem IsLoopFree.congr (hh : h.IsLoopFree) (hfunctions : h'.functions = h.functions)
    (hclasses : h'.classes = h.classes) : h'.IsLoopFree := by
  refine ⟨fun i c hc ↦ hh.functions i c ?_, fun i record hc ↦ hh.methods i record ?_⟩
  · rwa [← hfunctions]
  · rwa [← hclasses]

theorem IsLoopFree.initial : Heap.initial.IsLoopFree := by
  constructor <;> simp [Heap.initial]

theorem IsLoopFree.newFunction (hh : h.IsLoopFree) {c : Closure} (hc : AreLoopFree c.body) :
    (h.newFunction c).2.IsLoopFree := by
  refine ⟨fun i c' hc' ↦ ?_, hh.methods⟩
  rw [Heap.newFunction, Array.getElem?_push] at hc'
  split at hc'
  · cases hc'
    exact hc
  · exact hh.functions i c' hc'

theorem IsLoopFree.newClass (hh : h.IsLoopFree) {record : ClassRecord}
    (hrecord : ∀ name c, record.methods.find? name = some c → AreLoopFree c.body) :
    (h.newClass record).2.IsLoopFree := by
  refine ⟨hh.functions, fun i record' hc ↦ ?_⟩
  rw [Heap.newClass, Array.getElem?_push] at hc
  split at hc
  · cases hc
    exact hrecord
  · exact hh.methods i record' hc

theorem IsLoopFree.bindParams (hh : h.IsLoopFree) (f : Nat) (params : List Ident)
    (arguments : List Value) : (Run.bindParams f params arguments h).IsLoopFree := by
  induction params generalizing arguments h with
  | nil => exact hh
  | cons x params ih =>
    cases arguments with
    | nil => exact hh
    | cons v arguments =>
      have hdefine : (h.define f x.name v).IsLoopFree := hh.congr rfl rfl
      exact ih hdefine arguments

/-- A method that a class has or inherits is in the heap. -/
theorem IsLoopFree.findMethod? (hh : h.IsLoopFree) {c : Nat} {name : String} {method : Closure}
    (hmethod : h.findMethod? c name = some method) : AreLoopFree method.body := by
  obtain ⟨owner, record, -, -, hrecord, hfind⟩ := exists_owner_of_findMethod? hmethod
  exact hh.methods owner record hrecord name method hfind

end Heap

theorem areLoopFree_of_find?_methodTable {f : Nat} {methods : List FunctionDecl}
    (hmethods : AreLoopFreeMethods methods) {name : String} {c : Closure}
    (hc : (Run.methodTable f methods).find? name = some c) : AreLoopFree c.body := by
  obtain ⟨decl, hdecl, -, rfl⟩ := exists_mem_of_find?_methodTable hc
  exact (areLoopFreeMethods_iff methods).1 hmethods decl hdecl

/-! ### Actions -/

/-- The heap of a machine has no loop, and a number of calls is in progress. -/
structure Machine.IsLoopFree (depth : Nat) (m : Machine) : Prop where
  heap : m.heap.IsLoopFree
  depth : m.depth = depth

namespace Run

variable {α β : Type} {depth : Nat}

/-- An action has come to an end, with a result of which something holds or with an error of the
program. -/
def HasHalted (depth : Nat) (P : α → Prop) : EStateM.Result Stop Machine α → Prop
  | .ok a m => m.IsLoopFree depth ∧ P a
  | .error e m => m.IsLoopFree depth ∧ e ≠ .exhausted

/-- Where nothing in the heap has a loop, two actions do the same and come to an end. -/
def HaltsWith (depth : Nat) (P : α → Prop) (p q : Run α) : Prop :=
  ∀ m, m.IsLoopFree depth → q m = p m ∧ HasHalted depth P (p m)

/-- Two actions do the same and come to an end, with whatever result. -/
abbrev Halts (depth : Nat) (p q : Run α) : Prop := HaltsWith depth (fun _ ↦ True) p q

theorem haltsWith_pure {P : α → Prop} {a : α} (ha : P a) :
    HaltsWith depth P (pure a : Run α) (pure a) := fun _ hm ↦ ⟨rfl, hm, ha⟩

theorem halts_pure (a : α) : Halts depth (pure a : Run α) (pure a) := haltsWith_pure trivial

theorem halts_throw {P : α → Prop} (e : RuntimeError) :
    HaltsWith depth P (throw (.fault e) : Run α) (throw (.fault e)) :=
  fun _ hm ↦ ⟨rfl, hm, Stop.noConfusion⟩

theorem halts_fail {P : α → Prop} (fault : Fault) (mark : Mark) :
    HaltsWith depth P (fail fault mark : Run α) (fail fault mark) := halts_throw _

theorem HaltsWith.bind {P : α → Prop} {Q : β → Prop} {p q : Run α} {f g : α → Run β}
    (hp : HaltsWith depth P p q) (hf : ∀ a, P a → HaltsWith depth Q (f a) (g a)) :
    HaltsWith depth Q (p >>= f) (q >>= g) := by
  intro m hm
  obtain ⟨hsame, hend⟩ := hp m hm
  rw [bind_apply, bind_apply, hsame]
  cases h : p m with
  | ok a m' =>
    rw [h] at hend
    exact hf a hend.2 m' hend.1
  | error e m' =>
    rw [h] at hend
    exact ⟨rfl, hend⟩

theorem Halts.bind {Q : β → Prop} {p q : Run α} {f g : α → Run β} (hp : Halts depth p q)
    (hf : ∀ a, HaltsWith depth Q (f a) (g a)) : HaltsWith depth Q (p >>= f) (q >>= g) :=
  HaltsWith.bind hp fun a _ ↦ hf a

theorem haltsWith_ask {P : α → Prop} {question : Heap → α}
    (h : ∀ heap : Heap, heap.IsLoopFree → P (question heap)) :
    HaltsWith depth P (ask question) (ask question) := fun m hm ↦ ⟨rfl, hm, h m.heap hm.heap⟩

theorem halts_ask (question : Heap → α) : Halts depth (ask question) (ask question) :=
  haltsWith_ask fun _ _ ↦ trivial

theorem halts_change {step : Heap → α × Heap}
    (h : ∀ heap : Heap, heap.IsLoopFree → (step heap).2.IsLoopFree) :
    Halts depth (change step) (change step) := fun m hm ↦
  ⟨rfl, ⟨h m.heap hm.heap, hm.depth⟩, trivial⟩

theorem halts_currentFrame : Halts depth currentFrame currentFrame := fun _ hm ↦ ⟨rfl, hm, trivial⟩

theorem halts_distanceOf (id : Nat) : Halts depth (distanceOf id) (distanceOf id) :=
  fun _ hm ↦ ⟨rfl, hm, trivial⟩

theorem halts_ofExcept (result : Except RuntimeError α) :
    Halts depth (ofExcept result) (ofExcept result) := by
  cases result with
  | ok a => exact halts_pure a
  | error e => exact halts_throw e

theorem HaltsWith.inFrame {P : α → Prop} {p q : Run α} (h : HaltsWith depth P p q) (f : Nat) :
    HaltsWith depth P (inFrame f p) (inFrame f q) := by
  intro m hm
  obtain ⟨hsame, hend⟩ := h { m with current := f } ⟨hm.heap, hm.depth⟩
  unfold Run.inFrame
  rw [hsame]
  cases hp : p { m with current := f } with
  | ok a m' =>
    rw [hp] at hend
    exact ⟨rfl, ⟨hend.1.heap, hend.1.depth⟩, hend.2⟩
  | error e m' =>
    rw [hp] at hend
    exact ⟨rfl, ⟨hend.1.heap, hend.1.depth⟩, hend.2⟩

/-- One call more is made if there can be one more in progress, and is refused otherwise. -/
theorem HaltsWith.inCall {P : α → Prop} {p q : Run α}
    (h : depth < maxCalls → HaltsWith (depth + 1) P p q) (mark : Mark) :
    HaltsWith depth P (inCall mark p) (inCall mark q) := by
  intro m hm
  unfold Run.inCall
  by_cases hmax : maxCalls ≤ m.depth
  · rw [if_pos hmax, if_pos hmax]
    exact ⟨rfl, hm, Stop.noConfusion⟩
  · rw [if_neg hmax, if_neg hmax]
    have hcall : Machine.IsLoopFree (depth + 1) { m with depth := m.depth + 1 } :=
      ⟨hm.heap, congrArg (· + 1) hm.depth⟩
    obtain ⟨hsame, hend⟩ := h (hm.depth ▸ Nat.not_le.1 hmax) _ hcall
    rw [hsame]
    cases hp : p { m with depth := m.depth + 1 } with
    | ok a m' =>
      rw [hp] at hend
      exact ⟨rfl, ⟨hend.1.heap, congrArg (· - 1) hend.1.depth⟩, hend.2⟩
    | error e m' =>
      rw [hp] at hend
      exact ⟨rfl, ⟨hend.1.heap, congrArg (· - 1) hend.1.depth⟩, hend.2⟩

/-! ### Names, output and time -/

theorem halts_define (x : Name) (v : Value) : Halts depth (define x v) (define x v) :=
  fun _ hm ↦ ⟨rfl, ⟨hm.heap.congr rfl rfl, hm.depth⟩, trivial⟩

theorem halts_readAt (distance : Nat) (x : Name) (line : Nat) :
    Halts depth (readAt distance x line) (readAt distance x line) := by
  intro m hm
  refine ⟨rfl, ?_⟩
  unfold readAt
  cases m.heap.frames.getAt m.current distance x line with
  | ok v => exact ⟨hm, trivial⟩
  | error e => exact ⟨hm, Stop.noConfusion⟩

theorem halts_readGlobal (x : Name) (line : Nat) :
    Halts depth (readGlobal x line) (readGlobal x line) := by
  intro m hm
  refine ⟨rfl, ?_⟩
  unfold readGlobal
  cases m.heap.frames.get Frames.globals x line with
  | ok v => exact ⟨hm, trivial⟩
  | error e => exact ⟨hm, Stop.noConfusion⟩

theorem halts_readName (id : Nat) (x : Name) (line : Nat) :
    Halts depth (readName id x line) (readName id x line) := by
  refine (halts_distanceOf id).bind fun distance ↦ ?_
  cases distance with
  | none => exact halts_readGlobal x line
  | some d => exact halts_readAt d x line

theorem halts_assignName (id : Nat) (x : Name) (line : Nat) (v : Value) :
    Halts depth (assignName id x line v) (assignName id x line v) := by
  have hassignee : Halts depth (assignee id x) (assignee id x) := fun _ hm ↦ ⟨rfl, hm, trivial⟩
  refine hassignee.bind fun frame ↦ ?_
  cases frame with
  | none => exact halts_throw _
  | some f => exact halts_change fun _ hheap ↦ hheap.congr rfl rfl

theorem halts_printLine (line : Nat) (v : Value) :
    Halts depth (printLine line v) (printLine line v) := by
  intro m hm
  refine ⟨rfl, ?_⟩
  unfold printLine
  dsimp only
  rcases m.sink.printLine (v.text m.heap) with ⟨_ | reason, sink⟩
  · exact ⟨⟨hm.heap, hm.depth⟩, trivial⟩
  · exact ⟨⟨hm.heap, hm.depth⟩, Stop.noConfusion⟩

theorem halts_readClock (mark : Mark) : Halts depth (readClock mark) (readClock mark) := by
  intro m hm
  refine ⟨rfl, ?_⟩
  unfold readClock
  rcases m.clock.read with ⟨reason | time, clock⟩
  · exact ⟨⟨hm.heap, hm.depth⟩, Stop.noConfusion⟩
  · exact ⟨⟨hm.heap, hm.depth⟩, trivial⟩

/-! ### Properties -/

theorem halts_newFunction {c : Closure} (hc : AreLoopFree c.body) :
    Halts depth (newFunction c) (newFunction c) := halts_change fun _ hheap ↦ hheap.newFunction hc

/-- A method that is bound has the code of the method. -/
theorem haltsWith_bindMethod {method : Closure} (hmethod : AreLoopFree method.body) (i : Nat) :
    HaltsWith depth (fun bound ↦ AreLoopFree bound.body) (change (·.bindMethod method i))
      (change (·.bindMethod method i)) :=
  fun _ hm ↦ ⟨rfl, ⟨hm.heap.congr rfl rfl, hm.depth⟩, hmethod⟩

theorem halts_boundMethod (c i : Nat) (name : Ident) :
    Halts depth (boundMethod c i name) (boundMethod c i name) := by
  have hfind : HaltsWith depth (fun found ↦ ∀ method ∈ found, AreLoopFree method.body)
      (ask (·.findMethod? c name.text)) (ask (·.findMethod? c name.text)) :=
    haltsWith_ask fun _ hheap method hmethod ↦ hheap.findMethod? hmethod
  refine hfind.bind fun found hfound ↦ ?_
  cases found with
  | none => exact halts_fail _ _
  | some method =>
    exact (haltsWith_bindMethod (hfound method rfl) i).bind fun _ hbound ↦ halts_newFunction hbound

theorem halts_getProperty (object : Value) (name : Ident) :
    Halts depth (getProperty object name) (getProperty object name) := by
  cases object with
  | instanceRef i =>
    refine (halts_ask _).bind fun field ↦ ?_
    cases field with
    | some v => exact halts_pure v
    | none =>
      refine (halts_ask _).bind fun c ↦ ?_
      cases c with
      | some c => exact halts_boundMethod c i name
      | none => exact halts_fail _ _
  | _ => exact halts_fail _ _

theorem halts_setProperty (i : Nat) (name : Ident) (v : Value) :
    Halts depth (setProperty i name v) (setProperty i name v) :=
  halts_change fun _ hheap ↦ hheap.congr rfl rfl

theorem halts_requireInstance (object : Value) (name : Ident) :
    Halts depth (requireInstance object name) (requireInstance object name) := by
  cases object with
  | instanceRef i => exact halts_pure i
  | _ => exact halts_fail _ _

theorem halts_superMethod (id line : Nat) (method : Ident) :
    Halts depth (superMethod id line method) (superMethod id line method) := by
  refine (halts_distanceOf id).bind fun distance ↦ ?_
  cases distance with
  | none => exact halts_throw _
  | some d =>
    refine (halts_readAt d .super line).bind fun superclass ↦ ?_
    cases superclass with
    | classRef c =>
      refine (halts_readAt (d - 1) .this line).bind fun instance_ ↦ ?_
      cases instance_ with
      | instanceRef i => exact halts_boundMethod c i method
      | _ => exact halts_fail _ _
    | _ => exact halts_fail _ _

/-! ### Calls -/

theorem halts_checkArity (mark : Mark) (expected got : Nat) :
    Halts depth (checkArity mark expected got) (checkArity mark expected got) := by
  unfold checkArity
  split
  · exact halts_pure ()
  · exact halts_fail _ _

theorem halts_callResult (c : Closure) (flow : Flow) :
    Halts depth (callResult c flow) (callResult c flow) := by
  unfold callResult
  split
  · exact halts_ask _
  · cases flow with
    | returned v => exact halts_pure v
    | next => exact halts_pure Value.nil

section

variable {body body' : List Stmt → Run Flow}
  (hbody : depth < maxCalls → ∀ ss, AreLoopFree ss → Halts (depth + 1) (body ss) (body' ss))
include hbody

/-- A call of a function takes one call more than there is in progress. -/
theorem halts_callClosure {c : Closure} (hc : AreLoopFree c.body) (arguments : List Value)
    (mark : Mark) :
    Halts depth (callClosure body c arguments mark) (callClosure body' c arguments mark) := by
  refine HaltsWith.inCall (fun hdepth ↦ ?_) mark
  refine (halts_change fun _ hheap ↦ hheap.congr rfl rfl).bind fun f ↦ ?_
  refine (halts_change fun _ hheap ↦ hheap.bindParams f c.params arguments).bind fun _ ↦ ?_
  exact Halts.bind ((hbody hdepth c.body hc).inFrame f) fun flow ↦ halts_callResult c flow

theorem halts_callClass (c : Nat) (arguments : List Value) (mark : Mark) :
    Halts depth (callClass body c arguments mark) (callClass body' c arguments mark) := by
  refine (halts_change fun _ hheap ↦ hheap.congr rfl rfl).bind fun i ↦ ?_
  have hfind : HaltsWith depth (fun found ↦ ∀ method ∈ found, AreLoopFree method.body)
      (ask (·.initializer? c)) (ask (·.initializer? c)) :=
    haltsWith_ask fun _ hheap method hmethod ↦ hheap.findMethod? hmethod
  refine hfind.bind fun found hfound ↦ ?_
  cases found with
  | none => exact halts_pure _
  | some method =>
    exact (haltsWith_bindMethod (hfound method rfl) i).bind fun bound hbound ↦
      (halts_callClosure hbody hbound arguments mark).bind fun _ ↦ halts_pure _

theorem halts_callValue (v : Value) (vs : List Value) (line : Nat) :
    Halts depth (callValue body v vs line) (callValue body' v vs line) := by
  cases v with
  | native f =>
    cases f
    exact (halts_checkArity _ _ _).bind fun _ ↦ halts_readClock _
  | functionRef i =>
    have hfind : HaltsWith depth (fun found ↦ ∀ c ∈ found, AreLoopFree c.body)
        (ask (·.functions[i]?)) (ask (·.functions[i]?)) :=
      haltsWith_ask fun _ hheap c hc ↦ hheap.functions i c hc
    refine hfind.bind fun found hfound ↦ ?_
    cases found with
    | none => exact halts_fail _ _
    | some c =>
      exact (halts_checkArity _ _ _).bind fun _ ↦ halts_callClosure hbody (hfound c rfl) vs _
  | classRef c =>
    exact (halts_ask _).bind fun arity ↦ (halts_checkArity _ _ _).bind fun _ ↦
      halts_callClass hbody c vs _
  | _ => exact halts_fail _ _

end

/-! ### Statements with parts -/

theorem Halts.inBlock {p q : Run α} (h : Halts depth p q) : Halts depth (inBlock p) (inBlock q) :=
  halts_currentFrame.bind fun _ ↦ (halts_change fun _ hheap ↦ hheap.congr rfl rfl).bind fun f ↦
    h.inFrame f

theorem halts_declareFunction {decl : FunctionDecl} (hdecl : AreLoopFree decl.body) :
    Halts depth (declareFunction decl) (declareFunction decl) :=
  halts_currentFrame.bind fun _ ↦ (halts_newFunction hdecl).bind fun v ↦
    halts_define decl.name.name v

theorem halts_readSuperclass (s : SuperclassName) :
    Halts depth (readSuperclass s) (readSuperclass s) := by
  refine (halts_readName s.id s.ident.name s.ident.line).bind fun v ↦ ?_
  cases v with
  | classRef c => exact halts_pure c
  | _ => exact halts_fail _ _

section

variable {methods : List FunctionDecl} (hmethods : AreLoopFreeMethods methods)
include hmethods

theorem haltsWith_classRecord (outer : Nat) (name : Ident) (superclass : Option SuperclassName) :
    HaltsWith depth
      (fun record ↦ ∀ name c, record.methods.find? name = some c → AreLoopFree c.body)
      (classRecord outer name superclass methods) (classRecord outer name superclass methods) := by
  cases superclass with
  | none => exact haltsWith_pure fun _ _ ↦ areLoopFree_of_find?_methodTable hmethods
  | some s =>
    refine (halts_readSuperclass s).bind fun c ↦ ?_
    refine (halts_change fun _ hheap ↦ hheap.congr rfl rfl).bind fun f ↦ ?_
    refine (halts_change fun _ hheap ↦ hheap.congr rfl rfl).bind fun _ ↦ ?_
    exact haltsWith_pure fun _ _ ↦ areLoopFree_of_find?_methodTable hmethods

theorem halts_declareClass (name : Ident) (superclass : Option SuperclassName) :
    Halts depth (declareClass name superclass methods)
      (declareClass name superclass methods) :=
  halts_currentFrame.bind fun outer ↦ (haltsWith_classRecord hmethods outer name superclass).bind
    fun _ hrecord ↦ (halts_change fun _ hheap ↦ hheap.newClass hrecord).bind fun v ↦
      halts_define name.name v

end

end Run

/-! ### Expressions and statements -/

open Run

/-- Two meanings of calls that do the same and come to an end. -/
def CallHalts (depth : Nat) (call call' : Call) : Prop :=
  ∀ v vs line, Halts depth (call v vs line) (call' v vs line)

variable {depth turns turns' : Nat} {call call' : Call}

mutual

theorem Expr.halts_eval (hcall : CallHalts depth call call') : ∀ {e : Expr}, e.IsLoopFree →
    Halts depth (e.eval call turns) (e.eval call' turns')
  | .literal _ _, _ => by
    rw [Expr.eval, Expr.eval]
    exact halts_pure _
  | .grouping _ inner, h => by
    rw [Expr.IsLoopFree] at h
    rw [Expr.eval, Expr.eval]
    exact inner.halts_eval hcall h
  | .unary _ _ _ operand, h => by
    rw [Expr.IsLoopFree] at h
    rw [Expr.eval, Expr.eval]
    exact (operand.halts_eval hcall h).bind fun _ ↦ halts_ofExcept _
  | .binary _ _ _ left right, h => by
    rw [Expr.IsLoopFree] at h
    rw [Expr.eval, Expr.eval]
    exact (left.halts_eval hcall h.1).bind fun _ ↦ (right.halts_eval hcall h.2).bind fun _ ↦
      halts_ofExcept _
  | .logical _ _ _ left right, h => by
    rw [Expr.IsLoopFree] at h
    rw [Expr.eval, Expr.eval]
    refine (left.halts_eval hcall h.1).bind fun v ↦ ?_
    split
    · exact halts_pure v
    · exact right.halts_eval hcall h.2
  | .read id name, _ => by
    rw [Expr.eval, Expr.eval]
    exact halts_readName id name.name name.line
  | .assign id name value, h => by
    rw [Expr.IsLoopFree] at h
    rw [Expr.eval, Expr.eval]
    exact (value.halts_eval hcall h).bind fun v ↦
      (halts_assignName id name.name name.line v).bind fun _ ↦ halts_pure v
  | .call _ callee line arguments, h => by
    rw [Expr.IsLoopFree] at h
    rw [Expr.eval, Expr.eval]
    exact (callee.halts_eval hcall h.1).bind fun v ↦ (halts_evalExprs hcall h.2).bind fun vs ↦
      hcall v vs line
  | .lambda _ _ _ _, h => by
    rw [Expr.IsLoopFree] at h
    rw [Expr.eval, Expr.eval]
    exact halts_currentFrame.bind fun _ ↦ halts_newFunction h
  | .get _ object name, h => by
    rw [Expr.IsLoopFree] at h
    rw [Expr.eval, Expr.eval]
    exact (object.halts_eval hcall h).bind fun v ↦ halts_getProperty v name
  | .set _ object name value, h => by
    rw [Expr.IsLoopFree] at h
    rw [Expr.eval, Expr.eval]
    exact (object.halts_eval hcall h.1).bind fun o ↦ (halts_requireInstance o name).bind fun i ↦
      (value.halts_eval hcall h.2).bind fun v ↦ (halts_setProperty i name v).bind fun _ ↦
        halts_pure v
  | .this id line, _ => by
    rw [Expr.eval, Expr.eval]
    exact halts_readName id .this line
  | .super id line method, _ => by
    rw [Expr.eval, Expr.eval]
    exact halts_superMethod id line method

theorem halts_evalExprs (hcall : CallHalts depth call call') : ∀ {es : List Expr},
    AreLoopFreeExprs es → Halts depth (evalExprs call turns es) (evalExprs call' turns' es)
  | [], _ => by
    rw [evalExprs, evalExprs]
    exact halts_pure []
  | e :: es, h => by
    rw [AreLoopFreeExprs] at h
    rw [evalExprs, evalExprs]
    exact (e.halts_eval hcall h.1).bind fun v ↦ (halts_evalExprs hcall h.2).bind fun vs ↦
      halts_pure (v :: vs)

theorem Stmt.halts_exec (hcall : CallHalts depth call call') : ∀ {s : Stmt}, s.IsLoopFree →
    Halts depth (s.exec call turns) (s.exec call' turns')
  | .expression e, h => by
    rw [Stmt.IsLoopFree] at h
    rw [Stmt.exec, Stmt.exec]
    exact (e.halts_eval hcall h).bind fun _ ↦ halts_pure _
  | .print line value, h => by
    rw [Stmt.IsLoopFree] at h
    rw [Stmt.exec, Stmt.exec]
    exact (value.halts_eval hcall h).bind fun v ↦ (halts_printLine line v).bind fun _ ↦ halts_pure _
  | .varDecl name none, _ => by
    rw [Stmt.exec, Stmt.exec]
    exact (halts_define name.name .nil).bind fun _ ↦ halts_pure _
  | .varDecl name (some value), h => by
    rw [Stmt.IsLoopFree] at h
    rw [Stmt.exec, Stmt.exec]
    exact (value.halts_eval hcall h).bind fun v ↦ (halts_define name.name v).bind fun _ ↦
      halts_pure _
  | .block body, h => by
    rw [Stmt.IsLoopFree] at h
    rw [Stmt.exec, Stmt.exec]
    exact (halts_execStmts hcall h).inBlock
  | .ifElse condition thenBranch none, h => by
    rw [Stmt.IsLoopFree] at h
    rw [Stmt.exec, Stmt.exec]
    refine (condition.halts_eval hcall h.1).bind fun v ↦ ?_
    split
    · exact thenBranch.halts_exec hcall h.2
    · exact halts_pure _
  | .ifElse condition thenBranch (some elseBranch), h => by
    rw [Stmt.IsLoopFree] at h
    rw [Stmt.exec, Stmt.exec]
    refine (condition.halts_eval hcall h.1).bind fun v ↦ ?_
    split
    · exact thenBranch.halts_exec hcall h.2.1
    · exact elseBranch.halts_exec hcall h.2.2
  | .whileLoop condition body, h => by
    rw [Stmt.IsLoopFree] at h
    exact h.elim
  | .funDecl decl, h => by
    rw [Stmt.IsLoopFree, decl.isLoopFree_iff] at h
    rw [Stmt.exec, Stmt.exec]
    exact (halts_declareFunction h).bind fun _ ↦ halts_pure _
  | .returns _ none, _ => by
    rw [Stmt.exec, Stmt.exec]
    exact halts_pure _
  | .returns _ (some value), h => by
    rw [Stmt.IsLoopFree] at h
    rw [Stmt.exec, Stmt.exec]
    exact (value.halts_eval hcall h).bind fun v ↦ halts_pure _
  | .classDecl name superclass methods, h => by
    rw [Stmt.IsLoopFree] at h
    rw [Stmt.exec, Stmt.exec]
    exact (halts_declareClass h name superclass).bind fun _ ↦ halts_pure _

theorem halts_execStmts (hcall : CallHalts depth call call') : ∀ {ss : List Stmt}, AreLoopFree ss →
    Halts depth (execStmts call turns ss) (execStmts call' turns' ss)
  | [], _ => by
    rw [execStmts, execStmts]
    exact halts_pure _
  | s :: ss, h => by
    rw [AreLoopFree] at h
    rw [execStmts, execStmts]
    refine (s.halts_exec hcall h.1).bind fun flow ↦ ?_
    cases flow with
    | next => exact halts_execStmts hcall h.2
    | returned v => exact halts_pure _

end

/-- Calls come to an end where the levels are enough for the calls that can still be made. -/
theorem halts_callAt (turns turns' : Nat) {level level' : Nat} (hdepth : depth ≤ maxCalls)
    (hlevel : maxCalls < depth + level) (hlevel' : maxCalls < depth + level') :
    CallHalts depth (callAt turns level) (callAt turns' level') := by
  induction level generalizing depth level' with
  | zero => omega
  | succ level ih =>
    cases level' with
    | zero => omega
    | succ level' =>
      refine halts_callValue fun hmore ss hss ↦ ?_
      exact halts_execStmts (ih hmore (by omega) (by omega)) hss

/-- A program without loops comes to an end from where no call is in progress. -/
theorem halts_executeProgram (turns turns' : Nat) {program : List Stmt}
    (hprogram : AreLoopFree program) :
    Halts 0 (executeProgram turns program) (executeProgram turns' program) := by
  have henough : maxCalls < 0 + enoughLevels := by simp [enoughLevels]
  have hcall := halts_callAt turns turns' (Nat.zero_le maxCalls) henough henough
  induction program with
  | nil => exact halts_pure ()
  | cons s ss ih =>
    rw [AreLoopFree] at hprogram
    exact (Stmt.halts_exec hcall hprogram.1).bind fun _ ↦ ih hprogram.2

end LexScript
