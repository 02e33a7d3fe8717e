import LexScript.Evaluation
import LexScript.Proofs.Actions
import LexScript.Proofs.Heap.Frames

/-!
# What a run leaves as it was

A run takes nothing away. The frames, functions, classes and instances of its start are there at
its end, with the same links between them; a name that was bound in a frame still is, and what a
frame binds `this` or `super` to does not change at all. The frame in scope and the number of calls
in progress are changed for the time of an action only, so they are the same at the end however the
action ends.

All of this holds of every state, whether or not a program can bring a session there.

## Main definitions

* `Heap.GrowsTo` : a heap that another one has grown into.
* `Run.Settles` : an action that leaves behind what it found.

## Main statements

* `Expr.settles_eval`, `Stmt.settles_exec`, `settles_callAt` : evaluation settles.
-/

namespace LexScript

/-! ### Heaps -/

/-- A heap has grown into another one. -/
structure Heap.GrowsTo (h h' : Heap) : Prop where
  frames : h.frames.size ≤ h'.frames.size
  enclosing : ∀ f < h.frames.size, h'.frames.enclosing? f = h.frames.enclosing? f
  binds : ∀ f x, h.frames.binds f x = true → h'.frames.binds f x = true
  receivers : ∀ f < h.frames.size, ∀ x : Name, x.isReceiver = true →
    h'.frames.find? f x = h.frames.find? f x
  functions : ∀ (i : Nat) c, h.functions[i]? = some c → h'.functions[i]? = some c
  classes : ∀ (i : Nat) c, h.classes[i]? = some c → h'.classes[i]? = some c
  classOf : ∀ i c, h.classOf? i = some c → h'.classOf? i = some c

namespace Heap

theorem GrowsTo.refl (h : Heap) : h.GrowsTo h :=
  ⟨Nat.le_refl _, fun _ _ ↦ rfl, fun _ _ ↦ id, fun _ _ _ _ ↦ rfl, fun _ _ ↦ id, fun _ _ ↦ id,
    fun _ _ ↦ id⟩

theorem GrowsTo.trans {h h' h'' : Heap} (hg : h.GrowsTo h') (hg' : h'.GrowsTo h'') :
    h.GrowsTo h'' where
  frames := Nat.le_trans hg.frames hg'.frames
  enclosing f hf := (hg'.enclosing f (Nat.lt_of_lt_of_le hf hg.frames)).trans (hg.enclosing f hf)
  binds f x hx := hg'.binds f x (hg.binds f x hx)
  receivers f hf x hx :=
    (hg'.receivers f (Nat.lt_of_lt_of_le hf hg.frames) x hx).trans (hg.receivers f hf x hx)
  functions i c hc := hg'.functions i c (hg.functions i c hc)
  classes i c hc := hg'.classes i c (hg.classes i c hc)
  classOf i c hc := hg'.classOf i c (hg.classOf i c hc)

variable (h : Heap)

/-- A change of frames alone. -/
theorem growsTo_of_frames {frames : Frames Value} (hsize : h.frames.size ≤ frames.size)
    (henclosing : ∀ f < h.frames.size, frames.enclosing? f = h.frames.enclosing? f)
    (hbinds : ∀ f x, h.frames.binds f x = true → frames.binds f x = true)
    (hreceivers : ∀ f < h.frames.size, ∀ x : Name, x.isReceiver = true →
      frames.find? f x = h.frames.find? f x) :
    h.GrowsTo { h with frames := frames } :=
  ⟨hsize, henclosing, hbinds, hreceivers, fun _ _ ↦ id, fun _ _ ↦ id, fun _ _ ↦ id⟩

theorem growsTo_newFrame (outer : Nat) : h.GrowsTo (h.newFrame outer).2 := by
  refine h.growsTo_of_frames (by simp) (fun f hf ↦ ?_) (fun f x hx ↦ ?_) fun f _ x _ ↦ ?_
  · rw [Frames.enclosing?_push, if_neg (Nat.ne_of_lt hf)]
  · rwa [Frames.binds, Frames.find?_push]
  · rw [Frames.find?_push]

theorem growsTo_define (f : Nat) (x : Ident) (v : Value) : h.GrowsTo (h.define f x.name v) := by
  refine h.growsTo_of_frames (by simp) (fun g _ ↦ ?_) (fun g y ↦ ?_) fun g _ y hy ↦ ?_
  · rw [Frames.enclosing?_define]
  · exact h.frames.binds_define f x.name v
  · have hne : y ≠ x.name := by
      rintro rfl
      cases hy
    rw [Frames.find?_define, if_neg fun hgy ↦ hne hgy.2.1]

/-- A new frame in which a name is bound at once. -/
theorem growsTo_newFrame_define (outer : Nat) (x : Name) (v : Value) :
    h.GrowsTo ((h.newFrame outer).2.define h.frames.size x v) := by
  have hnew := h.growsTo_newFrame outer
  refine h.growsTo_of_frames (by simp [newFrame]) (fun f hf ↦ ?_) (fun f y hy ↦ ?_)
    fun f hf y hy ↦ ?_
  · rw [Frames.enclosing?_define]
    exact hnew.enclosing f hf
  · exact Frames.binds_define _ _ _ _ (hnew.binds f y hy)
  · rw [Frames.find?_define, if_neg fun h ↦ Nat.ne_of_lt hf h.1]
    exact hnew.receivers f hf y hy

theorem enclosing?_newFrame_define (outer : Nat) (x : Name) (v : Value) :
    ((h.newFrame outer).2.define h.frames.size x v).frames.enclosing? h.frames.size =
      some outer := by
  simp only [newFrame, define, Frames.enclosing?_define, Frames.enclosing?_push, if_true]

theorem find?_newFrame_define (outer : Nat) (x : Name) (v : Value) :
    ((h.newFrame outer).2.define h.frames.size x v).frames.find? h.frames.size x = some v := by
  simp [newFrame, define, Frames.find?_define]

theorem growsTo_bindMethod (method : Closure) (i : Nat) :
    h.GrowsTo (h.bindMethod method i).2 := h.growsTo_newFrame_define method.frame .this _

theorem growsTo_newFunction (c : Closure) : h.GrowsTo (h.newFunction c).2 := by
  refine ⟨Nat.le_refl _, fun _ _ ↦ rfl, fun _ _ ↦ id, fun _ _ _ _ ↦ rfl, fun i c' hc ↦ ?_,
    fun _ _ ↦ id, fun _ _ ↦ id⟩
  have hi := (Array.getElem?_eq_some_iff.1 hc).1
  simp only [newFunction, Array.getElem?_push, if_neg (Nat.ne_of_lt hi), hc]

theorem growsTo_newClass (c : ClassRecord) : h.GrowsTo (h.newClass c).2 := by
  refine ⟨Nat.le_refl _, fun _ _ ↦ rfl, fun _ _ ↦ id, fun _ _ _ _ ↦ rfl, fun _ _ ↦ id,
    fun i c' hc ↦ ?_, fun _ _ ↦ id⟩
  have hi := (Array.getElem?_eq_some_iff.1 hc).1
  simp only [newClass, Array.getElem?_push, if_neg (Nat.ne_of_lt hi), hc]

theorem growsTo_newInstance (c : Nat) : h.GrowsTo (h.newInstance c).2 := by
  refine ⟨Nat.le_refl _, fun _ _ ↦ rfl, fun _ _ ↦ id, fun _ _ _ _ ↦ rfl, fun _ _ ↦ id,
    fun _ _ ↦ id, fun i c' hc ↦ ?_⟩
  obtain ⟨record, hrecord, rfl⟩ := Option.map_eq_some_iff.1 hc
  have hi := (Array.getElem?_eq_some_iff.1 hrecord).1
  simp only [newInstance, classOf?, Array.getElem?_push, if_neg (Nat.ne_of_lt hi), hrecord,
    Option.map_some]

theorem classOf?_setField (i : Nat) (name : String) (v : Value) (j : Nat) :
    (h.setField i name v).classOf? j = h.classOf? j := by
  simp only [setField, classOf?, Array.getElem?_modify]
  split
  · cases h.instances[j]? <;> rfl
  · rfl

theorem growsTo_setField (i : Nat) (name : String) (v : Value) :
    h.GrowsTo (h.setField i name v) :=
  ⟨Nat.le_refl _, fun _ _ ↦ rfl, fun _ _ ↦ id, fun _ _ _ _ ↦ rfl, fun _ _ ↦ id, fun _ _ ↦ id,
    fun j c hc ↦ by rwa [classOf?_setField]⟩

theorem growsTo_bindParams (f : Nat) (params : List Ident) (arguments : List Value) (h : Heap) :
    h.GrowsTo (Run.bindParams f params arguments h) := by
  induction params generalizing arguments h with
  | nil => exact .refl h
  | cons x params ih =>
    cases arguments with
    | nil => exact .refl h
    | cons v arguments => exact (h.growsTo_define f x v).trans (ih arguments _)

end Heap

/-! ### Actions -/

/-- A machine has the frame in scope, the calls in progress and the distances of another one, and
its heap has grown out of that one's heap. -/
structure Machine.SettlesTo (m m' : Machine) : Prop where
  current : m'.current = m.current
  depth : m'.depth = m.depth
  distances : m'.distances = m.distances
  heap : m.heap.GrowsTo m'.heap

theorem Machine.SettlesTo.refl (m : Machine) : m.SettlesTo m := ⟨rfl, rfl, rfl, .refl _⟩

theorem Machine.SettlesTo.trans {m m' m'' : Machine} (h : m.SettlesTo m')
    (h' : m'.SettlesTo m'') : m.SettlesTo m'' :=
  ⟨h'.current.trans h.current, h'.depth.trans h.depth, h'.distances.trans h.distances,
    h.heap.trans h'.heap⟩

namespace Run

variable {α β : Type}

/-- However an action ends, it leaves behind what it found. -/
def Settles (p : Run α) : Prop :=
  ∀ m, match p m with
    | .ok _ m' => m.SettlesTo m'
    | .error _ m' => m.SettlesTo m'

/-- What an action ends with that leaves behind what it found. -/
theorem Settles.of_eq_ok {p : Run α} (hp : p.Settles) {m m' : Machine} {a : α}
    (h : p m = .ok a m') : m.SettlesTo m' := by
  have hm := hp m
  rwa [h] at hm

/-- An action that only looks at the machine. -/
theorem settles_of_eq_self {p : Run α}
    (h : ∀ m, (∃ a, p m = .ok a m) ∨ ∃ e, p m = .error e m) : p.Settles := by
  intro m
  obtain ⟨a, ha⟩ | ⟨e, he⟩ := h m
  · rw [ha]
    exact .refl m
  · rw [he]
    exact .refl m

theorem settles_pure (a : α) : (pure a : Run α).Settles := fun m ↦ .refl m

theorem settles_throw (e : Stop) : (throw e : Run α).Settles := fun m ↦ .refl m

theorem settles_fail (fault : Fault) (mark : Mark) : (fail fault mark : Run α).Settles :=
  settles_throw _

theorem Settles.bind {p : Run α} {f : α → Run β} (hp : p.Settles) (hf : ∀ a, (f a).Settles) :
    (p >>= f).Settles := by
  intro m
  have hm := hp m
  rw [bind_apply]
  cases h : p m with
  | error e m' => simpa only [h] using hm
  | ok a m' =>
    rw [h] at hm
    have hm' := hf a m'
    simp only
    split at hm'
    · exact hm.trans hm'
    · exact hm.trans hm'

theorem settles_ask (question : Heap → α) : (ask question).Settles := fun m ↦ .refl m

theorem settles_change {step : Heap → α × Heap} (h : ∀ heap : Heap, heap.GrowsTo (step heap).2) :
    (change step).Settles := fun m ↦ ⟨rfl, rfl, rfl, h m.heap⟩

theorem settles_currentFrame : currentFrame.Settles := fun m ↦ .refl m

theorem settles_distanceOf (id : Nat) : (distanceOf id).Settles := fun m ↦ .refl m

theorem Settles.inFrame {p : Run α} (h : p.Settles) (f : Nat) : (inFrame f p).Settles := by
  intro m
  have hm := h { m with current := f }
  unfold Run.inFrame
  cases hp : p { m with current := f } with
  | ok a m' =>
    rw [hp] at hm
    exact ⟨rfl, hm.depth, hm.distances, hm.heap⟩
  | error e m' =>
    rw [hp] at hm
    exact ⟨rfl, hm.depth, hm.distances, hm.heap⟩

theorem Settles.inCall {p : Run α} (h : p.Settles) (mark : Mark) : (inCall mark p).Settles := by
  intro m
  have hm := h { m with depth := m.depth + 1 }
  unfold Run.inCall
  by_cases hmax : maxCalls ≤ m.depth
  · rw [if_pos hmax]
    exact .refl m
  · rw [if_neg hmax]
    -- The call is over again, so the number is back where it was.
    have hdepth {m' : Machine} (hm' : m'.depth = m.depth + 1) : m'.depth - 1 = m.depth := by
      rw [hm', Nat.add_sub_cancel]
    cases hp : p { m with depth := m.depth + 1 } with
    | ok a m' =>
      rw [hp] at hm
      exact ⟨hm.current, hdepth hm.depth, hm.distances, hm.heap⟩
    | error e m' =>
      rw [hp] at hm
      exact ⟨hm.current, hdepth hm.depth, hm.distances, hm.heap⟩

/-! ### Names, output and time -/

theorem settles_define (x : Ident) (v : Value) : (define x.name v).Settles := fun m ↦
  ⟨rfl, rfl, rfl, m.heap.growsTo_define m.current x v⟩

theorem settles_readAt (distance : Nat) (x : Name) (line : Nat) :
    (readAt distance x line).Settles := by
  refine settles_of_eq_self fun m ↦ ?_
  unfold readAt
  cases m.heap.frames.getAt m.current distance x line with
  | ok v => exact .inl ⟨v, rfl⟩
  | error e => exact .inr ⟨_, rfl⟩

theorem settles_readGlobal (x : Name) (line : Nat) : (readGlobal x line).Settles := by
  refine settles_of_eq_self fun m ↦ ?_
  unfold readGlobal
  cases m.heap.frames.get Frames.globals x line with
  | ok v => exact .inl ⟨v, rfl⟩
  | error e => exact .inr ⟨_, rfl⟩

theorem settles_readName (id : Nat) (x : Name) (line : Nat) : (readName id x line).Settles := by
  refine (settles_distanceOf id).bind fun distance ↦ ?_
  cases distance with
  | none => exact settles_readGlobal x line
  | some d => exact settles_readAt d x line

theorem settles_assignName (id : Nat) (x : Ident) (line : Nat) (v : Value) :
    (assignName id x.name line v).Settles := by
  have hassignee : (assignee id x.name).Settles := fun m ↦ .refl m
  refine hassignee.bind fun frame ↦ ?_
  cases frame with
  | none => exact settles_throw _
  | some f => exact settles_change fun heap ↦ heap.growsTo_define f x v

theorem settles_printLine (line : Nat) (v : Value) : (printLine line v).Settles := by
  intro m
  unfold printLine
  dsimp only
  rcases m.sink.printLine (v.text m.heap) with ⟨_ | reason, sink⟩
  · exact ⟨rfl, rfl, rfl, .refl _⟩
  · exact ⟨rfl, rfl, rfl, .refl _⟩

theorem settles_readClock (mark : Mark) : (readClock mark).Settles := by
  intro m
  unfold readClock
  rcases m.clock.read with ⟨reason | time, clock⟩
  · exact ⟨rfl, rfl, rfl, .refl _⟩
  · exact ⟨rfl, rfl, rfl, .refl _⟩

theorem settles_ofExcept (result : Except RuntimeError α) : (ofExcept result).Settles := by
  cases result with
  | ok a => exact settles_pure a
  | error e => exact settles_throw _

/-! ### Properties -/

theorem settles_newFunction (c : Closure) : (newFunction c).Settles :=
  settles_change fun heap ↦ heap.growsTo_newFunction c

theorem settles_boundMethod (c i : Nat) (name : Ident) : (boundMethod c i name).Settles := by
  refine (settles_ask _).bind fun method ↦ ?_
  cases method with
  | none => exact settles_fail _ _
  | some method =>
    exact (settles_change fun heap ↦ heap.growsTo_bindMethod method i).bind settles_newFunction

theorem settles_getProperty (object : Value) (name : Ident) :
    (getProperty object name).Settles := by
  cases object with
  | instanceRef i =>
    refine (settles_ask _).bind fun field ↦ ?_
    cases field with
    | some v => exact settles_pure v
    | none =>
      refine (settles_ask _).bind fun c ↦ ?_
      cases c with
      | some c => exact settles_boundMethod c i name
      | none => exact settles_fail _ _
  | _ => exact settles_fail _ _

theorem settles_setProperty (i : Nat) (name : Ident) (v : Value) :
    (setProperty i name v).Settles := settles_change fun heap ↦ heap.growsTo_setField i name.text v

theorem settles_requireInstance (object : Value) (name : Ident) :
    (requireInstance object name).Settles := by
  cases object with
  | instanceRef i => exact settles_pure i
  | _ => exact settles_fail _ _

theorem settles_superMethod (id line : Nat) (method : Ident) :
    (superMethod id line method).Settles := by
  refine (settles_distanceOf id).bind fun distance ↦ ?_
  cases distance with
  | none => exact settles_throw _
  | some d =>
    refine (settles_readAt d .super line).bind fun superclass ↦ ?_
    cases superclass with
    | classRef c =>
      refine (settles_readAt (d - 1) .this line).bind fun instance_ ↦ ?_
      cases instance_ with
      | instanceRef i => exact settles_boundMethod c i method
      | _ => exact settles_fail _ _
    | _ => exact settles_fail _ _

/-! ### Calls -/

theorem settles_checkArity (mark : Mark) (expected got : Nat) :
    (checkArity mark expected got).Settles := by
  unfold checkArity
  split
  · exact settles_pure ()
  · exact settles_fail _ _

theorem settles_callResult (c : Closure) (flow : Flow) : (callResult c flow).Settles := by
  unfold callResult
  split
  · exact settles_ask _
  · cases flow with
    | returned v => exact settles_pure v
    | next => exact settles_pure Value.nil

section

variable {body : List Stmt → Run Flow} (hbody : ∀ ss, (body ss).Settles)
include hbody

theorem settles_callClosure (c : Closure) (arguments : List Value) (mark : Mark) :
    (callClosure body c arguments mark).Settles := by
  refine Settles.inCall ?_ mark
  refine (settles_change fun heap ↦ heap.growsTo_newFrame c.frame).bind fun f ↦ ?_
  refine (settles_change fun heap ↦ heap.growsTo_bindParams f c.params arguments).bind fun _ ↦ ?_
  exact ((hbody c.body).inFrame f).bind (settles_callResult c)

theorem settles_callClass (c : Nat) (arguments : List Value) (mark : Mark) :
    (callClass body c arguments mark).Settles := by
  refine (settles_change fun heap ↦ heap.growsTo_newInstance c).bind fun i ↦
    (settles_ask _).bind fun method ↦ ?_
  cases method with
  | none => exact settles_pure _
  | some method =>
    exact (settles_change fun heap ↦ heap.growsTo_bindMethod method i).bind fun bound ↦
      (settles_callClosure hbody bound arguments mark).bind fun _ ↦ settles_pure _

theorem settles_callValue (v : Value) (vs : List Value) (line : Nat) :
    (callValue body v vs line).Settles := by
  cases v with
  | native f =>
    cases f
    exact (settles_checkArity _ _ _).bind fun _ ↦ settles_readClock _
  | functionRef i =>
    refine (settles_ask _).bind fun c ↦ ?_
    cases c with
    | none => exact settles_fail _ _
    | some c => exact (settles_checkArity _ _ _).bind fun _ ↦ settles_callClosure hbody c vs _
  | classRef c =>
    exact (settles_ask _).bind fun arity ↦ (settles_checkArity _ _ _).bind fun _ ↦
      settles_callClass hbody c vs _
  | _ => exact settles_fail _ _

end

/-! ### Statements with parts -/

theorem settles_repeatWhile {condition : Run Value} {body : Run Flow}
    (hcondition : condition.Settles) (hbody : body.Settles) (turns : Nat) :
    (repeatWhile condition body turns).Settles := by
  induction turns with
  | zero => exact settles_throw _
  | succ turns ih =>
    refine hcondition.bind fun v ↦ ?_
    split
    · refine hbody.bind fun flow ↦ ?_
      cases flow with
      | next => exact ih
      | returned v => exact settles_pure _
    · exact settles_pure _

theorem Settles.inBlock {p : Run α} (h : p.Settles) : (inBlock p).Settles :=
  settles_currentFrame.bind fun outer ↦
    (settles_change fun heap ↦ heap.growsTo_newFrame outer).bind h.inFrame

theorem settles_declareFunction (decl : FunctionDecl) : (declareFunction decl).Settles :=
  settles_currentFrame.bind fun _ ↦ (settles_newFunction _).bind (settles_define decl.name)

theorem settles_readSuperclass (s : SuperclassName) : (readSuperclass s).Settles := by
  refine (settles_readName s.id s.ident.name s.ident.line).bind fun v ↦ ?_
  cases v with
  | classRef c => exact settles_pure c
  | _ => exact settles_fail _ _

theorem settles_classRecord (outer : Nat) (name : Ident) (superclass : Option SuperclassName)
    (methods : List FunctionDecl) : (classRecord outer name superclass methods).Settles := by
  cases superclass with
  | none => exact settles_pure _
  | some s =>
    refine (settles_readSuperclass s).bind fun c m ↦ ?_
    exact ⟨rfl, rfl, rfl, m.heap.growsTo_newFrame_define outer .super (.classRef c)⟩

theorem settles_declareClass (name : Ident) (superclass : Option SuperclassName)
    (methods : List FunctionDecl) : (declareClass name superclass methods).Settles :=
  settles_currentFrame.bind fun outer ↦ (settles_classRecord outer name superclass methods).bind
    fun record ↦ (settles_change fun heap ↦ heap.growsTo_newClass record).bind (settles_define name)

end Run

/-! ### Expressions and statements -/

open Run

/-- A meaning of calls that leaves behind what it finds. -/
def CallSettles (call : Call) : Prop := ∀ v vs line, (call v vs line).Settles

variable {call : Call} {turns : Nat}

mutual

theorem Expr.settles_eval (hcall : CallSettles call) : ∀ e : Expr, (e.eval call turns).Settles
  | .literal _ _ => by
    rw [Expr.eval]
    exact settles_pure _
  | .grouping _ inner => by
    rw [Expr.eval]
    exact inner.settles_eval hcall
  | .unary _ _ _ operand => by
    rw [Expr.eval]
    exact (operand.settles_eval hcall).bind fun _ ↦ settles_ofExcept _
  | .binary _ _ _ left right => by
    rw [Expr.eval]
    exact (left.settles_eval hcall).bind fun _ ↦ (right.settles_eval hcall).bind fun _ ↦
      settles_ofExcept _
  | .logical _ _ _ left right => by
    rw [Expr.eval]
    refine (left.settles_eval hcall).bind fun v ↦ ?_
    split
    · exact settles_pure v
    · exact right.settles_eval hcall
  | .read id name => by
    rw [Expr.eval]
    exact settles_readName id name.name name.line
  | .assign id name value => by
    rw [Expr.eval]
    exact (value.settles_eval hcall).bind fun v ↦
      (settles_assignName id name name.line v).bind fun _ ↦ settles_pure v
  | .call _ callee line arguments => by
    rw [Expr.eval]
    exact (callee.settles_eval hcall).bind fun v ↦ (settles_evalExprs hcall arguments).bind
      fun vs ↦ hcall v vs line
  | .lambda _ _ _ _ => by
    rw [Expr.eval]
    exact settles_currentFrame.bind fun _ ↦ settles_newFunction _
  | .get _ object name => by
    rw [Expr.eval]
    exact (object.settles_eval hcall).bind fun v ↦ settles_getProperty v name
  | .set _ object name value => by
    rw [Expr.eval]
    exact (object.settles_eval hcall).bind fun o ↦ (settles_requireInstance o name).bind fun i ↦
      (value.settles_eval hcall).bind fun v ↦ (settles_setProperty i name v).bind fun _ ↦
        settles_pure v
  | .this id line => by
    rw [Expr.eval]
    exact settles_readName id .this line
  | .super id line method => by
    rw [Expr.eval]
    exact settles_superMethod id line method

theorem settles_evalExprs (hcall : CallSettles call) : ∀ es : List Expr,
    (evalExprs call turns es).Settles
  | [] => by
    rw [evalExprs]
    exact settles_pure []
  | e :: es => by
    rw [evalExprs]
    exact (e.settles_eval hcall).bind fun v ↦ (settles_evalExprs hcall es).bind fun vs ↦
      settles_pure (v :: vs)

theorem Stmt.settles_exec (hcall : CallSettles call) : ∀ s : Stmt, (s.exec call turns).Settles
  | .expression e => by
    rw [Stmt.exec]
    exact (e.settles_eval hcall).bind fun _ ↦ settles_pure _
  | .print line value => by
    rw [Stmt.exec]
    exact (value.settles_eval hcall).bind fun v ↦ (settles_printLine line v).bind fun _ ↦
      settles_pure _
  | .varDecl name none => by
    rw [Stmt.exec]
    exact (settles_define name .nil).bind fun _ ↦ settles_pure _
  | .varDecl name (some value) => by
    rw [Stmt.exec]
    exact (value.settles_eval hcall).bind fun v ↦ (settles_define name v).bind fun _ ↦
      settles_pure _
  | .block body => by
    rw [Stmt.exec]
    exact (settles_execStmts hcall body).inBlock
  | .ifElse condition thenBranch none => by
    rw [Stmt.exec]
    refine (condition.settles_eval hcall).bind fun v ↦ ?_
    split
    · exact thenBranch.settles_exec hcall
    · exact settles_pure _
  | .ifElse condition thenBranch (some elseBranch) => by
    rw [Stmt.exec]
    refine (condition.settles_eval hcall).bind fun v ↦ ?_
    split
    · exact thenBranch.settles_exec hcall
    · exact elseBranch.settles_exec hcall
  | .whileLoop condition body => by
    rw [Stmt.exec]
    exact settles_repeatWhile (condition.settles_eval hcall) (body.settles_exec hcall) turns
  | .funDecl decl => by
    rw [Stmt.exec]
    exact (settles_declareFunction decl).bind fun _ ↦ settles_pure _
  | .returns _ none => by
    rw [Stmt.exec]
    exact settles_pure _
  | .returns _ (some value) => by
    rw [Stmt.exec]
    exact (value.settles_eval hcall).bind fun v ↦ settles_pure _
  | .classDecl name superclass methods => by
    rw [Stmt.exec]
    exact (settles_declareClass name superclass methods).bind fun _ ↦ settles_pure _

theorem settles_execStmts (hcall : CallSettles call) : ∀ ss : List Stmt,
    (execStmts call turns ss).Settles
  | [] => by
    rw [execStmts]
    exact settles_pure _
  | s :: ss => by
    rw [execStmts]
    refine (s.settles_exec hcall).bind fun flow ↦ ?_
    cases flow with
    | next => exact settles_execStmts hcall ss
    | returned v => exact settles_pure _

end

theorem settles_callAt (turns level : Nat) : CallSettles (callAt turns level) := by
  induction level with
  | zero => exact fun _ _ _ ↦ settles_throw _
  | succ level ih => exact settles_callValue (settles_execStmts ih)

theorem settles_executeProgram (turns : Nat) (program : List Stmt) :
    (executeProgram turns program).Settles := by
  induction program with
  | nil => exact settles_pure ()
  | cons s ss ih => exact (s.settles_exec (settles_callAt turns enoughLevels)).bind fun _ ↦ ih

end LexScript
