import LexScript.Evaluation
import LexScript.Proofs.Actions
import LexScript.Proofs.Relabelling.Heap

/-!
# Runs of relabelled programs

If each id has the distance that its replacement has in another table, then a relabelled program
on a relabelled machine with the other table does what the program does: it ends with the
relabelled result, error and machine.

## Main definitions

* `Machine.relabel` : a machine with other ids, lines and distances.
* `Run.Follows` : a run that does on relabelled machines what another one does.

## Main statements

* `follows_executeProgram` : a relabelled program does what the program does.
-/

namespace LexScript

/-- An error of a run on another line. -/
def RuntimeError.relabel (ρ : Relabelling) (e : RuntimeError) : RuntimeError :=
  ⟨e.fault, e.mark.relabel ρ⟩

/-- Why a run ends, on another line. -/
def Stop.relabel (ρ : Relabelling) : Stop → Stop
  | fault e => fault (e.relabel ρ)
  | exhausted => exhausted

/-- A machine with other ids and lines in its heap and with other distances. -/
def Machine.relabel (ρ : Relabelling) (distances : Distances) (m : Machine) : Machine :=
  { m with
    heap := m.heap.relabel ρ
    distances := distances }

theorem Machine.relabel_relabel {ρ σ : Relabelling} (m : Machine)
    (distances distances' : Distances) :
    (m.relabel σ distances').relabel ρ distances = m.relabel (ρ.after σ) distances := by
  rw [relabel, relabel, relabel, Heap.relabel_relabel]

/-- The distances are those of another table after the ids are replaced. -/
def Distances.AgreeOn (ρ : Relabelling) (d d' : Distances) : Prop :=
  ∀ id, d'.find? (ρ.ids id) = d.find? id

namespace Run

variable {α β γ δ : Type}

/-- The machine behind a run, however it ends. -/
def machineOf : EStateM.Result Stop Machine α → Machine
  | .ok _ m => m
  | .error _ m => m

/-- How a run ends, with another result, other ids, lines and distances. -/
def relabelEnd (ρ : Relabelling) (distances : Distances) (g : α → β) :
    EStateM.Result Stop Machine α → EStateM.Result Stop Machine β
  | .ok a m => .ok (g a) (m.relabel ρ distances)
  | .error e m => .error (e.relabel ρ) (m.relabel ρ distances)

theorem relabelEnd_relabelEnd {ρ σ : Relabelling} {distances distances' : Distances}
    (r : EStateM.Result Stop Machine α) :
    relabelEnd ρ distances id (relabelEnd σ distances' id r) =
      relabelEnd (ρ.after σ) distances id r := by
  rcases r with ⟨_, m⟩ | ⟨_ | _, m⟩ <;> simp only [relabelEnd, m.relabel_relabel] <;> rfl

/-- Whenever the distances agree, the second run does on a relabelled machine what the first one
does on the machine, with a result that is replaced, too. -/
def Follows (ρ : Relabelling) (distances : Distances) (g : α → β) (p : Run α) (q : Run β) : Prop :=
  ∀ m, m.distances.AgreeOn ρ distances →
    q (m.relabel ρ distances) = relabelEnd ρ distances g (p m) ∧
      (machineOf (p m)).distances = m.distances

variable {ρ : Relabelling} {distances : Distances} {g : α → β} {g' : γ → δ}

/-! ### Composed runs -/

theorem follows_pure (a : α) : Follows ρ distances g (pure a) (pure (g a)) :=
  fun _ _ ↦ ⟨rfl, rfl⟩

theorem follows_throw (e : Stop) : Follows ρ distances g (throw e) (throw (e.relabel ρ)) :=
  fun _ _ ↦ ⟨rfl, rfl⟩

theorem follows_fail (fault : Fault) (mark : Mark) :
    Follows ρ distances g (fail fault mark) (fail fault (mark.relabel ρ)) := follows_throw _

theorem Follows.bind {p : Run α} {q : Run β} {f : α → Run γ} {f' : β → Run δ}
    (hp : Follows ρ distances g p q) (hf : ∀ a, Follows ρ distances g' (f a) (f' (g a))) :
    Follows ρ distances g' (p >>= f) (q >>= f') := by
  intro m hm
  obtain ⟨hq, hdist⟩ := hp m hm
  rw [bind_apply, bind_apply, hq]
  cases h : p m with
  | error e m' =>
    rw [h] at hdist
    exact ⟨rfl, hdist⟩
  | ok a m' =>
    rw [h, machineOf] at hdist
    have := hf a m' (by rwa [hdist])
    rwa [hdist] at this

/-- If the result itself is not replaced, what goes on with it is the same on both sides. -/
theorem Follows.andThen {p q : Run α} {f : α → Run γ} {f' : α → Run δ}
    (hp : Follows ρ distances id p q) (hf : ∀ a, Follows ρ distances g' (f a) (f' a)) :
    Follows ρ distances g' (p >>= f) (q >>= f') := hp.bind hf

/-! ### The heap -/

theorem follows_ask {question : Heap → α} {question' : Heap → β}
    (h : ∀ heap : Heap, question' (heap.relabel ρ) = g (question heap)) :
    Follows ρ distances g (ask question) (ask question') :=
  fun m _ ↦ ⟨congrArg (EStateM.Result.ok · _) (h m.heap), rfl⟩

theorem follows_change {step : Heap → α × Heap} {step' : Heap → β × Heap}
    (h : ∀ heap : Heap,
      step' (heap.relabel ρ) = (g (step heap).1, (step heap).2.relabel ρ)) :
    Follows ρ distances g (change step) (change step') := by
  intro m _
  refine ⟨?_, rfl⟩
  simp only [change, Machine.relabel, h, relabelEnd]

theorem follows_currentFrame : Follows ρ distances id currentFrame currentFrame :=
  fun _ _ ↦ ⟨rfl, rfl⟩

theorem Follows.inFrame {p : Run α} {q : Run β} (h : Follows ρ distances g p q) (f : Nat) :
    Follows ρ distances g (inFrame f p) (inFrame f q) := by
  intro m hm
  obtain ⟨hq, hdist⟩ := h { m with current := f } hm
  have hq : q { m.relabel ρ distances with current := f } = _ := hq
  unfold Run.inFrame
  simp only [hq]
  cases hp : p { m with current := f } with
  | ok a m' =>
    rw [hp] at hdist
    exact ⟨rfl, hdist⟩
  | error e m' =>
    rw [hp] at hdist
    exact ⟨rfl, hdist⟩

theorem Follows.inCall {p : Run α} {q : Run β} (h : Follows ρ distances g p q) (mark : Mark) :
    Follows ρ distances g (inCall mark p) (inCall (mark.relabel ρ) q) := by
  intro m hm
  obtain ⟨hq, hdist⟩ := h { m with depth := m.depth + 1 } hm
  have hq : q { m.relabel ρ distances with depth := m.depth + 1 } = _ := hq
  have hdepth : (m.relabel ρ distances).depth = m.depth := rfl
  unfold Run.inCall
  by_cases hmax : maxCalls ≤ m.depth
  · simp only [hdepth, hmax, if_true]
    exact ⟨rfl, rfl⟩
  · simp only [hdepth, hmax, if_false, hq]
    cases hp : p { m with depth := m.depth + 1 } with
    | ok a m' =>
      rw [hp] at hdist
      exact ⟨rfl, hdist⟩
    | error e m' =>
      rw [hp] at hdist
      exact ⟨rfl, hdist⟩

/-! ### Names -/

theorem follows_define (x : Name) (v : Value) :
    Follows ρ distances id (define x v) (define x v) := fun _ _ ↦ ⟨rfl, rfl⟩

theorem follows_distanceOf (i : Nat) :
    Follows ρ distances id (distanceOf i) (distanceOf (ρ.ids i)) :=
  fun _ hm ↦ ⟨congrArg (EStateM.Result.ok · _) (hm i), rfl⟩

theorem follows_readAt (distance : Nat) (x : Name) (line : Nat) :
    Follows ρ distances id (readAt distance x line) (readAt distance x (ρ.lines line)) := by
  intro m _
  have hframes : (m.relabel ρ distances).heap.frames = m.heap.frames := rfl
  have hcurrent : (m.relabel ρ distances).current = m.current := rfl
  simp only [readAt, Frames.getAt, hframes, hcurrent]
  cases (m.heap.frames.ancestor? m.current distance).bind (m.heap.frames.find? · x) with
  | none => exact ⟨rfl, rfl⟩
  | some v => exact ⟨rfl, rfl⟩

theorem follows_readGlobal (x : Name) (line : Nat) :
    Follows ρ distances id (readGlobal x line) (readGlobal x (ρ.lines line)) := by
  intro m _
  have hframes : (m.relabel ρ distances).heap.frames = m.heap.frames := rfl
  simp only [readGlobal, Frames.get, hframes]
  cases (m.heap.frames.owner? Frames.globals x).bind (m.heap.frames.find? · x) with
  | none => exact ⟨rfl, rfl⟩
  | some v => exact ⟨rfl, rfl⟩

theorem follows_readName (i : Nat) (x : Name) (line : Nat) :
    Follows ρ distances id (readName i x line) (readName (ρ.ids i) x (ρ.lines line)) := by
  refine (follows_distanceOf i).andThen fun distance ↦ ?_
  cases distance with
  | none => exact follows_readGlobal x line
  | some d => exact follows_readAt d x line

theorem follows_assignee (i : Nat) (x : Name) :
    Follows ρ distances id (assignee i x) (assignee (ρ.ids i) x) := by
  intro m hm
  have hd : (m.relabel ρ distances).distances.find? (ρ.ids i) = m.distances.find? i := hm i
  unfold assignee
  simp only [hd]
  exact ⟨rfl, rfl⟩

theorem follows_assignName (i : Nat) (x : Name) (line : Nat) (v : Value) :
    Follows ρ distances id (assignName i x line v)
      (assignName (ρ.ids i) x (ρ.lines line) v) := by
  refine (follows_assignee i x).andThen fun frame ↦ ?_
  cases frame with
  | none => exact follows_throw (.fault (undefinedName x line))
  | some f => exact follows_change fun _ ↦ rfl

/-! ### Output, time and operators -/

theorem follows_printLine (line : Nat) (v : Value) :
    Follows ρ distances id (printLine line v) (printLine (ρ.lines line) v) := by
  intro m _
  have htext : v.text (m.relabel ρ distances).heap = v.text m.heap := v.text_relabel m.heap
  have hsink : (m.relabel ρ distances).sink = m.sink := rfl
  simp only [printLine, htext, hsink]
  rcases m.sink.printLine (v.text m.heap) with ⟨_ | reason, sink⟩
  · exact ⟨rfl, rfl⟩
  · exact ⟨rfl, rfl⟩

theorem follows_readClock (mark : Mark) :
    Follows ρ distances id (readClock mark) (readClock (mark.relabel ρ)) := by
  intro m _
  have hclock : (m.relabel ρ distances).clock = m.clock := rfl
  simp only [readClock, hclock]
  rcases m.clock.read with ⟨reason | time, clock⟩
  · exact ⟨rfl, rfl⟩
  · exact ⟨rfl, rfl⟩

theorem follows_unaryOp (op : UnaryOp) (line : Nat) (v : Value) :
    Follows ρ distances id (ofExcept (op.apply line v)) (ofExcept (op.apply (ρ.lines line) v)) := by
  cases op <;> cases v <;> exact fun _ _ ↦ ⟨rfl, rfl⟩

theorem follows_binaryOp (op : BinaryOp) (line : Nat) (v w : Value) :
    Follows ρ distances id (ofExcept (op.apply line v w))
      (ofExcept (op.apply (ρ.lines line) v w)) := by
  unfold BinaryOp.apply
  cases op.applyValues v w with
  | ok result => exact follows_pure result
  | error fault => exact follows_throw (.fault ⟨fault, ⟨op.kind.lexeme, line⟩⟩)

/-! ### Properties -/

theorem follows_newFunction (c : Closure) :
    Follows ρ distances id (newFunction c) (newFunction (c.relabel ρ)) :=
  follows_change fun heap ↦ heap.newFunction_relabel c

theorem follows_bindMethod (method : Closure) (i : Nat) :
    Follows ρ distances (Closure.relabel ρ) (change (·.bindMethod method i))
      (change (·.bindMethod (method.relabel ρ) i)) :=
  follows_change fun heap ↦ heap.bindMethod_relabel method i

theorem follows_findMethod? (c : Nat) (method : String) :
    Follows ρ distances (Option.map (Closure.relabel ρ)) (ask (·.findMethod? c method))
      (ask (·.findMethod? c method)) :=
  follows_ask fun heap ↦ heap.findMethod?_relabel c method

theorem follows_boundMethod (c i : Nat) (name : Ident) :
    Follows ρ distances id (boundMethod c i name) (boundMethod c i (name.relabel ρ)) := by
  refine (follows_findMethod? c name.text).bind fun method ↦ ?_
  cases method with
  | none => exact follows_fail (.undefinedProperty name.text) name.mark
  | some method => exact (follows_bindMethod method i).bind follows_newFunction

theorem follows_field? (i : Nat) (name : String) :
    Follows ρ distances id (ask (·.field? i name)) (ask (·.field? i name)) :=
  follows_ask fun _ ↦ rfl

theorem follows_classOf? (i : Nat) :
    Follows ρ distances id (ask (·.classOf? i)) (ask (·.classOf? i)) := follows_ask fun _ ↦ rfl

theorem follows_getProperty (object : Value) (name : Ident) :
    Follows ρ distances id (getProperty object name) (getProperty object (name.relabel ρ)) := by
  have notInstance : Follows ρ distances id (fail .notAnInstance name.mark : Run Value)
    (fail .notAnInstance (name.relabel ρ).mark) := follows_fail .notAnInstance name.mark
  cases object with
  | instanceRef i =>
    refine (follows_field? i name.text).andThen fun field ↦ ?_
    cases field with
    | some v => exact follows_pure v
    | none =>
      refine (follows_classOf? i).andThen fun owner ↦ ?_
      cases owner with
      | some c => exact follows_boundMethod c i name
      | none => exact notInstance
  | _ => exact notInstance

theorem follows_setProperty (i : Nat) (name : Ident) (v : Value) :
    Follows ρ distances id (setProperty i name v) (setProperty i (name.relabel ρ) v) :=
  follows_change fun _ ↦ rfl

theorem follows_requireInstance (object : Value) (name : Ident) :
    Follows ρ distances id (requireInstance object name)
      (requireInstance object (name.relabel ρ)) := by
  cases object with
  | instanceRef i => exact follows_pure i
  | _ => exact follows_fail .notAnInstance name.mark

theorem follows_superMethod (i line : Nat) (method : Ident) :
    Follows ρ distances id (superMethod i line method)
      (superMethod (ρ.ids i) (ρ.lines line) (method.relabel ρ)) := by
  refine (follows_distanceOf i).andThen fun distance ↦ ?_
  cases distance with
  | none => exact follows_throw (.fault (undefinedName .super line))
  | some d =>
    refine (follows_readAt d .super line).andThen fun v ↦ ?_
    cases v with
    | classRef c =>
      refine (follows_readAt (d - 1) .this line).andThen fun v ↦ ?_
      cases v with
      | instanceRef i => exact follows_boundMethod c i method
      | _ => exact follows_fail .notAnInstance ⟨Name.super.text, line⟩
    | _ => exact follows_fail .invalidSuperclass ⟨Name.super.text, line⟩

/-! ### Calls -/

theorem follows_checkArity (mark : Mark) (expected got : Nat) :
    Follows ρ distances id (checkArity mark expected got)
      (checkArity (mark.relabel ρ) expected got) := by
  unfold checkArity
  split
  · exact follows_pure ()
  · exact follows_fail (.arityMismatch expected got) mark

theorem bindParams_relabel (f : Nat) (params : List Ident) (arguments : List Value) (h : Heap) :
    bindParams f (params.map (Ident.relabel ρ)) arguments (h.relabel ρ) =
      (bindParams f params arguments h).relabel ρ := by
  induction params generalizing arguments h with
  | nil => rfl
  | cons x params ih =>
    cases arguments with
    | nil => rfl
    | cons v arguments => exact ih arguments (h.define f x.name v)

theorem follows_callResult (c : Closure) (flow : Flow) :
    Follows ρ distances id (callResult c flow) (callResult (c.relabel ρ) flow) := by
  have hinit : (c.relabel ρ).isInitializer = c.isInitializer := rfl
  unfold callResult
  rw [hinit]
  split
  · exact follows_ask fun _ ↦ rfl
  · cases flow with
    | returned v => exact follows_pure v
    | next => exact follows_pure Value.nil

/-- What running the bodies of functions has to satisfy for calls to follow. -/
def BodyFollows (ρ : Relabelling) (distances : Distances) (body : List Stmt → Run Flow) : Prop :=
  ∀ ss, Follows ρ distances id (body ss) (body (relabelProgram ρ ss))

section

variable {body : List Stmt → Run Flow} (hbody : BodyFollows ρ distances body)
include hbody

theorem follows_callClosure (c : Closure) (arguments : List Value) (mark : Mark) :
    Follows ρ distances id (callClosure body c arguments mark)
      (callClosure body (c.relabel ρ) arguments (mark.relabel ρ)) := by
  have hframe : Follows ρ distances id (change (·.newFrame c.frame))
    (change (·.newFrame c.frame)) := follows_change fun heap ↦ heap.newFrame_relabel c.frame
  refine Follows.inCall (hframe.andThen fun f ↦ ?_) mark
  have hbind : Follows ρ distances id (change fun h ↦ ((), bindParams f c.params arguments h))
      (change fun h ↦ ((), bindParams f (c.relabel ρ).params arguments h)) :=
    follows_change fun heap ↦ congrArg (Prod.mk ()) (bindParams_relabel f c.params arguments heap)
  exact hbind.andThen fun _ ↦ ((hbody c.body).inFrame f).andThen fun flow ↦
    follows_callResult c flow

theorem follows_callClass (c : Nat) (arguments : List Value) (mark : Mark) :
    Follows ρ distances id (callClass body c arguments mark)
      (callClass body c arguments (mark.relabel ρ)) := by
  have hinstance : Follows ρ distances id (change (·.newInstance c)) (change (·.newInstance c)) :=
    follows_change fun heap ↦ heap.newInstance_relabel c
  refine hinstance.andThen fun i ↦ (follows_findMethod? c "init").bind fun method ↦ ?_
  cases method with
  | none => exact follows_pure _
  | some method =>
    exact (follows_bindMethod method i).bind fun bound ↦
      (follows_callClosure hbody bound arguments mark).andThen fun _ ↦ follows_pure _

theorem follows_callValue (v : Value) (vs : List Value) (line : Nat) :
    Follows ρ distances id (callValue body v vs line) (callValue body v vs (ρ.lines line)) := by
  have notCallable : Follows ρ distances id
      (fail .notCallable ⟨Symbol.rightParen.spelling, line⟩ : Run Value)
      (fail .notCallable ⟨Symbol.rightParen.spelling, ρ.lines line⟩) := follows_fail _ _
  cases v with
  | native f =>
    cases f
    exact (follows_checkArity _ _ _).andThen fun _ ↦ follows_readClock _
  | functionRef i =>
    have hask : Follows ρ distances (Option.map (Closure.relabel ρ)) (ask (·.functions[i]?))
      (ask (·.functions[i]?)) := follows_ask fun heap ↦ heap.functions_relabel i
    refine hask.bind fun c ↦ ?_
    cases c with
    | none => exact notCallable
    | some c =>
      have harity := c.arity_relabel (ρ := ρ)
      simp only [Option.map_some, harity]
      exact (follows_checkArity _ _ _).andThen fun _ ↦ follows_callClosure hbody c vs _
  | classRef c =>
    have hask : Follows ρ distances id (ask (·.classArity c)) (ask (·.classArity c)) :=
      follows_ask fun heap ↦ heap.classArity_relabel c
    exact hask.andThen fun arity ↦ (follows_checkArity _ _ _).andThen fun _ ↦
      follows_callClass hbody c vs _
  | _ => exact notCallable

end

/-! ### Statements with parts -/

theorem follows_repeatWhile {condition condition' : Run Value} {body body' : Run Flow}
    (hcondition : Follows ρ distances id condition condition')
    (hbody : Follows ρ distances id body body') (turns : Nat) :
    Follows ρ distances id (repeatWhile condition body turns)
      (repeatWhile condition' body' turns) := by
  induction turns with
  | zero => exact follows_throw .exhausted
  | succ turns ih =>
    refine hcondition.andThen fun v ↦ ?_
    split
    · refine hbody.andThen fun flow ↦ ?_
      cases flow with
      | next => exact ih
      | returned v => exact follows_pure _
    · exact follows_pure _

theorem Follows.inBlock {p : Run α} {q : Run β} (h : Follows ρ distances g p q) :
    Follows ρ distances g (inBlock p) (inBlock q) := by
  refine follows_currentFrame.andThen fun outer ↦ ?_
  have hframe : Follows ρ distances id (change (·.newFrame outer)) (change (·.newFrame outer)) :=
    follows_change fun heap ↦ heap.newFrame_relabel outer
  exact hframe.andThen h.inFrame

theorem follows_declareFunction (decl : FunctionDecl) :
    Follows ρ distances id (declareFunction decl) (declareFunction (decl.relabel ρ)) := by
  obtain ⟨name, params, body⟩ := decl
  rw [FunctionDecl.relabel]
  exact follows_currentFrame.andThen fun f ↦
    (follows_newFunction ⟨some name.text, params, body, f, false⟩).andThen fun v ↦
      follows_define name.name v

theorem addMethod_relabel (f : Nat) (table : Bindings String Closure) (m : FunctionDecl) :
    addMethod f (table.mapValues (Closure.relabel ρ)) (m.relabel ρ) =
      (addMethod f table m).mapValues (Closure.relabel ρ) := by
  obtain ⟨name, params, body⟩ := m
  simp only [addMethod, Bindings.mapValues_put]
  rfl

theorem methodTable_relabel (f : Nat) (methods : List FunctionDecl) :
    methodTable f (relabelMethods ρ methods) =
      (methodTable f methods).mapValues (Closure.relabel ρ) := by
  suffices h : ∀ table : Bindings String Closure,
      (relabelMethods ρ methods).foldl (addMethod f) (table.mapValues (Closure.relabel ρ)) =
        (methods.foldl (addMethod f) table).mapValues (Closure.relabel ρ) from h .empty
  induction methods with
  | nil => exact fun _ ↦ rfl
  | cons m methods ih =>
    intro table
    rw [relabelMethods, List.foldl_cons, addMethod_relabel, ih, List.foldl_cons]

theorem follows_readSuperclass (s : SuperclassName) :
    Follows ρ distances id (readSuperclass s) (readSuperclass (s.relabel ρ)) := by
  refine (follows_readName s.id s.ident.name s.ident.line).andThen fun v ↦ ?_
  cases v with
  | classRef c => exact follows_pure c
  | _ => exact follows_fail .invalidSuperclass s.ident.mark

theorem follows_classRecord (outer : Nat) (name : Ident) (s : Option SuperclassName)
    (methods : List FunctionDecl) :
    Follows ρ distances (ClassRecord.relabel ρ) (classRecord outer name s methods)
      (classRecord outer (name.relabel ρ) (s.map (SuperclassName.relabel ρ))
        (relabelMethods ρ methods)) := by
  have record (c : Option Nat) (f : Nat) : Follows ρ distances (ClassRecord.relabel ρ)
      (pure ⟨name.text, c, methodTable f methods⟩)
      (pure ⟨name.text, c, methodTable f (relabelMethods ρ methods)⟩) := by
    rw [methodTable_relabel]
    exact follows_pure (⟨name.text, c, methodTable f methods⟩ : ClassRecord)
  cases s with
  | none => exact record none outer
  | some s =>
    refine (follows_readSuperclass s).andThen fun c ↦ ?_
    have hframe : Follows ρ distances id (change (·.newFrame outer)) (change (·.newFrame outer)) :=
      follows_change fun heap ↦ heap.newFrame_relabel outer
    refine hframe.andThen fun f ↦ ?_
    have hsuper : Follows ρ distances id (change fun h ↦ ((), h.define f .super (.classRef c)))
        (change fun h ↦ ((), h.define f .super (.classRef c))) := follows_change fun _ ↦ rfl
    exact hsuper.andThen fun _ ↦ record (some c) f

theorem follows_declareClass (name : Ident) (s : Option SuperclassName)
    (methods : List FunctionDecl) :
    Follows ρ distances id (declareClass name s methods)
      (declareClass (name.relabel ρ) (s.map (SuperclassName.relabel ρ))
        (relabelMethods ρ methods)) := by
  refine follows_currentFrame.andThen fun outer ↦
    (follows_classRecord outer name s methods).bind fun record ↦ ?_
  have hnew : Follows ρ distances id (change (·.newClass record))
    (change (·.newClass (record.relabel ρ))) := follows_change fun heap ↦ heap.newClass_relabel _
  exact hnew.andThen fun v ↦ follows_define name.name v

end Run

/-! ### Programs -/

open Run

variable {ρ : Relabelling} {distances : Distances}

/-- What the meanings of calls have to satisfy for evaluation to follow. -/
def CallFollows (ρ : Relabelling) (distances : Distances) (call : Call) : Prop :=
  ∀ v vs line, Follows ρ distances id (call v vs line) (call v vs (ρ.lines line))

variable {call : Call} {turns : Nat}

mutual

theorem Expr.follows_eval (hcall : CallFollows ρ distances call) : ∀ e : Expr,
    Follows ρ distances id (e.eval call turns) ((e.relabel ρ).eval call turns)
  | .literal _ value => by
    rw [Expr.relabel, Expr.eval, Expr.eval]
    exact follows_pure value.value
  | .grouping _ inner => by
    rw [Expr.relabel, Expr.eval, Expr.eval]
    exact inner.follows_eval hcall
  | .unary _ op line operand => by
    rw [Expr.relabel, Expr.eval, Expr.eval]
    exact (operand.follows_eval hcall).andThen fun v ↦ follows_unaryOp op line v
  | .binary _ op line left right => by
    rw [Expr.relabel, Expr.eval, Expr.eval]
    exact (left.follows_eval hcall).andThen fun v ↦ (right.follows_eval hcall).andThen fun w ↦
      follows_binaryOp op line v w
  | .logical _ op line left right => by
    rw [Expr.relabel, Expr.eval, Expr.eval]
    refine (left.follows_eval hcall).andThen fun v ↦ ?_
    split
    · exact follows_pure v
    · exact right.follows_eval hcall
  | .read i name => by
    rw [Expr.relabel, Expr.eval, Expr.eval]
    exact follows_readName i name.name name.line
  | .assign i name value => by
    rw [Expr.relabel, Expr.eval, Expr.eval]
    exact (value.follows_eval hcall).andThen fun v ↦
      (follows_assignName i name.name name.line v).andThen fun _ ↦ follows_pure v
  | .call _ callee line arguments => by
    rw [Expr.relabel, Expr.eval, Expr.eval]
    exact (callee.follows_eval hcall).andThen fun v ↦
      (follows_evalExprs hcall arguments).andThen fun vs ↦ hcall v vs line
  | .lambda _ _ params body => by
    rw [Expr.relabel, Expr.eval, Expr.eval]
    exact follows_currentFrame.andThen fun f ↦ follows_newFunction ⟨none, params, body, f, false⟩
  | .get _ object name => by
    rw [Expr.relabel, Expr.eval, Expr.eval]
    exact (object.follows_eval hcall).andThen fun v ↦ follows_getProperty v name
  | .set _ object name value => by
    rw [Expr.relabel, Expr.eval, Expr.eval]
    exact (object.follows_eval hcall).andThen fun o ↦
      (follows_requireInstance o name).andThen fun i ↦
        (value.follows_eval hcall).andThen fun v ↦ (follows_setProperty i name v).andThen fun _ ↦
          follows_pure v
  | .this i line => by
    rw [Expr.relabel, Expr.eval, Expr.eval]
    exact follows_readName i .this line
  | .super i line method => by
    rw [Expr.relabel, Expr.eval, Expr.eval]
    exact follows_superMethod i line method

theorem follows_evalExprs (hcall : CallFollows ρ distances call) : ∀ es : List Expr,
    Follows ρ distances id (evalExprs call turns es) (evalExprs call turns (relabelExprs ρ es))
  | [] => by
    rw [relabelExprs, evalExprs]
    exact follows_pure []
  | e :: es => by
    rw [relabelExprs, evalExprs, evalExprs]
    exact (e.follows_eval hcall).andThen fun v ↦ (follows_evalExprs hcall es).andThen fun vs ↦
      follows_pure (v :: vs)

theorem Stmt.follows_exec (hcall : CallFollows ρ distances call) : ∀ s : Stmt,
    Follows ρ distances id (s.exec call turns) ((s.relabel ρ).exec call turns)
  | .expression e => by
    rw [Stmt.relabel, Stmt.exec, Stmt.exec]
    exact (e.follows_eval hcall).andThen fun _ ↦ follows_pure Flow.next
  | .print line value => by
    rw [Stmt.relabel, Stmt.exec, Stmt.exec]
    exact (value.follows_eval hcall).andThen fun v ↦ (follows_printLine line v).andThen fun _ ↦
      follows_pure Flow.next
  | .varDecl name none => by
    rw [Stmt.relabel, Stmt.exec, Stmt.exec]
    exact (follows_define name.name .nil).andThen fun _ ↦ follows_pure Flow.next
  | .varDecl name (some value) => by
    rw [Stmt.relabel, Stmt.exec, Stmt.exec]
    exact (value.follows_eval hcall).andThen fun v ↦ (follows_define name.name v).andThen fun _ ↦
      follows_pure Flow.next
  | .block body => by
    rw [Stmt.relabel, Stmt.exec, Stmt.exec]
    exact (follows_execStmts hcall body).inBlock
  | .ifElse condition thenBranch none => by
    rw [Stmt.relabel, Stmt.exec, Stmt.exec]
    refine (condition.follows_eval hcall).andThen fun v ↦ ?_
    split
    · exact thenBranch.follows_exec hcall
    · exact follows_pure Flow.next
  | .ifElse condition thenBranch (some elseBranch) => by
    rw [Stmt.relabel, Stmt.exec, Stmt.exec]
    refine (condition.follows_eval hcall).andThen fun v ↦ ?_
    split
    · exact thenBranch.follows_exec hcall
    · exact elseBranch.follows_exec hcall
  | .whileLoop condition body => by
    rw [Stmt.relabel, Stmt.exec, Stmt.exec]
    exact follows_repeatWhile (condition.follows_eval hcall) (body.follows_exec hcall) turns
  | .funDecl decl => by
    rw [Stmt.relabel, Stmt.exec, Stmt.exec]
    exact (follows_declareFunction decl).andThen fun _ ↦ follows_pure Flow.next
  | .returns _ none => by
    rw [Stmt.relabel, Stmt.exec, Stmt.exec]
    exact follows_pure (Flow.returned .nil)
  | .returns _ (some value) => by
    rw [Stmt.relabel, Stmt.exec, Stmt.exec]
    exact (value.follows_eval hcall).andThen fun v ↦ follows_pure (Flow.returned v)
  | .classDecl name superclass methods => by
    rw [Stmt.relabel, Stmt.exec, Stmt.exec]
    exact (follows_declareClass name superclass methods).andThen fun _ ↦ follows_pure Flow.next

theorem follows_execStmts (hcall : CallFollows ρ distances call) : ∀ ss : List Stmt,
    Follows ρ distances id (execStmts call turns ss) (execStmts call turns (relabelProgram ρ ss))
  | [] => by
    rw [relabelProgram, execStmts]
    exact follows_pure Flow.next
  | s :: ss => by
    rw [relabelProgram, execStmts, execStmts]
    refine (s.follows_exec hcall).andThen fun flow ↦ ?_
    cases flow with
    | next => exact follows_execStmts hcall ss
    | returned v => exact follows_pure (Flow.returned v)

end

theorem callFollows_callAt (turns level : Nat) : CallFollows ρ distances (callAt turns level) := by
  induction level with
  | zero => exact fun _ _ _ ↦ follows_throw .exhausted
  | succ level ih => exact follows_callValue (follows_execStmts ih)

/-- A relabelled program does on a relabelled machine what the program does on the machine. -/
theorem follows_executeProgram (turns : Nat) (program : List Stmt) :
    Follows ρ distances id (executeProgram turns program)
      (executeProgram turns (relabelProgram ρ program)) := by
  induction program with
  | nil => exact follows_pure ()
  | cons s ss ih =>
    rw [relabelProgram]
    exact (s.follows_exec (callFollows_callAt turns enoughLevels)).andThen fun _ ↦ ih

end LexScript
