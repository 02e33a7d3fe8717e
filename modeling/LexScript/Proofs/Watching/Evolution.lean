import LexScript.Proofs.Heap.WellFormed
import LexScript.Proofs.Watching.Steps

/-!
# How evaluation changes the heap

From a machine with a well-formed heap, whatever evaluation does to the heap is a series of the
changes that programs make, and the values it yields refer to what is there. At each moment on the
way the heap has come that far: it comes from the heap of every earlier moment by such changes.

## Main definitions

* `Machine.IsSound` : a machine with a well-formed heap whose frame in scope is there.
* `Run.Evolves`, `Watched.Passes` : an action changes the heap as programs do.

## Main statements

* `Expr.passes_watch`, `Stmt.passes_watch`, `passes_watchProgram` : evaluation does.
-/

namespace LexScript

/-! ### Machines -/

/-- The heap is well formed, and the frame in scope is there. -/
structure Machine.IsSound (m : Machine) : Prop where
  heap : m.heap.IsWellFormed
  current : m.current < m.heap.frames.size

/-- A machine has the frame in scope of another one and a heap that comes from that one's heap. -/
structure Machine.EvolvesTo (m m' : Machine) : Prop where
  current : m'.current = m.current
  heap : m.heap.Evolves m'.heap

namespace Machine

variable {m m' m'' : Machine}

theorem EvolvesTo.refl (m : Machine) : m.EvolvesTo m := ⟨rfl, .refl _⟩

theorem EvolvesTo.trans (h : m.EvolvesTo m') (h' : m'.EvolvesTo m'') : m.EvolvesTo m'' :=
  ⟨h'.current.trans h.current, h.heap.trans h'.heap⟩

theorem EvolvesTo.isSound (h : m.EvolvesTo m') (hm : m.IsSound) : m'.IsSound := by
  refine ⟨h.heap.isWellFormed hm.heap, ?_⟩
  rw [h.current]
  exact Nat.lt_of_lt_of_le hm.current h.heap.growsTo.frames

end Machine

/-- The value on its way back, if there is one, refers to what is there. -/
def Heap.HasResult (h : Heap) : Flow → Prop
  | .next => True
  | .returned v => h.Has v

/-! ### Actions -/

namespace Run

variable {α β : Type} {m : Machine} {P : α → Heap → Prop}

/-- However an action ends, the heap has changed as programs change it, and of a result something
holds. -/
def Evolves (p : Run α) (m : Machine) (P : α → Heap → Prop) : Prop :=
  match p m with
  | .ok a m' => m.EvolvesTo m' ∧ P a m'.heap
  | .error _ m' => m.EvolvesTo m'

theorem Evolves.bind {p : Run α} {f : α → Run β} {Q : β → Heap → Prop} (hm : m.IsSound)
    (hp : Evolves p m P)
    (hf : ∀ a m', m.EvolvesTo m' → m'.IsSound → P a m'.heap → Evolves (f a) m' Q) :
    Evolves (p >>= f) m Q := by
  unfold Evolves at hp ⊢
  rw [bind_apply]
  cases hpm : p m with
  | error e m' =>
    rw [hpm] at hp
    exact hp
  | ok a m' =>
    rw [hpm] at hp
    have hfa := hf a m' hp.1 (hp.1.isSound hm) hp.2
    unfold Evolves at hfa
    dsimp only
    cases hfm : f a m' with
    | ok b m'' =>
      rw [hfm] at hfa
      exact ⟨hp.1.trans hfa.1, hfa.2⟩
    | error e m'' =>
      rw [hfm] at hfa
      exact hp.1.trans hfa

theorem evolves_pure {a : α} (ha : P a m.heap) : Evolves (pure a) m P := ⟨.refl m, ha⟩

theorem evolves_fail (fault : Fault) (mark : Mark) : Evolves (fail fault mark) m P := .refl m

/-- Looking at the machine does not change it. -/
theorem evolves_of_reads {p : Run α} (hp : p.Reads) (hpost : ∀ a, p m = .ok a m → P a m.heap) :
    Evolves p m P := by
  unfold Evolves
  obtain ⟨a, ha⟩ | ⟨e, he, -⟩ := hp m
  · rw [ha]
    exact ⟨.refl m, hpost a ha⟩
  · rw [he]
    exact .refl m

theorem evolves_change {step : Heap → α × Heap} (hstep : m.heap.Evolves (step m.heap).2)
    (hpost : P (step m.heap).1 (step m.heap).2) : Evolves (change step) m P :=
  ⟨⟨rfl, hstep⟩, hpost⟩

theorem evolves_define (x : Ident) {v : Value} (hv : m.heap.Has v) :
    Evolves (define x.name v) m fun _ _ ↦ True :=
  ⟨⟨rfl, (Heap.Step.define m.current x hv).evolves⟩, trivial⟩

/-! ### Names, output and time -/

variable (hm : m.IsSound)
include hm

theorem evolves_readName (id : Nat) (x : Name) (line : Nat) :
    Evolves (readName id x line) m fun v h ↦ h.Has v := by
  refine evolves_of_reads (reads_readName id x line) fun v hv ↦ ?_
  obtain ⟨f, hf⟩ := exists_find?_of_readName hv
  exact hm.heap.bindings f x v hf

theorem evolves_readAt (distance : Nat) (x : Name) (line : Nat) :
    Evolves (readAt distance x line) m fun v h ↦ h.Has v := by
  refine evolves_of_reads (reads_readAt distance x line) fun v hv ↦ ?_
  obtain ⟨f, hf⟩ := exists_find?_of_readAt hv
  exact hm.heap.bindings f x v hf

theorem evolves_callResult (c : Closure) {flow : Flow} (hflow : m.heap.HasResult flow) :
    Evolves (callResult c flow) m fun v h ↦ h.Has v := by
  refine evolves_of_reads (reads_callResult c flow) fun v hv ↦ ?_
  unfold callResult at hv
  split at hv
  · cases hv
    change m.heap.Has ((m.heap.frames.find? c.frame .this).getD .nil)
    cases hfind : m.heap.frames.find? c.frame .this with
    | none => trivial
    | some this => exact hm.heap.bindings _ _ _ hfind
  · cases flow with
    | next =>
      cases hv
      trivial
    | returned v =>
      cases hv
      exact hflow

theorem evolves_assignName (id : Nat) (x : Ident) (line : Nat) {v : Value} (hv : m.heap.Has v) :
    Evolves (assignName id x.name line v) m fun _ _ ↦ True := by
  have hassignee : Evolves (assignee id x.name) m fun _ h ↦ h.Has v := ⟨.refl m, hv⟩
  refine hassignee.bind hm fun frame m' _ _ hv' ↦ ?_
  cases frame with
  | none => exact .refl m'
  | some f => exact evolves_change (Heap.Step.define f x hv').evolves trivial

omit hm in
theorem evolves_printLine (line : Nat) (v : Value) :
    Evolves (printLine line v) m fun _ _ ↦ True := by
  unfold Evolves printLine
  dsimp only
  rcases m.sink.printLine (v.text m.heap) with ⟨_ | reason, sink⟩
  · exact ⟨⟨rfl, .refl _⟩, trivial⟩
  · exact ⟨rfl, .refl _⟩

omit hm in
theorem evolves_readClock (mark : Mark) : Evolves (readClock mark) m fun v h ↦ h.Has v := by
  unfold Evolves readClock
  rcases m.clock.read with ⟨reason | time, clock⟩
  · exact ⟨rfl, .refl _⟩
  · exact ⟨⟨rfl, .refl _⟩, trivial⟩

/-! ### Functions and classes -/

theorem evolves_currentFrame : Evolves currentFrame m fun f h ↦ f < h.frames.size :=
  ⟨.refl m, hm.current⟩

omit hm in
theorem evolves_newFunction {c : Closure} (hc : c.frame < m.heap.frames.size) :
    Evolves (newFunction c) m fun v h ↦ h.Has v :=
  evolves_change (Heap.Step.newFunction hc).evolves (by simp [Heap.newFunction, Heap.Has])

omit hm in
/-- A method is bound in a new frame that lies in the frame of the method. -/
theorem evolves_bindMethod {method : Closure} {i : Nat}
    (hmethod : method.frame < m.heap.frames.size) (hi : i < m.heap.instances.size) :
    Evolves (change (·.bindMethod method i)) m fun bound h ↦ bound.frame < h.frames.size := by
  have hv : m.heap.Has (.instanceRef i) := hi
  refine evolves_change (Heap.Step.newFrameWith .this hmethod hv).evolves ?_
  simp [Heap.bindMethod, Heap.newFrame, Heap.define]

theorem evolves_boundMethod (c : Nat) {i : Nat} (hi : i < m.heap.instances.size) (name : Ident) :
    Evolves (boundMethod c i name) m fun v h ↦ h.Has v := by
  refine Evolves.bind (P := fun found h ↦ i < h.instances.size ∧
    ∀ method ∈ found, method.frame < h.frames.size) hm
    ⟨.refl m, hi, fun method hmethod ↦ hm.heap.lt_size_of_findMethod? hmethod⟩
    fun found m' _ hm' ⟨hi', hfound⟩ ↦ ?_
  cases found with
  | none => exact evolves_fail _ _
  | some method =>
    exact (evolves_bindMethod (hfound method rfl) hi').bind hm' fun bound m'' _ _ hbound ↦
      evolves_newFunction hbound

omit hm in
theorem evolves_setProperty (i : Nat) (name : Ident) {v : Value} (hv : m.heap.Has v) :
    Evolves (setProperty i name v) m fun _ _ ↦ True :=
  evolves_change (Heap.Step.setField i name.text hv).evolves trivial

theorem evolves_declareFunction (decl : FunctionDecl) :
    Evolves (declareFunction decl) m fun _ _ ↦ True := by
  refine (evolves_currentFrame hm).bind hm fun f m' _ hm' hf ↦ ?_
  exact (evolves_newFunction hf).bind hm' fun v m'' _ _ hv ↦ evolves_define decl.name hv

omit hm in
theorem lt_size_of_find?_methodTable {f : Nat} {methods : List FunctionDecl} {h : Heap}
    (hf : f < h.frames.size) {name : String} {method : Closure}
    (hfind : (methodTable f methods).find? name = some method) :
    method.frame < h.frames.size := by
  obtain ⟨decl, -, -, rfl⟩ := exists_mem_of_find?_methodTable hfind
  exact hf

theorem evolves_readSuperclass (s : SuperclassName) :
    Evolves (readSuperclass s) m fun c h ↦ c < h.classes.size := by
  refine (evolves_readName hm s.id s.ident.name s.ident.line).bind hm fun v m' _ _ hv ↦ ?_
  cases v with
  | classRef c => exact evolves_pure hv
  | _ => exact evolves_fail _ _

/-- The superclass of a new class is there, and so is the frame in which the methods lie. -/
theorem evolves_classRecord {outer : Nat} (houter : outer < m.heap.frames.size) (name : Ident)
    (superclass : Option SuperclassName) (methods : List FunctionDecl) :
    Evolves (classRecord outer name superclass methods) m fun record h ↦
      (∀ s, record.superclass = some s → s < h.classes.size) ∧
        ∀ name method, record.methods.find? name = some method → method.frame < h.frames.size := by
  cases superclass with
  | none => exact evolves_pure ⟨nofun, fun _ _ ↦ lt_size_of_find?_methodTable houter⟩
  | some s =>
    refine (evolves_readSuperclass hm s).bind hm fun c m' hto _ hc ↦ ?_
    have houter' : outer < m'.heap.frames.size :=
      Nat.lt_of_lt_of_le houter hto.heap.growsTo.frames
    have hsuper : m'.heap.Has (.classRef c) := hc
    -- The frame is made and binds `super` before anything else happens.
    refine ⟨⟨rfl, (Heap.Step.newFrameWith .super houter' hsuper).evolves⟩, ?_, fun _ _ hfind ↦ ?_⟩
    · rintro _ ⟨⟩
      exact hc
    · refine lt_size_of_find?_methodTable ?_ hfind
      simp [Heap.define]

theorem evolves_declareClass (name : Ident) (superclass : Option SuperclassName)
    (methods : List FunctionDecl) :
    Evolves (declareClass name superclass methods) m fun _ _ ↦ True := by
  refine (evolves_currentFrame hm).bind hm fun f m' _ hm' hf ↦ ?_
  refine (evolves_classRecord hm' hf name superclass methods).bind hm' fun record m'' _ hm'' hr ↦ ?_
  refine Evolves.bind (P := fun v h ↦ h.Has v) hm''
    (evolves_change (Heap.Step.newClass hr.1 hr.2).evolves (by simp [Heap.newClass, Heap.Has]))
    fun v m₃ _ _ hv ↦ evolves_define name hv

end Run

/-! ### Watched actions -/

/-- A watch has come from another one: its heap and those at the moments between come from each
other, in order, by the changes that programs make. -/
structure Watch.PassesTo (w w' : Watch) : Prop where
  machine : w.machine.EvolvesTo w'.machine
  moments : ∃ new, w'.moments = new ++ w.moments ∧
    (∀ moment ∈ new, w.machine.heap.Evolves moment.machine.heap ∧
      moment.machine.heap.Evolves w'.machine.heap) ∧
    new.Pairwise fun later earlier ↦ earlier.machine.heap.Evolves later.machine.heap

theorem Watch.PassesTo.refl (w : Watch) : w.PassesTo w :=
  ⟨.refl _, [], rfl, List.forall_mem_nil _, .nil⟩

theorem Watch.PassesTo.trans {w w' w'' : Watch} (h : w.PassesTo w') (h' : w'.PassesTo w'') :
    w.PassesTo w'' := by
  obtain ⟨hm, new, hnew, hbetween, horder⟩ := h
  obtain ⟨hm', new', hnew', hbetween', horder'⟩ := h'
  refine ⟨hm.trans hm', new' ++ new, by rw [hnew', hnew, List.append_assoc],
    List.forall_mem_append.2 ⟨fun moment hmem ↦ ?_, fun moment hmem ↦ ?_⟩,
    List.pairwise_append.2 ⟨horder', horder, fun later hlater earlier hearlier ↦ ?_⟩⟩
  · exact ⟨hm.heap.trans (hbetween' moment hmem).1, (hbetween' moment hmem).2⟩
  · exact ⟨(hbetween moment hmem).1, (hbetween moment hmem).2.trans hm'.heap⟩
  · exact (hbetween earlier hearlier).2.trans (hbetween' later hlater).1

namespace Watched

variable {α β : Type} {p : Watched α} {w : Watch} {P : α → Heap → Prop}

/-- However a watched action ends, it has changed the heap as programs do, and of a result something
holds. -/
def Passes (p : Watched α) (w : Watch) (P : α → Heap → Prop) : Prop :=
  match p w with
  | .ok a w' => w.PassesTo w' ∧ P a w'.machine.heap
  | .error _ w' => w.PassesTo w'

theorem Passes.bind {f : α → Watched β} {Q : β → Heap → Prop} (hw : w.machine.IsSound)
    (hp : Passes p w P)
    (hf : ∀ a w', w.PassesTo w' → w'.machine.IsSound → P a w'.machine.heap → Passes (f a) w' Q) :
    Passes (p >>= f) w Q := by
  unfold Passes at hp ⊢
  rw [bind_apply]
  cases hpw : p w with
  | error e w' =>
    rw [hpw] at hp
    exact hp
  | ok a w' =>
    rw [hpw] at hp
    have hfa := hf a w' hp.1 (hp.1.machine.isSound hw) hp.2
    unfold Passes at hfa
    dsimp only
    cases hfw : f a w' with
    | ok b w'' =>
      rw [hfw] at hfa
      exact ⟨hp.1.trans hfa.1, hfa.2⟩
    | error e w'' =>
      rw [hfw] at hfa
      exact hp.1.trans hfa

theorem Passes.weaken {Q : α → Heap → Prop} (hp : Passes p w P)
    (hpost : ∀ a w', w.PassesTo w' → P a w'.machine.heap → Q a w'.machine.heap) :
    Passes p w Q := by
  unfold Passes at hp ⊢
  cases hpw : p w with
  | error e w' =>
    rw [hpw] at hp
    exact hp
  | ok a w' =>
    rw [hpw] at hp
    exact ⟨hp.1, hpost a w' hp.1 hp.2⟩

theorem passes_pure {a : α} (ha : P a w.machine.heap) : Passes (pure a) w P := ⟨.refl w, ha⟩

theorem passes_throw (e : Stop) : Passes (throw e) w P := .refl w

/-- An action on the machine does to the watch what it does to the machine. -/
theorem passes_keep {q : Run α} (hq : Run.Evolves q w.machine P) (update : Watch → History) :
    Passes (keep update q) w P := by
  unfold Passes keep
  unfold Run.Evolves at hq
  cases hqm : q w.machine with
  | ok a m =>
    rw [hqm] at hq
    exact ⟨⟨hq.1, [], rfl, List.forall_mem_nil _, .nil⟩, hq.2⟩
  | error e m =>
    rw [hqm] at hq
    exact ⟨hq, [], rfl, List.forall_mem_nil _, .nil⟩

theorem passes_lift {q : Run α} (hq : Run.Evolves q w.machine P) : Passes (lift q) w P :=
  passes_keep hq _

/-- A moment is noted before an action. -/
theorem Passes.afterNote {task : Task} (h : ∀ moments, Passes p { w with moments := moments } P) :
    Passes (note task >>= fun _ ↦ p) w P := by
  let noted : Watch := { w with moments := ⟨task, w.machine, w.history⟩ :: w.moments }
  have hnoted : w.PassesTo noted := by
    refine ⟨.refl _, [⟨task, w.machine, w.history⟩], rfl, ?_, List.pairwise_singleton _ _⟩
    exact List.forall_mem_singleton.2 ⟨.refl _, .refl _⟩
  have hp : Passes p noted P := h _
  have heq : (note task >>= fun _ ↦ p) w = p noted := rfl
  unfold Passes at hp ⊢
  rw [heq]
  cases hpw : p noted with
  | ok a w' =>
    rw [hpw] at hp
    exact ⟨hnoted.trans hp.1, hp.2⟩
  | error e w' =>
    rw [hpw] at hp
    exact hnoted.trans hp

/-- A moment is noted before an action that does not depend on how the machine came about. -/
theorem Passes.noted {task : Task} (hw : w.machine.IsSound)
    (h : ∀ w : Watch, w.machine.IsSound → Passes p w P) :
    Passes (note task >>= fun _ ↦ p) w P := .afterNote fun _ ↦ h _ hw

theorem Passes.afterLook {question : Watch → α} {f : α → Watched β} {Q : β → Heap → Prop}
    (h : Passes (f (question w)) w Q) : Passes (look question >>= f) w Q := h

theorem passes_inFrame {a : Activation} {outer : List Activation}
    (h : Passes p (enter w a outer) P) : Passes (inFrame a outer p) w P := by
  have hleave {w' : Watch} (hw' : (enter w a outer).PassesTo w') : w.PassesTo (leave w' w) :=
    ⟨⟨rfl, hw'.machine.heap⟩, hw'.moments⟩
  unfold Passes inFrame at *
  cases hp : p (enter w a outer) with
  | ok r w' =>
    rw [hp] at h
    exact ⟨hleave h.1, h.2⟩
  | error e w' =>
    rw [hp] at h
    exact hleave h

theorem passes_inCall {c : Closure} {mark : Mark} (h : Passes p (call w c) P) :
    Passes (inCall c mark p) w P := by
  have hhangUp {w' : Watch} (hw' : (call w c).PassesTo w') : w.PassesTo (hangUp w' w) :=
    ⟨⟨hw'.machine.current, hw'.machine.heap⟩, hw'.moments⟩
  unfold Passes inCall at *
  by_cases hmax : Run.maxCalls ≤ w.machine.depth
  · rw [if_pos hmax]
    exact Watch.PassesTo.refl w
  · rw [if_neg hmax]
    cases hp : p (Watched.call w c) with
    | ok r w' =>
      rw [hp] at h
      exact ⟨hhangUp h.1, h.2⟩
    | error e w' =>
      rw [hp] at h
      exact hhangUp h

/-! ### Properties -/

variable (hw : w.machine.IsSound)
include hw

theorem passes_readName (id : Nat) (x : Name) (line : Nat) :
    Passes (readName id x line) w fun v h ↦ h.Has v :=
  .afterNote fun _ ↦ passes_lift (Run.evolves_readName hw id x line)

theorem passes_assignName (id : Nat) (x : Ident) (line : Nat) {v : Value}
    (hv : w.machine.heap.Has v) : Passes (assignName id x.name line v) w fun _ _ ↦ True :=
  .afterNote fun _ ↦ passes_lift (Run.evolves_assignName hw id x line hv)

theorem passes_boundMethod (c : Nat) {i : Nat} (hi : i < w.machine.heap.instances.size)
    (name : Ident) : Passes (boundMethod c i name) w fun v h ↦ h.Has v :=
  passes_keep (Run.evolves_boundMethod hw c hi name) _

omit hw in
theorem passes_ask {question : Heap → α} (hpost : P (question w.machine.heap) w.machine.heap) :
    Passes (lift (Run.ask question)) w P := passes_lift ⟨.refl _, hpost⟩

omit hw in
theorem passes_fail (fault : Fault) (mark : Mark) : Passes (lift (Run.fail fault mark)) w P :=
  passes_lift (Run.evolves_fail fault mark)

theorem passes_getProperty {object : Value} (hobject : w.machine.heap.Has object) (name : Ident) :
    Passes (getProperty object name) w fun v h ↦ h.Has v := by
  cases object with
  | instanceRef i =>
    have hfield : ∀ v ∈ w.machine.heap.field? i name.text, w.machine.heap.Has v :=
      fun v hv ↦ hw.heap.fields i name.text v hv
    refine (passes_ask (P := fun field h ↦ ∀ v ∈ field, h.Has v) hfield).bind hw
      fun field w' hto hw' hfield ↦ ?_
    have hobject' := hto.machine.heap.growsTo.has hobject
    cases field with
    | some v => exact passes_pure (hfield v rfl)
    | none =>
      refine (passes_ask (P := fun _ h ↦ h.Has (.instanceRef i)) hobject').bind hw'
        fun c w'' _ hw'' hobject'' ↦ ?_
      cases c with
      | some c => exact passes_boundMethod hw'' c hobject'' name
      | none => exact passes_fail _ _
  | _ => exact passes_fail _ _

theorem passes_superMethod (id line : Nat) (method : Ident) :
    Passes (superMethod id line method) w fun v h ↦ h.Has v := by
  refine .afterNote fun _ ↦ ?_
  refine Passes.bind (P := fun _ _ ↦ True) hw (passes_lift ⟨.refl _, trivial⟩)
    fun distance w' _ hw' _ ↦ ?_
  cases distance with
  | none => exact passes_throw _
  | some d =>
    refine (passes_lift (Run.evolves_readAt hw' d .super line)).bind hw'
      fun superclass w'' _ hw'' _ ↦ ?_
    cases superclass with
    | classRef c =>
      refine (passes_lift (Run.evolves_readAt hw'' (d - 1) .this line)).bind hw''
        fun receiver w₃ _ hw₃ hreceiver ↦ ?_
      cases receiver with
      | instanceRef i => exact passes_boundMethod hw₃ c hreceiver method
      | _ => exact passes_fail _ _
    | _ => exact passes_fail _ _

/-! ### Calls -/

omit hw in
theorem passes_checkArity (mark : Mark) (expected got : Nat) :
    Passes (lift (Run.checkArity mark expected got)) w fun _ _ ↦ True :=
  passes_lift (Run.evolves_of_reads (Run.reads_checkArity mark expected got) fun _ _ ↦ trivial)

section

variable {body : List Stmt → Watched Flow}
  (hbody : ∀ (ss : List Stmt) (w : Watch), w.machine.IsSound →
    Passes (body ss) w fun flow h ↦ h.HasResult flow)
include hbody

theorem passes_callClosure {c : Closure} (hc : c.frame < w.machine.heap.frames.size)
    (display : List Activation) {arguments : List Value}
    (harguments : ∀ v ∈ arguments, w.machine.heap.Has v) (mark : Mark) :
    Passes (callClosure body c display arguments mark) w fun v h ↦ h.Has v := by
  refine passes_inCall ?_
  have hcall : (Watched.call w c).machine.IsSound := ⟨hw.heap, hw.current⟩
  refine Passes.bind (P := fun f h ↦ f < h.frames.size) hcall
    (passes_lift (Run.evolves_change (Heap.Step.newFrame hc).evolves (by simp [Heap.newFrame])))
    fun f w' hto hw' hf ↦ ?_
  refine Passes.bind (P := fun _ h ↦ f < h.frames.size) hw' (passes_lift (Run.evolves_change
    (Heap.evolves_bindParams f c.params fun v hv ↦ hto.machine.heap.growsTo.has (harguments v hv))
    ?_)) fun _ w'' _ hw'' hf' ↦ ?_
  · exact Nat.lt_of_lt_of_le hf (Heap.growsTo_bindParams f c.params arguments _).frames
  refine Passes.bind hw'' (passes_inFrame (hbody c.body _ ⟨hw''.heap, hf'⟩))
    fun flow w₃ _ hw₃ hflow ↦ passes_lift (Run.evolves_callResult hw₃ c hflow)

theorem passes_callClass {c : Nat} (hc : c < w.machine.heap.classes.size) {arguments : List Value}
    (harguments : ∀ v ∈ arguments, w.machine.heap.Has v) (mark : Mark) :
    Passes (callClass body c arguments mark) w fun v h ↦ h.Has v := by
  refine Passes.bind (P := fun i h ↦ i < h.instances.size) hw
    (passes_lift (Run.evolves_change (Heap.Step.newInstance hc).evolves
      (by simp [Heap.newInstance]))) fun i w' hto hw' hi ↦ ?_
  refine Passes.bind (P := fun found h ↦ i < h.instances.size ∧
      ∀ method ∈ found, method.frame < h.frames.size) hw'
    (passes_ask ⟨hi, fun method hmethod ↦ hw'.heap.lt_size_of_findMethod? hmethod⟩)
    fun found w'' hto' hw'' hboth ↦ ?_
  obtain ⟨hi', hfound⟩ := hboth
  cases found with
  | none => exact passes_pure hi'
  | some method =>
    refine .afterLook (Passes.bind hw''
      (passes_lift (Run.evolves_bindMethod (hfound method rfl) hi'))
      fun bound w₃ hto'' hw₃ hbound ↦ ?_)
    have hgrows := ((hto.trans hto').trans hto'').machine.heap.growsTo
    refine Passes.bind hw₃ (passes_callClosure hw₃ hbody hbound _
      (fun v hv ↦ hgrows.has (harguments v hv)) mark) fun _ w₄ hto₃ _ _ ↦ ?_
    have hthis : w''.machine.heap.Has (.instanceRef i) := hi'
    exact passes_pure ((hto''.trans hto₃).machine.heap.growsTo.has hthis)

theorem passes_callValue {v : Value} (hv : w.machine.heap.Has v) {vs : List Value}
    (hvs : ∀ v ∈ vs, w.machine.heap.Has v) (line : Nat) :
    Passes (callValue body v vs line) w fun v h ↦ h.Has v := by
  refine .afterNote fun _ ↦ ?_
  cases v with
  | native f =>
    cases f
    exact Passes.bind hw (passes_checkArity _ _ _) fun _ w' _ _ _ ↦
      passes_lift (Run.evolves_readClock _)
  | functionRef i =>
    refine Passes.bind (P := fun found h ↦ ∀ c ∈ found, c.frame < h.frames.size) hw
      (passes_ask fun c hc ↦ hw.heap.functions i c hc) fun found w' hto hw' hfound ↦ ?_
    cases found with
    | none => exact passes_fail _ _
    | some c =>
      refine Passes.bind hw' (passes_checkArity _ _ _) fun _ w'' hto' hw'' _ ↦ .afterLook ?_
      refine passes_callClosure hw'' hbody ?_ _
        (fun v hv ↦ (hto.trans hto').machine.heap.growsTo.has (hvs v hv)) _
      exact Nat.lt_of_lt_of_le (hfound c rfl) hto'.machine.heap.growsTo.frames
  | classRef c =>
    refine Passes.bind (P := fun _ _ ↦ True) hw (passes_ask trivial) fun arity w' hto hw' _ ↦ ?_
    refine Passes.bind hw' (passes_checkArity _ _ _) fun _ w'' hto' hw'' _ ↦ ?_
    have hgrows := (hto.trans hto').machine.heap.growsTo
    exact passes_callClass hw'' hbody (hgrows.has hv) (fun v hv ↦ hgrows.has (hvs v hv)) _
  | _ => exact passes_fail _ _

end

/-! ### Statements with parts -/

omit hw in
theorem passes_repeatWhile {condition : Watched Value} {body : Watched Flow}
    (hcondition : ∀ w : Watch, w.machine.IsSound → Passes condition w fun v h ↦ h.Has v)
    (hbody : ∀ w : Watch, w.machine.IsSound → Passes body w fun flow h ↦ h.HasResult flow)
    (turns : Nat) (hw : w.machine.IsSound) :
    Passes (repeatWhile condition body turns) w fun flow h ↦ h.HasResult flow := by
  induction turns generalizing w with
  | zero => exact passes_throw _
  | succ turns ih =>
    refine Passes.bind hw (hcondition w hw) fun v w' _ hw' _ ↦ ?_
    split
    · refine Passes.bind hw' (hbody w' hw') fun flow w'' _ hw'' hflow ↦ ?_
      cases flow with
      | next => exact ih hw''
      | returned v => exact passes_pure hflow
    · exact passes_pure trivial

theorem passes_inBlock {body : List Stmt} {action : Watched α}
    (haction : ∀ w : Watch, w.machine.IsSound → Passes action w P) :
    Passes (inBlock body action) w P := by
  refine Passes.bind hw (passes_lift (Run.evolves_currentFrame hw)) fun outer w' _ hw' houter ↦ ?_
  refine Passes.bind (P := fun f h ↦ f < h.frames.size) hw' (passes_lift
    (Run.evolves_change (Heap.Step.newFrame houter).evolves (by simp [Heap.newFrame])))
    fun f w'' _ hw'' hf ↦ .afterLook (passes_inFrame (haction _ ⟨hw''.heap, hf⟩))

theorem passes_declareClass (name : Ident) (superclass : Option SuperclassName)
    (methods : List FunctionDecl) :
    Passes (declareClass name superclass methods) w fun _ _ ↦ True := by
  have hdeclare (moments : List Moment) := passes_keep (w := { w with moments := moments })
    (Run.evolves_declareClass hw name superclass methods)
    (fun w ↦ w.history.declareClass w.machine.heap.frames.size name superclass methods)
  cases superclass with
  | none => exact hdeclare w.moments
  | some s => exact .afterNote hdeclare

end Watched

/-! ### Expressions and statements -/

open Watched

/-- A meaning of calls that changes the heap as programs do. -/
def CallPasses (call : WatchedCall) : Prop :=
  ∀ (v : Value) (vs : List Value) (line : Nat) (w : Watch), w.machine.IsSound →
    w.machine.heap.Has v → (∀ v ∈ vs, w.machine.heap.Has v) →
    Passes (call v vs line) w fun v h ↦ h.Has v

/-- The result of an operator refers to nothing. -/
theorem Watched.passes_ofExcept {w : Watch} {result : Except RuntimeError Value}
    (hresult : (∃ r, result = .ok r ∧ r.isReference = false) ∨
      ∃ e, result = .error e ∧ e.fault.IsOfOperator) :
    Passes (lift (Run.ofExcept result)) w fun v h ↦ h.Has v := by
  obtain ⟨r, rfl, hdata⟩ | ⟨e, rfl, -⟩ := hresult
  · exact passes_lift (Run.evolves_pure (Heap.has_of_isReference_eq_false hdata))
  · exact passes_throw _

variable {call : WatchedCall} {turns : Nat}

mutual

theorem Expr.passes_watch (hcall : CallPasses call) : ∀ (e : Expr) (w : Watch),
    w.machine.IsSound → Passes (e.watch call turns) w fun v h ↦ h.Has v
  | .literal _ value, w, hw => by
    rw [Expr.watch]
    exact .noted hw fun w hw ↦ passes_pure (by cases value <;> trivial)
  | .grouping _ inner, w, hw => by
    rw [Expr.watch]
    exact .noted hw fun w hw ↦ inner.passes_watch hcall _ hw
  | .unary _ op line operand, w, hw => by
    rw [Expr.watch]
    exact .noted hw fun w hw ↦ Passes.bind hw (operand.passes_watch hcall _ hw)
      fun v w' _ _ _ ↦ passes_ofExcept (op.apply_cases line v)
  | .binary _ op line left right, w, hw => by
    rw [Expr.watch]
    exact .noted hw fun w hw ↦ Passes.bind hw (left.passes_watch hcall _ hw) fun v w' _ hw' _ ↦
      Passes.bind hw' (right.passes_watch hcall _ hw') fun v' w'' _ _ _ ↦
        passes_ofExcept (op.apply_cases line v v')
  | .logical _ op line left right, w, hw => by
    rw [Expr.watch]
    refine .noted hw fun w hw ↦ Passes.bind hw (left.passes_watch hcall _ hw) fun v w' _ hw' hv ↦ ?_
    split
    · exact passes_pure hv
    · exact right.passes_watch hcall _ hw'
  | .read id name, w, hw => by
    rw [Expr.watch]
    exact .noted hw fun w hw ↦
      passes_readName hw id name.name name.line
  | .assign id name value, w, hw => by
    rw [Expr.watch]
    refine .noted hw fun w hw ↦ Passes.bind hw (value.passes_watch hcall _ hw)
      fun v w' _ hw' hv ↦ ?_
    exact Passes.bind hw' (passes_assignName hw' id name name.line hv) fun _ w'' hto _ _ ↦
      passes_pure (hto.machine.heap.growsTo.has hv)
  | .call _ callee line arguments, w, hw => by
    rw [Expr.watch]
    refine .noted hw fun w hw ↦ Passes.bind hw (callee.passes_watch hcall _ hw)
      fun v w' _ hw' hv ↦ ?_
    exact Passes.bind hw' (passes_watchExprs hcall arguments _ hw') fun vs w'' hto hw'' hvs ↦
      hcall v vs line w'' hw'' (hto.machine.heap.growsTo.has hv) hvs
  | .lambda _ _ params body, w, hw => by
    rw [Expr.watch]
    exact .noted hw fun w hw ↦ passes_keep
      ((Run.evolves_currentFrame hw).bind hw fun f m' _ _ hf ↦ Run.evolves_newFunction hf) _
  | .get _ object name, w, hw => by
    rw [Expr.watch]
    exact .noted hw fun w hw ↦ Passes.bind hw (object.passes_watch hcall _ hw) fun v w' _ hw' hv ↦
      passes_getProperty hw' hv name
  | .set _ object name value, w, hw => by
    rw [Expr.watch]
    refine .noted hw fun w hw ↦ Passes.bind hw (object.passes_watch hcall _ hw)
      fun o w' _ hw' _ ↦ ?_
    refine Passes.bind (P := fun _ _ ↦ True) hw' (passes_lift (Run.evolves_of_reads
      (Run.reads_requireInstance o name) fun _ _ ↦ trivial)) fun i w'' _ hw'' _ ↦ ?_
    refine Passes.bind hw'' (value.passes_watch hcall _ hw'') fun v w₃ _ hw₃ hv ↦ ?_
    exact Passes.bind hw₃ (passes_lift (Run.evolves_setProperty i name hv)) fun _ w₄ hto _ _ ↦
      passes_pure (hto.machine.heap.growsTo.has hv)
  | .this id line, w, hw => by
    rw [Expr.watch]
    exact .noted hw fun w hw ↦
      passes_readName hw id .this line
  | .super id line method, w, hw => by
    rw [Expr.watch]
    exact .noted hw fun w hw ↦
      passes_superMethod hw id line method

theorem passes_watchExprs (hcall : CallPasses call) : ∀ (es : List Expr) (w : Watch),
    w.machine.IsSound → Passes (watchExprs call turns es) w fun vs h ↦ ∀ v ∈ vs, h.Has v
  | [], w, _ => by
    rw [watchExprs]
    exact passes_pure (List.forall_mem_nil _)
  | e :: es, w, hw => by
    rw [watchExprs]
    refine Passes.bind hw (e.passes_watch hcall _ hw) fun v w' _ hw' hv ↦ ?_
    exact Passes.bind hw' (passes_watchExprs hcall es _ hw') fun vs w'' hto _ hvs ↦
      passes_pure (List.forall_mem_cons.2 ⟨hto.machine.heap.growsTo.has hv, hvs⟩)

theorem Stmt.passes_watch (hcall : CallPasses call) : ∀ (s : Stmt) (w : Watch),
    w.machine.IsSound → Passes (s.watch call turns) w fun flow h ↦ h.HasResult flow
  | .expression e, w, hw => by
    rw [Stmt.watch]
    exact .noted hw fun w hw ↦ Passes.bind hw (e.passes_watch hcall _ hw) fun _ _ _ _ _ ↦
      passes_pure trivial
  | .print line value, w, hw => by
    rw [Stmt.watch]
    exact .noted hw fun w hw ↦ Passes.bind hw (value.passes_watch hcall _ hw) fun v w' _ hw' _ ↦
      Passes.bind hw' (passes_lift (Run.evolves_printLine line v)) fun _ _ _ _ _ ↦
        passes_pure trivial
  | .varDecl name none, w, hw => by
    rw [Stmt.watch]
    exact .noted hw fun w hw ↦ Passes.bind hw (passes_keep (Run.evolves_define name Heap.has_nil) _)
      fun _ _ _ _ _ ↦ passes_pure trivial
  | .varDecl name (some value), w, hw => by
    rw [Stmt.watch]
    refine .noted hw fun w hw ↦ Passes.bind (P := fun _ _ ↦ True) hw
      (passes_keep (Run.evolves_pure trivial) _) fun _ w' _ hw' _ ↦ ?_
    exact Passes.bind hw' (value.passes_watch hcall _ hw') fun v w'' _ hw'' hv ↦
      Passes.bind hw'' (passes_keep (Run.evolves_define name hv) _) fun _ _ _ _ _ ↦
        passes_pure trivial
  | .block body, w, hw => by
    rw [Stmt.watch]
    exact .noted hw fun w hw ↦
      passes_inBlock hw (passes_watchStmts hcall body)
  | .ifElse condition thenBranch none, w, hw => by
    rw [Stmt.watch]
    refine .noted hw fun w hw ↦ Passes.bind hw (condition.passes_watch hcall _ hw)
      fun v w' _ hw' _ ↦ ?_
    split
    · exact thenBranch.passes_watch hcall _ hw'
    · exact passes_pure trivial
  | .ifElse condition thenBranch (some elseBranch), w, hw => by
    rw [Stmt.watch]
    refine .noted hw fun w hw ↦ Passes.bind hw (condition.passes_watch hcall _ hw)
      fun v w' _ hw' _ ↦ ?_
    split
    · exact thenBranch.passes_watch hcall _ hw'
    · exact elseBranch.passes_watch hcall _ hw'
  | .whileLoop condition body, w, hw => by
    rw [Stmt.watch]
    exact .noted hw fun w hw ↦ passes_repeatWhile (condition.passes_watch hcall)
      (body.passes_watch hcall) turns hw
  | .funDecl decl, w, hw => by
    rw [Stmt.watch]
    exact .noted hw fun w hw ↦ Passes.bind hw
      (passes_keep (Run.evolves_declareFunction hw decl) _) fun _ _ _ _ _ ↦ passes_pure trivial
  | .returns _ none, w, hw => by
    rw [Stmt.watch]
    exact .noted hw fun w hw ↦ passes_pure trivial
  | .returns _ (some value), w, hw => by
    rw [Stmt.watch]
    exact .noted hw fun w hw ↦ Passes.bind hw (value.passes_watch hcall _ hw) fun _ _ _ _ hv ↦
      passes_pure hv
  | .classDecl name superclass methods, w, hw => by
    rw [Stmt.watch]
    exact .noted hw fun w hw ↦ Passes.bind hw
      (passes_declareClass hw name superclass methods) fun _ _ _ _ _ ↦ passes_pure trivial

theorem passes_watchStmts (hcall : CallPasses call) : ∀ (ss : List Stmt) (w : Watch),
    w.machine.IsSound → Passes (watchStmts call turns ss) w fun flow h ↦ h.HasResult flow
  | [], w, _ => by
    rw [watchStmts]
    exact passes_pure trivial
  | s :: ss, w, hw => by
    rw [watchStmts]
    refine Passes.bind hw (s.passes_watch hcall _ hw) fun flow w' _ hw' hflow ↦ ?_
    cases flow with
    | next => exact passes_watchStmts hcall ss _ hw'
    | returned v => exact passes_pure hflow

end

theorem passes_watchCallAt (turns level : Nat) : CallPasses (watchCallAt turns level) := by
  induction level with
  | zero => exact fun _ _ _ _ _ _ _ ↦ passes_throw _
  | succ level ih =>
    exact fun _ _ line _ hw hv hvs ↦ passes_callValue hw (passes_watchStmts ih) hv hvs line

theorem passes_watchProgram (turns : Nat) (program : List Stmt) {w : Watch}
    (hw : w.machine.IsSound) : Passes (watchProgram turns program) w fun _ _ ↦ True := by
  induction program generalizing w with
  | nil => exact passes_pure trivial
  | cons s ss ih =>
    exact Passes.bind hw (s.passes_watch (passes_watchCallAt turns enoughLevels) _ hw)
      fun _ _ _ hw' _ ↦ ih hw'

end LexScript
