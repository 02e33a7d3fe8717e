import LexScript.Proofs.Effects.Additions
import LexScript.Proofs.Effects.Flows
import LexScript.Proofs.Scope.Legality
import LexScript.Proofs.Watching.Heaps

/-!
# Returns end calls

A flow is dropped at two places: a program goes on with the next statement whatever the flow of the
last one was, and a call of an initializer yields its instance whatever its body returns. Nothing is
lost there. Name resolution has accepted all code in a session, also that of functions and methods
of earlier runs, so no statement at the top level finishes with a value on its way back, and only
`nil` is on its way back from the body of an initializer. Everywhere else a value on its way back
comes from a return that is executed, and it ends the call in whose body the return lies.

## Main definitions

* `Heap.calledInitializer?` : the initializer whose body a call runs.
* `Closure.enter` : where the body of a function that is called begins.

## Main statements

* `Moment.OccursIn.isMadeOf_legal` : all code in the heaps of a session is legal.
* `ComesTo.callClosure_eq` : a return ends the call.
* `returns_end_calls` : no return is lost, and each ends its call.
-/

namespace LexScript

open Run

/-! ### The code in a session -/

/-- Code whose parts are legal where they lie. -/
def Additions.legal : Additions := ⟨Occurrence.IsLegal, fun _ ↦ True⟩

variable {s : Session} {turns : Nat} {source : String} {moment : Moment}

/-- The parts of an accepted program are legal. -/
theorem areLegal_of_accepted {firstId : Nat} (hread : (readSource firstId source).errors = [])
    (hresolve : (resolveProgram (readSource firstId source).program).errors = []) :
    AreLegal (partsOf [] (readSource firstId source).program) :=
  (errors_resolveProgram_eq_nil_iff (derives_of_readSource hread).isPlain).1 hresolve

/-- A statement of a legal program finishes with the next one to come. -/
theorem eq_next_of_execute {program : List Stmt} (hlegal : AreLegal (partsOf [] program))
    {st : Stmt} (hst : st ∈ program) {m m' : Machine} {flow : Flow}
    (h : execute turns st m = .ok flow m') : flow = .next := by
  induction program with
  | nil => cases hst
  | cons first rest ih =>
    rw [partsOf, areLegal_append] at hlegal
    rcases List.mem_cons.1 hst with rfl | hmem
    · exact (st.yields_exec hlegal.1 m flow m' h).eq_next
    · exact ih hlegal.2 hmem

/-- All code in a session is legal, whichever runs it comes from. -/
theorem Session.Reachable.isMadeOf_legal (hs : s.Reachable) :
    s.machine.heap.IsMadeOf Additions.legal := by
  induction hs with
  | start sink clock =>
    constructor <;> simp [Session.start, Machine.initial, Heap.initial]
  | @run turns source s hs ih =>
    by_cases haccepted : (readSource s.nextId source).errors = [] ∧
      (resolveProgram (readSource s.nextId source).program).errors = []
    · have hadds := hs.addsTo_run ih haccepted.1 haccepted.2
        (areLegal_of_accepted haccepted.1 haccepted.2) (fun _ _ _ _ ↦ trivial) turns
      exact hadds.heap.isMadeOf ih
    · obtain ⟨d, hd⟩ := exists_machine_of_rejected haccepted turns
      rw [hd]
      exact ih
  | takeOutput _ ih => exact ih

/-- What is in a heap that has grown into another one is in that one. -/
theorem Heap.GrowsTo.isMadeOf {A : Additions} {h h' : Heap} (hg : h.GrowsTo h')
    (hh : h'.IsMadeOf A) : h.IsMadeOf A :=
  ⟨fun k c hk ↦ hh.functions k c (hg.functions k c hk),
    fun c record hc ↦ hh.classes c record (hg.classes c record hc)⟩

/-- At every moment, all code in the heap is legal. -/
theorem Moment.OccursIn.isMadeOf_legal (h : moment.OccursIn s turns source) :
    moment.machine.heap.IsMadeOf Additions.legal :=
  h.growsTo.isMadeOf (Session.Reachable.run turns source h.reachable).isMadeOf_legal

/-! ### Initializers -/

/-- The initializer whose body a call of a value runs, if it does: a method that was bound to an
instance, or the one of the class. -/
def Heap.calledInitializer? (h : Heap) : Value → Option Closure
  | .functionRef k => (h.functions[k]?).filter Closure.isInitializer
  | .classRef c => h.initializer? c
  | .nil | .boolean _ | .number _ | .string _ | .native _ | .instanceRef _ => none

/-- Whether a moment is a call that runs the body of an initializer. -/
def Moment.callsInitializer : Moment → Bool
  | ⟨.call v _ _, machine, _⟩ => (machine.heap.calledInitializer? v).isSome
  | _ => false

theorem Moment.exists_of_callsInitializer (h : moment.callsInitializer = true) :
    ∃ v vs line, moment.task = .call v vs line ∧
      ∃ c, moment.machine.heap.calledInitializer? v = some c := by
  obtain ⟨task, machine, history⟩ := moment
  cases task with
  | call v vs line => exact ⟨v, vs, line, rfl, Option.isSome_iff_exists.1 h⟩
  | _ => cases h

/-- The code of an initializer yields nothing but `nil`. -/
theorem Closure.IsMadeOf.flow_of_isInitializer {c : Closure} (hc : c.IsMadeOf Additions.legal)
    (hinit : c.isInitializer = true) {call : Call} {turns : Nat} {m m' : Machine} {flow : Flow}
    (h : execStmts call turns c.body m = .ok flow m') : flow = .next ∨ flow = .returned .nil := by
  obtain ⟨body, around, hbody, hparts⟩ := hc
  obtain ⟨inherits, rfl⟩ := hbody hinit
  exact (yields_execStmts c.body hparts m flow m' h).of_initializer

/-- What a class finds as its initializer is one. -/
theorem Moment.IsInOrder.isInitializer (h : moment.IsInOrder) {c : Nat} {method : Closure}
    (hmethod : moment.machine.heap.initializer? c = some method) : method.isInitializer = true := by
  obtain ⟨owner, record, -, -, hrecord, hfind⟩ := Heap.exists_owner_of_findMethod? hmethod
  have htells := h.inOrder.tells
  have howner : owner < moment.history.classes.size := by
    rw [htells.size_classes]
    exact (Array.getElem?_eq_some_iff.1 hrecord).1
  have hcomes := htells.classes owner record _ hrecord (Array.getElem?_eq_getElem howner)
  rw [hcomes.methods] at hfind
  obtain ⟨decl, -, hname, rfl⟩ := exists_mem_of_find?_methodTable hfind
  exact beq_iff_eq.2 hname

theorem Moment.OccursIn.isMadeOf_of_calledInitializer? (h : moment.OccursIn s turns source)
    {v : Value} {c : Closure} (hc : moment.machine.heap.calledInitializer? v = some c) :
    c.IsMadeOf Additions.legal ∧ c.isInitializer = true := by
  cases v with
  | functionRef k =>
    obtain ⟨hk, hinit⟩ := Option.filter_eq_some_iff.1 hc
    exact ⟨h.isMadeOf_legal.functions k c hk, hinit⟩
  | classRef i => exact ⟨h.isMadeOf_legal.findMethod? hc, h.isInOrder.isInitializer hc⟩
  | _ => cases hc

/-! ### Calls that a return ends -/

/-- The machine on which the body of a function that is called begins. -/
def Closure.enter (c : Closure) (arguments : List Value) (m : Machine) : Machine :=
  let (f, h) := m.heap.newFrame c.frame
  { m with heap := bindParams f c.params arguments h, current := f, depth := m.depth + 1 }

/-- What a call yields that ends with a value: the instance if it is that of an initializer. -/
def Closure.resultOf (c : Closure) (h : Heap) (v : Value) : Value :=
  if c.isInitializer then (h.frames.find? c.frame .this).getD .nil else v

theorem Run.callResult_returned (c : Closure) (v : Value) (m : Machine) :
    callResult c (.returned v) m = .ok (c.resultOf m.heap v) m := by
  unfold callResult Closure.resultOf
  split <;> rfl

/-- How a call ends that was made on a machine and whose body has come to a return, given how
evaluating the value of the return ends. The frame in scope and the number of calls in progress are
those from before the call. -/
def Closure.endCall (c : Closure) (m : Machine) :
    EStateM.Result Stop Machine Value → EStateM.Result Stop Machine Value
  | .ok v m' => .ok (c.resultOf m'.heap v) { m' with current := m.current, depth := m.depth }
  | .error e m' => .error e { m' with current := m.current, depth := m.depth }

/-- A call ends as the body does that it runs. -/
theorem Run.callClosure_eq_of_returned {body : List Stmt → Run Flow} {c : Closure}
    {vs : List Value} {m : Machine} (hdepth : m.depth < maxCalls) {f : Nat}
    {r : EStateM.Result Stop Machine Value} (hbody : body c.body (c.enter vs m) = returnIn f r)
    (hr : (machineOf r).depth = m.depth + 1) (mark : Mark) :
    callClosure body c vs mark m = c.endCall m r := by
  unfold Closure.enter at hbody
  dsimp only at hbody
  unfold callClosure inCall
  rw [if_neg (Nat.not_le.2 hdepth)]
  simp only [bind_apply, change, inFrame, hbody]
  cases r with
  | ok v m' =>
    change m'.depth = m.depth + 1 at hr
    simp only [returnIn, callResult_returned, Closure.endCall, hr, Nat.add_sub_cancel]
  | error e m' =>
    change m'.depth = m.depth + 1 at hr
    simp only [returnIn, Closure.endCall, hr, Nat.add_sub_cancel]

/-- A return that the body of a function comes to ends the call with its value, and nothing else is
executed of the body. -/
theorem ComesTo.callClosure_eq {call : Call} (hcall : CallSettles call) {c : Closure}
    {vs : List Value} {m m₁ : Machine} {value : Option Expr} (hdepth : m.depth < maxCalls)
    (h : ComesTo call turns c.body (c.enter vs m) value m₁) (mark : Mark) :
    callClosure (execStmts call turns) c vs mark m =
      c.endCall m (returnValue call turns value m₁) := by
  have hbody := h.execStmts_eq hcall
  have hsettles : (execStmts call turns c.body).Settles := settles_execStmts hcall c.body
  refine callClosure_eq_of_returned hdepth hbody ?_ mark
  -- The body leaves the number of calls as it finds it, and a return has no part in it.
  have hrestores := (hsettles.restores (c.enter vs m)).2
  rw [hbody] at hrestores
  cases hvalue : returnValue call turns value m₁ with
  | ok v m₂ =>
    rw [hvalue] at hrestores
    exact hrestores
  | error e m₂ =>
    rw [hvalue] at hrestores
    exact hrestores

/-! ### No return is lost -/

/-- No return is lost, and each ends its call. In the run of an accepted source, no statement at the
top level finishes with a value on its way back, and the body of an initializer that is called only
yields `nil` if it yields anything. Wherever the body of a function comes to a return, the call ends
with its value or with the error of evaluating it, in the frame and with the number of calls from
before, and nothing else is executed of the body; and a value is on its way back from there only. -/
theorem returns_end_calls (hread : (readSource s.nextId source).errors = [])
    (hresolve : (resolveProgram (readSource s.nextId source).program).errors = []) (turns : Nat) :
    (∀ st ∈ (readSource s.nextId source).program, ∀ m flow m',
      execute turns st m = .ok flow m' → flow = .next) ∧
    (∀ moment : Moment, moment.OccursIn s turns source → ∀ v vs line,
      moment.task = .call v vs line → ∀ c, moment.machine.heap.calledInitializer? v = some c →
      ∀ level m flow m', execStmts (callAt turns level) turns c.body m = .ok flow m' →
        flow = .next ∨ flow = .returned .nil) ∧
    ∀ level,
      (∀ (c : Closure) vs mark m value m₁, m.depth < maxCalls →
        ComesTo (callAt turns level) turns c.body (c.enter vs m) value m₁ →
        callClosure (execStmts (callAt turns level) turns) c vs mark m =
          c.endCall m (returnValue (callAt turns level) turns value m₁)) ∧
      ∀ ss m v m', execStmts (callAt turns level) turns ss m = .ok (.returned v) m' →
        ∃ value m₁ m₂, ComesTo (callAt turns level) turns ss m value m₁ ∧
          returnValue (callAt turns level) turns value m₁ = .ok v m₂ := by
  refine ⟨fun st hst m flow m' hexec ↦ ?_, fun moment h v vs line _ c hc level m flow m' hbody ↦ ?_,
    fun level ↦ ⟨fun c vs mark m value m₁ hdepth hcomes ↦ ?_, fun ss m v m' h ↦ ?_⟩⟩
  · exact eq_next_of_execute (areLegal_of_accepted hread hresolve) hst hexec
  · obtain ⟨hcode, hinit⟩ := h.isMadeOf_of_calledInitializer? hc
    exact hcode.flow_of_isInitializer hinit hbody
  · exact hcomes.callClosure_eq (settles_callAt turns level) hdepth mark
  · exact exists_comesTo_of_execStmts ss h

/-- An initializer that was declared in an earlier run is called. -/
theorem returns_end_calls_initializer :
    let s := ((Session.start .unlimited (.running 0)).run 1
      "class A { init() { return; } }").2
    ∃ moment : Moment, moment.OccursIn s 1 "A();" ∧ ∃ v vs line, moment.task = .call v vs line ∧
      ∃ c, moment.machine.heap.calledInitializer? v = some c ∧
        ∀ level m flow m', execStmts (callAt 1 level) 1 c.body m = .ok flow m' →
          flow = .next ∨ flow = .returned .nil := by
  intro s
  let source := "class A { init() { return; } }"
  let w := ((WatchedSession.start .unlimited (.running 0)).run 1 source).2
  have hw : w.Reachable := .run 1 source (.start _ _)
  have hsession : w.session = s := (WatchedSession.run_session _ 1 source).2
  have hread : (readSource s.nextId "A();").errors = [] := by decide +kernel
  have hresolve : (resolveProgram (readSource s.nextId "A();").program).errors = [] := by
    decide +kernel
  have hany : (w.run 1 "A();").2.moments.any Moment.callsInitializer = true := by
    decide +kernel
  obtain ⟨moment, hmem, hmoment⟩ := List.any_eq_true.1 hany
  have hoccurs : moment.OccursIn s 1 "A();" := ⟨w, hw, hsession, hmem⟩
  obtain ⟨v, vs, line, htask, c, hc⟩ := moment.exists_of_callsInitializer hmoment
  exact ⟨moment, hoccurs, v, vs, line, htask, c, hc,
    (returns_end_calls hread hresolve 1).2.1 moment hoccurs v vs line htask c hc⟩

end LexScript
