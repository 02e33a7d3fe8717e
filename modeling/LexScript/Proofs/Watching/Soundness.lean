import LexScript.Proofs.Watching.Access
import LexScript.Proofs.Watching.Creation

/-!
# Watched evaluation keeps order

Whatever a program does, the machine remains as the history tells. Blocks and functions open a frame
for each scope that name resolution opens, declarations bind what it declares, and methods are bound
in a frame that the scope around methods was opened for.

## Main definitions

* `Finishes` : what holds behind a statement.
* `CallEnds` : a meaning of calls that keeps order.

## Main statements

* `Expr.ends_watch`, `Stmt.ends_watch`, `ends_watchCallAt` : evaluation keeps order.
* `ends_watchProgram` : a program keeps order.
-/

namespace LexScript

namespace Watched

variable {w : Watch} (hw : InOrder w.machine w.history)
include hw

theorem ends_ofExcept {result : Except RuntimeError Value}
    (hresult : (∃ r, result = .ok r ∧ r.isReference = false) ∨
      ∃ e, result = .error e ∧ e.fault.IsOfOperator) :
    Ends (lift (Run.ofExcept result)) w (Yields w) := by
  obtain ⟨r, rfl, hdata⟩ | ⟨e, rfl, hoperator⟩ := hresult
  · exact ends_read hw (Run.reads_pure r) fun v hv ↦ by
      cases hv
      exact ⟨Heap.holds_of_isReference_eq_false hdata, rfl⟩
  · exact ends_lift_throw hw hoperator.refusals

/-! ### Names, output and time -/

theorem ends_readName {id : Nat} {x : Name} (htask : (Task.lookup id x).LiesIn w.history)
    (line : Nat) : Ends (readName id x line) w (Yields w) := by
  refine .afterNote hw htask rfl fun _ ↦ ends_read hw (Run.reads_readName id x line) fun v hv ↦ ?_
  obtain ⟨f, hf⟩ := Run.exists_find?_of_readName hv
  exact ⟨hw.tells.layered.bound f x v hf, rfl⟩

theorem ends_assignName {id : Nat} {x : Ident} (htask : (Task.lookup id x.name).LiesIn w.history)
    (line : Nat) {v : Value} (hv : w.machine.heap.Holds v) :
    Ends (assignName id x.name line v) w fun _ w' ↦ w'.history.display = w.history.display := by
  obtain ⟨frame, hframe⟩ : ∃ frame, Run.assignee id x.name w.machine = .ok frame w.machine :=
    ⟨_, rfl⟩
  refine .afterNote hw htask rfl fun _ ↦
    ends_lift hw (Run.settles_assignName id x line v) (fun _ m hok ↦ ?_) fun e m herror ↦ ?_
  · simp only [Run.assignName, bind_apply, hframe] at hok
    cases frame with
    | some f =>
      cases hok
      exact ⟨⟨hw.tells.layered.define _ _ hv, rfl, rfl⟩, rfl⟩
    | none => cases hok
  · simp only [Run.assignName, bind_apply, hframe] at herror
    cases frame with
    | some f => cases herror
    | none =>
      cases herror
      exact ⟨⟨hw.tells.layered, rfl, rfl⟩, rfl⟩

theorem ends_printLine (line : Nat) (v : Value) :
    Ends (lift (Run.printLine line v)) w fun _ w' ↦ w'.history.display = w.history.display := by
  refine ends_lift hw (Run.settles_printLine line v) (fun _ m hok ↦ ?_) fun e m herror ↦ ?_
  · unfold Run.printLine at hok
    dsimp only at hok
    rcases hprint : w.machine.sink.printLine (v.text w.machine.heap) with ⟨_ | reason, sink⟩
    · rw [hprint] at hok
      cases hok
      exact ⟨⟨hw.tells.layered, rfl, rfl⟩, rfl⟩
    · rw [hprint] at hok
      cases hok
  · unfold Run.printLine at herror
    dsimp only at herror
    rcases hprint : w.machine.sink.printLine (v.text w.machine.heap) with ⟨_ | reason, sink⟩
    · rw [hprint] at herror
      cases herror
    · rw [hprint] at herror
      cases herror
      exact ⟨⟨hw.tells.layered, rfl, rfl⟩, rfl⟩

theorem ends_readClock (mark : Mark) : Ends (lift (Run.readClock mark)) w (Yields w) := by
  refine ends_lift hw (Run.settles_readClock mark) (fun _ m hok ↦ ?_) fun e m herror ↦ ?_
  · unfold Run.readClock at hok
    rcases hread : w.machine.clock.read with ⟨reason | time, clock⟩
    · rw [hread] at hok
      cases hok
    · rw [hread] at hok
      cases hok
      exact ⟨⟨hw.tells.layered, rfl, rfl⟩, trivial, rfl⟩
  · unfold Run.readClock at herror
    rcases hread : w.machine.clock.read with ⟨reason | time, clock⟩
    · rw [hread] at herror
      cases herror
      exact ⟨⟨hw.tells.layered, rfl, rfl⟩, rfl⟩
    · rw [hread] at herror
      cases herror

/-! ### Properties -/

theorem ends_getProperty (object : Value) (name : Ident) :
    Ends (getProperty object name) w (Yields w) := by
  cases object with
  | instanceRef i =>
    refine .afterAsk ?_
    split
    · next v hv => exact ends_pure hw ⟨hw.tells.layered.fields _ _ _ hv, rfl⟩
    · refine .afterAsk ?_
      split
      · next c hc => exact ends_boundMethod hw name hc (.refl c)
      · exact ends_lift_throw hw rfl
  | _ => exact ends_lift_throw hw rfl

omit hw in
theorem readAt_of_ancestor? {m : Machine} {d f : Nat} {x : Name} {v : Value}
    (hf : m.heap.frames.ancestor? m.current d = some f) (hv : m.heap.frames.find? f x = some v)
    (line : Nat) : Run.readAt d x line m = .ok v m := by
  simp only [Run.readAt, Frames.getAt, hf, Option.bind_some, hv]

theorem ends_superMethod {id : Nat} (htask : (Task.lookup id .super).LiesIn w.history)
    (line : Nat) (method : Ident) : Ends (superMethod id line method) w (Yields w) := by
  obtain ⟨hdistance, e, hthis, hsuper⟩ := hw.lookups _ htask
  obtain ⟨_, frame, c, i, _, -, hframe, hbound, record, s, f, hrecord, hs, hf, hfind⟩ :=
    hw.exists_super hthis hsuper
  obtain ⟨d, hd, hdescends⟩ := hbound.descends
  have hdistance : Run.distanceOf id w.machine = .ok (some (e + 1)) w.machine := by
    rw [Run.distanceOf, hdistance, Lookup.distance?, hsuper]
  refine .afterNote hw htask rfl fun moments ↦ .afterRead hw (fun _ ↦ .inl ⟨_, rfl⟩) fun a ha ↦ ?_
  cases hdistance.symm.trans ha
  refine .afterRead hw (Run.reads_readAt _ _ _) fun a ha ↦ ?_
  cases (readAt_of_ancestor? hf hfind line).symm.trans ha
  refine .afterRead hw (Run.reads_readAt _ _ _) fun a ha ↦ ?_
  cases (readAt_of_ancestor? hframe hbound.find line).symm.trans ha
  exact ends_boundMethod (w := { w with moments := moments }) hw method hd
    (hdescends.trans (.inherit hrecord hs (.refl s)))

end Watched

/-! ### Calls -/

/-- The value on its way back, if there is one, is held. -/
def Flow.Holds (h : Heap) : Flow → Prop
  | .next => True
  | .returned v => h.Holds v

private theorem find?_foldl_parameter {x : Name} {role : Role} (params : List Ident)
    (names : Bindings Name Role)
    (hx : (params.foldl (fun names p ↦ names.put p.name .parameter) names).find? x = some role) :
    (∃ p ∈ params, p.name = x) ∨ names.find? x = some role := by
  induction params generalizing names with
  | nil => exact .inr hx
  | cons p params ih =>
    rw [List.foldl_cons] at hx
    rcases ih _ hx with ⟨q, hq, hname⟩ | hx
    · exact .inl ⟨q, List.mem_cons_of_mem _ hq, hname⟩
    · rw [Bindings.find?_put] at hx
      split at hx
      · next heq => exact .inl ⟨p, List.mem_cons_self, heq.symm⟩
      · exact .inr hx

theorem exists_of_find?_functionScope {params : List Ident} {body : List Stmt} {x : Name}
    {role : Role} (hx : (functionScope params body).names.find? x = some role) :
    ∃ p ∈ params, p.name = x := by
  rcases find?_foldl_parameter params .empty hx with hp | hempty
  · exact hp
  · cases hempty

theorem binds_bindParams {f : Nat} {params : List Ident} {arguments : List Value} {h : Heap}
    (hf : f < h.frames.size) (hlength : params.length = arguments.length) {x : Ident}
    (hx : x ∈ params) :
    (Run.bindParams f params arguments h).frames.binds f x.name = true := by
  induction params generalizing arguments h with
  | nil => cases hx
  | cons p params ih =>
    cases arguments with
    | nil => cases hlength
    | cons v arguments =>
      have hbinds := Frames.binds_define_self h.frames hf p.name v
      have hsize : f < (h.define f p.name v).frames.size :=
        Nat.lt_of_lt_of_eq hf (Frames.size_define _ _ _ _).symm
      rcases List.mem_cons.1 hx with rfl | hx
      · exact (Heap.growsTo_bindParams f params arguments _).binds f x.name hbinds
      · exact ih hsize (Nat.succ.inj hlength) hx

theorem retains_bindParams (f : Nat) (params : List Ident) (arguments : List Value) (h : Heap) :
    (Run.bindParams f params arguments h).functions = h.functions ∧
      (Run.bindParams f params arguments h).classes = h.classes := by
  induction params generalizing arguments h with
  | nil => exact ⟨rfl, rfl⟩
  | cons x params ih =>
    cases arguments with
    | nil => exact ⟨rfl, rfl⟩
    | cons v arguments => exact ih arguments (h.define f x.name v)

/-- The new frame of a call is the one for the scope of the function. -/
theorem isOpen_callFrame {h : Heap} (H : History) {c : Closure} {display : List Activation}
    {arguments : List Value} (hframe : c.frame = innermostFrame display)
    (harity : c.params.length = arguments.length) :
    Activation.IsOpen
      (Run.bindParams h.frames.size c.params arguments (h.newFrame c.frame).2) H display
      ⟨functionScope c.params c.body, h.frames.size, none⟩ := by
  have hbound := Heap.growsTo_bindParams h.frames.size c.params arguments (h.newFrame c.frame).2
  have hsize : h.frames.size < (h.newFrame c.frame).2.frames.size :=
    Nat.lt_of_lt_of_eq (Nat.lt_succ_self _) (Frames.size_push _ _).symm
  refine ⟨?_, fun x role hx ↦ .inl ?_, .body (functionScope_bindsNoReceiver _ _)⟩
  · rw [hbound.enclosing _ hsize, ← hframe]
    exact (Frames.enclosing?_push _ _ _).trans (if_pos rfl)
  · obtain ⟨p, hp, rfl⟩ := exists_of_find?_functionScope hx
    exact binds_bindParams hsize harity hp

theorem Run.holds_of_callResult {c : Closure} {flow : Flow} {m m' : Machine} {v : Value}
    (hv : callResult c flow m = .ok v m') (hl : m.heap.IsLayered) (hflow : flow.Holds m.heap) :
    m.heap.Holds v := by
  unfold callResult at hv
  split at hv
  · cases hv
    dsimp only
    cases hfind : m.heap.frames.find? c.frame .this with
    | none => trivial
    | some v => exact hl.bound _ _ _ hfind
  · cases flow with
    | returned v' =>
      cases hv
      exact hflow
    | next =>
      cases hv
      trivial

theorem Run.eq_of_checkArity {mark : Mark} {expected got : Nat} {m m' : Machine}
    (h : checkArity mark expected got m = .ok () m') : expected = got := by
  unfold checkArity at h
  split at h
  · assumption
  · cases h

namespace Watched

/-- A meaning of function bodies that keeps order. -/
def BodyEnds (body : List Stmt → Watched Flow) : Prop :=
  ∀ (ss : List Stmt) (w : Watch), InOrder w.machine w.history → ArePlain ss →
    (∀ l ∈ lookupsOfStmts w.history.scopes ss, l ∈ w.history.lookups) →
    Ends (body ss) w fun flow w' ↦ flow.Holds w'.machine.heap

variable {body : List Stmt → Watched Flow} (hbody : BodyEnds body) {w : Watch}
  (hw : InOrder w.machine w.history)
include hbody hw

theorem ends_callClosure {c : Closure} {display : List Activation} {arguments : List Value}
    {mark : Mark} (hroom : w.history.calls.length < Run.maxCalls)
    (hc : c.LiesIn w.machine.heap w.history display)
    (harity : c.params.length = arguments.length)
    (hargs : ∀ v ∈ arguments, w.machine.heap.Holds v) :
    Ends (callClosure body c display arguments mark) w (Yields w) := by
  refine ends_inCall hw hroom (Q := Yields (call w c)) ?_ fun _ _ _ hyields ↦ hyields
  have hw₀ := inOrder_call hw c hroom
  have hnew := w.machine.heap.growsTo_newFrame c.frame
  have hbound := Heap.growsTo_bindParams w.machine.heap.frames.size c.params arguments
    (w.machine.heap.newFrame c.frame).2
  refine .afterChange hw₀ (fun h ↦ h.growsTo_newFrame c.frame)
    ⟨hw₀.tells.layered.newFrame _, rfl, rfl⟩ fun hw₁ ↦ ?_
  refine .afterChange hw₁ (fun h ↦ h.growsTo_bindParams _ c.params arguments)
    ⟨hw₁.tells.layered.bindParams _ _ fun v hv ↦ hnew.holds (hargs v hv),
      (retains_bindParams _ _ _ _).1, (retains_bindParams _ _ _ _).2⟩ fun hw₂ ↦ ?_
  -- The new frame and those around the function are open when the body begins.
  have hopen := hc.isOpen.mono <| (precedes_display _ _ w.history.display
    (c :: w.history.calls)).trans (.of_growsTo (hnew.trans hbound))
  have hscope := functionScope_bindsNoReceiver c.params c.body
  refine (ends_inFrame (P := fun flow w' ↦ flow.Holds w'.machine.heap ∧
    w'.history.display = w.history.display) hw₂
    (hbody c.body _ (inOrder_enter hw₂ ⟨isOpen_callFrame _ hc.frame harity, hopen⟩ hscope)
      hc.isPlain hc.accepted) fun flow w' _ hflow ↦ ⟨hflow, rfl⟩).bind
    fun flow w' hl ⟨hflow, hdisplay⟩ ↦ ?_
  exact ends_read hl.inOrder (Run.reads_callResult c flow) fun v hv ↦
    ⟨Run.holds_of_callResult hv hl.inOrder.tells.layered hflow, hdisplay⟩

theorem ends_callClass {c : Nat} {arguments : List Value} {mark : Mark}
    (hroom : w.machine.heap.initializer? c ≠ none → w.history.calls.length < Run.maxCalls)
    (harity : w.machine.heap.classArity c = arguments.length)
    (hargs : ∀ v ∈ arguments, w.machine.heap.Holds v) :
    Ends (callClass body c arguments mark) w (Yields w) := by
  refine .afterChange hw (fun h ↦ h.growsTo_newInstance c)
    ⟨hw.tells.layered.newInstance c, rfl, rfl⟩ fun hw₁ ↦ .afterAsk ?_
  have hclasses : (w.machine.heap.newInstance c).2.classes = w.machine.heap.classes := rfl
  have hsame : (w.machine.heap.newInstance c).2.initializer? c =
      w.machine.heap.initializer? c := Heap.findMethod?_congr hclasses c "init"
  have hclass : (w.machine.heap.newInstance c).2.classOf? w.machine.heap.instances.size =
      some c := by
    simp [Heap.newInstance, Heap.classOf?]
  split
  · next method hmethod =>
    have hinit : w.machine.heap.initializer? c = some method := hsame.symm.trans hmethod
    refine .afterLook <| .afterChange hw₁ (fun h ↦ h.growsTo_bindMethod method _)
      ⟨hw₁.tells.layered.bindMethod method _, rfl, rfl⟩ fun hw₂ ↦ ?_
    have hliesIn := (liesIn_bindMethod hw₁.tells hmethod hclass (.refl c)).1
    have hgrows := (w.machine.heap.growsTo_newInstance c).trans
      (Heap.growsTo_bindMethod _ method w.machine.heap.instances.size)
    refine (ends_callClosure hbody hw₂ (hroom (by simp [hinit])) hliesIn ?_
      fun v hv ↦ hgrows.holds (hargs v hv)).bind fun _ w' hl hyields ↦
        ends_pure hl.inOrder ⟨trivial, hyields.2⟩
    rw [← harity, Heap.classArity, hinit]
    rfl
  · exact ends_pure hw₁ ⟨trivial, rfl⟩

omit hbody in
/-- A call of a function that the limit refuses. -/
theorem callValue_functionRef_refused {k : Nat} {c : Closure} {arguments : List Value} {line : Nat}
    (hfull : w.history.calls.length = Run.maxCalls) (hc : w.machine.heap.functions[k]? = some c)
    (harity : c.arity = arguments.length) :
    callValue body (.functionRef k) arguments line w =
      .error (.fault ⟨.stackOverflow, ⟨Symbol.rightParen.spelling, line⟩⟩)
        { w with moments :=
          ⟨.call (.functionRef k) arguments line, w.machine, w.history⟩ :: w.moments } := by
  have hdepth : Run.maxCalls ≤ w.machine.depth := Nat.le_of_eq (hw.depth.trans hfull).symm
  simp only [callValue, bind_apply, note, lift, keep, Run.ask, hc, Run.checkArity, harity, if_true,
    pure_apply, look, callClosure, inCall, hdepth]

omit hbody in
/-- A call of a class that the limit refuses, since its initializer would run. -/
theorem callValue_classRef_refused {c : Nat} {method : Closure} {arguments : List Value}
    {line : Nat} (hfull : w.history.calls.length = Run.maxCalls)
    (hmethod : w.machine.heap.initializer? c = some method)
    (harity : method.arity = arguments.length) :
    callValue body (.classRef c) arguments line w =
      .error (.fault ⟨.stackOverflow, ⟨Symbol.rightParen.spelling, line⟩⟩)
        { w with
          machine := { w.machine with
            heap := ((w.machine.heap.newInstance c).2.bindMethod method
              w.machine.heap.instances.size).2 }
          moments := ⟨.call (.classRef c) arguments line, w.machine, w.history⟩ :: w.moments } := by
  have hdepth : Run.maxCalls ≤ w.machine.depth := Nat.le_of_eq (hw.depth.trans hfull).symm
  have hclasses : (w.machine.heap.newInstance c).2.classes = w.machine.heap.classes := rfl
  have hsame : (w.machine.heap.newInstance c).2.initializer? c = some method :=
    (Heap.findMethod?_congr hclasses c "init").trans hmethod
  have harity' : w.machine.heap.classArity c = arguments.length := by
    rw [Heap.classArity, hmethod]
    exact harity
  simp only [callValue, bind_apply, note, lift, keep, Run.ask, Run.checkArity, harity', if_true,
    pure_apply, callClass, Run.change, hsame, look, callClosure, inCall, hdepth]
  rfl

omit hbody in
/-- A call that the limit refuses ends with the error that it is due to. -/
theorem ends_callValue_refused {v : Value} {vs : List Value} {line : Nat} {mark : Mark}
    (hrefused : (⟨.call v vs line, w.machine, w.history⟩ : Moment).refused? = some mark) :
    Ends (callValue body v vs line) w (Yields w) := by
  have hnoted : refusals (⟨.call v vs line, w.machine, w.history⟩ :: w.moments) =
      [mark] ++ refusals w.moments := List.filterMap_cons_some hrefused
  have hmoments (h : ∀ moment ∈ w.moments, moment.IsInOrder) :
      ∀ moment ∈ (⟨.call v vs line, w.machine, w.history⟩ :: w.moments : List Moment),
        moment.IsInOrder := List.forall_mem_cons.2 ⟨⟨hw, trivial⟩, h⟩
  have hsince : ∀ moment ∈ (⟨.call v vs line, w.machine, w.history⟩ :: w.moments : List Moment),
      moment ∈ w.moments ∨ moment.history.lookups = w.history.lookups :=
    List.forall_mem_cons.2 ⟨.inr rfl, fun _ ↦ .inl⟩
  obtain ⟨⟨hfull, hruns⟩, rfl⟩ := refused?_call_eq_some_iff.1 hrefused
  unfold Ends
  cases v with
  | functionRef k =>
    obtain ⟨c, hc, harity⟩ := Option.map_eq_some_iff.1 (beq_iff_eq.1 hruns)
    rw [callValue_functionRef_refused hw hfull hc harity]
    exact ⟨.refl _, .refl _ _, ⟨rfl, rfl, rfl⟩, hw, hmoments, hnoted, hsince⟩
  | classRef c =>
    obtain ⟨method, hmethod, harity⟩ := Option.map_eq_some_iff.1 (beq_iff_eq.1 hruns)
    rw [callValue_classRef_refused hw hfull hmethod harity]
    have hgrows := (w.machine.heap.growsTo_newInstance c).trans
      (Heap.growsTo_bindMethod _ method w.machine.heap.instances.size)
    have hsettles : w.machine.SettlesTo { w.machine with
        heap := ((w.machine.heap.newInstance c).2.bindMethod method
          w.machine.heap.instances.size).2 } := ⟨rfl, rfl, rfl, hgrows⟩
    exact ⟨hsettles, .of_growsTo hgrows, ⟨rfl, rfl, rfl⟩, inOrder_retain hw hsettles
      ⟨(hw.tells.layered.newInstance c).bindMethod method _, rfl, rfl⟩, hmoments, hnoted, hsince⟩
  | _ => cases hruns

theorem ends_callValue {v : Value} {vs : List Value} (line : Nat)
    (hvs : ∀ v ∈ vs, w.machine.heap.Holds v) : Ends (callValue body v vs line) w (Yields w) := by
  cases hrefused : (⟨.call v vs line, w.machine, w.history⟩ : Moment).refused? with
  | some mark => exact ends_callValue_refused hw hrefused
  | none =>
    refine .afterNote hw trivial hrefused fun moments ↦ ?_
    have hroom (hruns : w.machine.heap.runsBody v vs.length = true) :
        w.history.calls.length < Run.maxCalls := by
      refine Nat.lt_of_le_of_ne hw.calls fun hfull ↦ ?_
      rw [refused?_call_eq_some_iff.2 ⟨⟨hfull, hruns⟩, rfl⟩] at hrefused
      cases hrefused
    cases v with
    | native f =>
      cases f
      exact .afterRead hw (Run.reads_checkArity _ _ _) fun _ _ ↦
        ends_readClock (w := { w with moments := moments }) hw _
    | functionRef k =>
      refine .afterAsk ?_
      split
      · next c hc =>
        refine .afterRead hw (Run.reads_checkArity _ _ _) fun _ harity ↦ .afterLook ?_
        have harity := Run.eq_of_checkArity harity
        obtain ⟨origin, horigin, hcomes⟩ := hw.tells.exists_functionOrigin hc
        have hdisplay : w.functionDisplay k = origin.display := by
          rw [Watch.functionDisplay, horigin]
        refine ends_callClosure (w := { w with moments := moments }) hbody hw (hroom ?_)
          (hdisplay ▸ hcomes.liesIn) harity hvs
        rw [Heap.runsBody, hc, Option.map_some, harity, beq_self_eq_true]
      · exact ends_lift_throw hw rfl
    | classRef c =>
      refine .afterAsk <| .afterRead hw (Run.reads_checkArity _ _ _) fun _ harity ↦ ?_
      have harity := Run.eq_of_checkArity harity
      refine ends_callClass (w := { w with moments := moments }) hbody hw (fun hinit ↦ hroom ?_)
        harity hvs
      obtain ⟨method, hmethod⟩ := Option.ne_none_iff_exists'.1 hinit
      rw [Heap.classArity, hmethod, Option.map_some, Option.getD_some] at harity
      rw [Heap.runsBody, hmethod, Option.map_some, harity, beq_self_eq_true]
    | _ => exact ends_lift_throw hw rfl

end Watched

/-! ### Statements with parts -/

/-- Behind a statement, what is on its way back is held, and if the next statement follows then its
name is declared in the innermost scope. -/
def Finishes (s : Stmt) (w : Watch) (flow : Flow) (w' : Watch) : Prop :=
  flow.Holds w'.machine.heap ∧ (flow = .next → w'.history.scopes = s.declare w.history.scopes)

theorem Stmt.declare_eq_self {s : Stmt} (hs : s.isDeclaration = false)
    (opens : List OpenScope) : s.declare opens = opens := by
  cases s <;> first | rfl | cases hs

/-- A task lies where it did, as long as the same scopes are open and no lookups are forgotten. -/
theorem Task.LiesIn.mono {task : Task} {H H' : History} (h : task.LiesIn H)
    (hscopes : H'.scopes = H.scopes) (hlookups : ∀ l ∈ H.lookups, l ∈ H'.lookups) :
    task.LiesIn H' := by
  cases task with
  | expr e => exact ⟨h.1, fun l hl ↦ hlookups l (h.2 l (hscopes ▸ hl))⟩
  | stmt s => exact ⟨h.1, fun l hl ↦ hlookups l (h.2 l (hscopes ▸ hl))⟩
  | lookup id x =>
    rw [Task.LiesIn, hscopes]
    exact hlookups _ h
  | call => trivial

theorem Yields.scopes {w w' : Watch} {v : Value} (h : Yields w v w') :
    w'.history.scopes = w.history.scopes := congrArg (List.map Activation.scope) h.2

/-- Behind an expression, a task lies where it did. -/
theorem Yields.liesIn {w w' : Watch} {v : Value} (h : Yields w v w') {new : List Mark}
    (hl : w.LeadsTo new w') {task : Task} (htask : task.LiesIn w.history) :
    task.LiesIn w'.history := htask.mono h.scopes hl.precedes.lookups

namespace Watched

/-- If the condition and the body of a loop lead from turn to turn, then the loop is over in the
end or its body returns. -/
theorem ends_repeatWhile {condition : Watched Value} {body : Watched Flow}
    {T : Watch → Prop}
    (hcondition : ∀ w, InOrder w.machine w.history → T w →
      Ends condition w fun _ w' ↦ T w')
    (hbody : ∀ w, InOrder w.machine w.history → T w →
      Ends body w fun flow w' ↦ flow.Holds w'.machine.heap ∧ (flow = .next → T w')) :
    ∀ (turns : Nat) (w : Watch), InOrder w.machine w.history → T w →
      Ends (repeatWhile condition body turns) w fun flow w' ↦
        flow.Holds w'.machine.heap ∧ (flow = .next → T w')
  | 0, _, hw, _ => ends_throw hw rfl
  | turns + 1, w, hw, hturn => by
    rw [repeatWhile]
    refine (hcondition w hw hturn).bind fun v w' hl hturn' ↦ ?_
    split
    · refine (hbody w' hl.inOrder hturn').bind fun flow w'' hl' ⟨hflow, hnext⟩ ↦ ?_
      cases flow with
      | next => exact ends_repeatWhile hcondition hbody turns w'' hl'.inOrder (hnext rfl)
      | returned v => exact ends_pure hl'.inOrder ⟨hflow, nofun⟩
    · exact ends_pure hl.inOrder ⟨trivial, fun _ ↦ hturn'⟩

theorem ends_inBlock {p : Watched Flow} {body : List Stmt} {w : Watch}
    (hw : InOrder w.machine w.history)
    (h : ∀ w' : Watch, InOrder w'.machine w'.history →
      w'.history.scopes = blockScope body :: w.history.scopes →
      w'.history.lookups = w.history.lookups →
      Ends p w' fun flow w'' ↦ flow.Holds w''.machine.heap) :
    Ends (inBlock body p) w fun flow w' ↦
      flow.Holds w'.machine.heap ∧ w'.history.display = w.history.display := by
  refine .afterRead hw (fun _ ↦ .inl ⟨_, rfl⟩) fun f hf ↦ ?_
  cases hf
  refine .afterChange hw (fun h ↦ h.growsTo_newFrame _)
    ⟨hw.tells.layered.newFrame _, rfl, rfl⟩ fun hw₁ ↦ .afterLook ?_
  have hnew := w.machine.heap.growsTo_newFrame w.machine.current
  have hencloses := Frames.enclosing?_push w.machine.heap.frames (some w.machine.current)
    w.machine.heap.frames.size
  rw [if_pos rfl, hw.current] at hencloses
  have hopen := hw.isOpen.mono (.of_growsTo hnew)
  refine ends_inFrame hw₁ (h _ (inOrder_enter hw₁ ⟨⟨?_, nofun,
    .body (blockScope_bindsNoReceiver body)⟩, hopen⟩ (blockScope_bindsNoReceiver body)) rfl rfl)
    fun flow w' _ hflow ↦ ⟨hflow, rfl⟩
  rw [← hw.current] at hencloses ⊢
  exact hencloses

end Watched

/-! ### Expressions -/

open Watched

/-- A meaning of calls that keeps order. -/
def CallEnds (call : WatchedCall) : Prop :=
  ∀ (v : Value) (vs : List Value) (line : Nat) (w : Watch), InOrder w.machine w.history →
    (∀ v ∈ vs, w.machine.heap.Holds v) → Ends (call v vs line) w (Yields w)

theorem Yields.trans {w w' w'' : Watch} {v v' : Value} (h : Yields w v w')
    (h' : Yields w' v' w'') : Yields w v' w'' := ⟨h'.1, h'.2.trans h.2⟩

/-- The result of an action is yielded after another one. -/
theorem Yields.last {w w' : Watch} {v : Value} (h : Yields w v w') {p : Watched Value}
    (hp : Ends p w' (Yields w')) : Ends p w' (Yields w) := hp.weaken fun _ _ _ h' ↦ h.trans h'

/-- The parts of expressions lie where the expressions do. -/
theorem Task.LiesIn.operands {H : History} {e e' : Expr}
    (h : (e.IsPlain ∧ e'.IsPlain) ∧
      ∀ l ∈ e.lookups H.scopes ++ e'.lookups H.scopes, l ∈ H.lookups) :
    (Task.expr e).LiesIn H ∧ (Task.expr e').LiesIn H := by
  obtain ⟨hplain, hlookups⟩ := h
  rw [List.forall_mem_append] at hlookups
  exact ⟨⟨hplain.1, hlookups.1⟩, hplain.2, hlookups.2⟩

/-- Expressions lie where a history is. -/
def ExprsLieIn (H : History) (es : List Expr) : Prop :=
  ArePlainExprs es ∧ ∀ l ∈ lookupsOfExprs H.scopes es, l ∈ H.lookups

theorem Watched.ends_setProperty {w : Watch} (hw : InOrder w.machine w.history) (i : Nat)
    (name : Ident) {v : Value} (hv : w.machine.heap.Holds v) :
    Ends (lift (Run.setProperty i name v)) w fun _ w' ↦ Yields w v w' := by
  have hsettles := Run.settles_setProperty i name v
  have hm := hsettles w.machine
  refine ends_lift hw hsettles (fun _ m hok ↦ ?_) fun e m herror ↦ nomatch herror
  rw [hok] at hm
  cases hok
  exact ⟨⟨hw.tells.layered.setField i name.text hv, rfl, rfl⟩, hm.heap.holds hv, rfl⟩

variable {call : WatchedCall} {turns : Nat}

mutual

theorem Expr.ends_watch (hcall : CallEnds call) : ∀ (e : Expr) {w : Watch},
    InOrder w.machine w.history → (Task.expr e).LiesIn w.history →
    Ends (e.watch call turns) w (Yields w)
  | .literal _ value, w, hw, htask => by
    rw [Expr.watch]
    refine .afterNote hw htask rfl fun moments ↦
      ends_pure (w := { w with moments := moments }) hw ⟨?_, rfl⟩
    cases value <;> trivial
  | .grouping _ inner, w, hw, htask => by
    rw [Expr.watch]
    refine .afterNote hw htask rfl fun moments ↦ ?_
    rw [Task.LiesIn, Expr.IsPlain, Expr.lookups] at htask
    exact inner.ends_watch (w := { w with moments := moments }) hcall hw htask
  | .unary _ op line operand, w, hw, htask => by
    rw [Expr.watch]
    refine .afterNote hw htask rfl fun moments ↦ ?_
    rw [Task.LiesIn, Expr.IsPlain, Expr.lookups] at htask
    refine (operand.ends_watch (w := { w with moments := moments }) hcall hw htask).bind
      fun v w' hl hv ↦ hv.last (ends_ofExcept hl.inOrder (op.apply_cases line v))
  | .binary _ op line left right, w, hw, htask => by
    rw [Expr.watch]
    refine .afterNote hw htask rfl fun moments ↦ ?_
    rw [Task.LiesIn, Expr.IsPlain, Expr.lookups] at htask
    obtain ⟨hleft, hright⟩ := Task.LiesIn.operands htask
    refine (left.ends_watch (w := { w with moments := moments }) hcall hw hleft).bind
      fun v w' hl hv ↦ hv.last ?_
    exact (right.ends_watch hcall hl.inOrder (hv.liesIn hl hright)).bind
      fun v' w'' hl' hv' ↦ hv'.last (ends_ofExcept hl'.inOrder (op.apply_cases line v v'))
  | .logical _ op line left right, w, hw, htask => by
    rw [Expr.watch]
    refine .afterNote hw htask rfl fun moments ↦ ?_
    rw [Task.LiesIn, Expr.IsPlain, Expr.lookups] at htask
    obtain ⟨hleft, hright⟩ := Task.LiesIn.operands htask
    refine (left.ends_watch (w := { w with moments := moments }) hcall hw hleft).bind
      fun v w' hl hv ↦ ?_
    split
    · exact ends_pure hl.inOrder hv
    · exact hv.last (right.ends_watch hcall hl.inOrder (hv.liesIn hl hright))
  | .read id name, w, hw, htask => by
    rw [Expr.watch]
    refine .afterNote hw htask rfl fun moments ↦ ?_
    rw [Task.LiesIn, Expr.lookups] at htask
    exact ends_readName (w := { w with moments := moments }) hw (htask.2 _ List.mem_cons_self) _
  | .assign id name value, w, hw, htask => by
    rw [Expr.watch]
    refine .afterNote hw htask rfl fun moments ↦ ?_
    rw [Task.LiesIn, Expr.IsPlain, Expr.lookups, List.forall_mem_append] at htask
    obtain ⟨hplain, hvalue, hlookup⟩ := htask
    refine (value.ends_watch (w := { w with moments := moments }) hcall hw ⟨hplain, hvalue⟩).bind
      fun v w' hl hv ↦ ?_
    have hlookup : (Task.lookup id name.name).LiesIn w.history :=
      hlookup _ List.mem_cons_self
    exact (ends_assignName hl.inOrder (hv.liesIn hl hlookup) name.line hv.1).bind
      fun _ w'' hl' hdisplay ↦ ends_pure hl'.inOrder
        ⟨hl'.settles.heap.holds hv.1, hdisplay.trans hv.2⟩
  | .call _ callee line arguments, w, hw, htask => by
    rw [Expr.watch]
    refine .afterNote hw htask rfl fun moments ↦ ?_
    rw [Task.LiesIn, Expr.IsPlain, Expr.lookups, List.forall_mem_append] at htask
    obtain ⟨⟨hplain, hplain'⟩, hcallee, harguments⟩ := htask
    refine (callee.ends_watch (w := { w with moments := moments }) hcall hw ⟨hplain, hcallee⟩).bind
      fun v w' hl hv ↦ hv.last ?_
    have hes : ExprsLieIn w'.history arguments :=
      ⟨hplain', fun l hmem ↦ hl.precedes.lookups l (harguments l (hv.scopes ▸ hmem))⟩
    exact (ends_watchExprs hcall arguments hl.inOrder hes).bind
      fun vs w'' hl' ⟨hvs, hdisplay⟩ ↦ (hcall v vs line w'' hl'.inOrder hvs).weaken
        fun _ _ _ hr ↦ ⟨hr.1, hr.2.trans hdisplay⟩
  | .lambda id line params body, w, hw, htask => by
    rw [Expr.watch]
    exact .afterNote hw htask rfl fun moments ↦
      ends_lambda (w := { w with moments := moments }) hw htask
  | .get _ object name, w, hw, htask => by
    rw [Expr.watch]
    refine .afterNote hw htask rfl fun moments ↦ ?_
    rw [Task.LiesIn, Expr.IsPlain, Expr.lookups] at htask
    exact (object.ends_watch (w := { w with moments := moments }) hcall hw htask).bind
      fun v w' hl hv ↦ hv.last (ends_getProperty hl.inOrder v name)
  | .set _ object name value, w, hw, htask => by
    rw [Expr.watch]
    refine .afterNote hw htask rfl fun moments ↦ ?_
    rw [Task.LiesIn, Expr.IsPlain, Expr.lookups] at htask
    obtain ⟨hvalue, hobject⟩ := Task.LiesIn.operands ⟨htask.1.symm, htask.2⟩
    refine (object.ends_watch (w := { w with moments := moments }) hcall hw hobject).bind
      fun v w' hl hv ↦ .afterRead hl.inOrder (Run.reads_requireInstance v name) fun i _ ↦ ?_
    refine hv.last <| (value.ends_watch hcall hl.inOrder (hv.liesIn hl hvalue)).bind
      fun v' w'' hl' hv' ↦ hv'.last ?_
    exact (ends_setProperty hl'.inOrder i name hv'.1).bind
      fun _ _ hl'' hv'' ↦ ends_pure hl''.inOrder hv''
  | .this id line, w, hw, htask => by
    rw [Expr.watch]
    refine .afterNote hw htask rfl fun moments ↦ ?_
    rw [Task.LiesIn, Expr.lookups] at htask
    exact ends_readName (w := { w with moments := moments }) hw (htask.2 _ List.mem_cons_self) _
  | .super id line method, w, hw, htask => by
    rw [Expr.watch]
    refine .afterNote hw htask rfl fun moments ↦ ?_
    rw [Task.LiesIn, Expr.lookups] at htask
    exact ends_superMethod (w := { w with moments := moments }) hw (htask.2 _ List.mem_cons_self)
      line method

theorem ends_watchExprs (hcall : CallEnds call) : ∀ (es : List Expr) {w : Watch},
    InOrder w.machine w.history → ExprsLieIn w.history es →
    Ends (watchExprs call turns es) w fun vs w' ↦
      (∀ v ∈ vs, w'.machine.heap.Holds v) ∧ w'.history.display = w.history.display
  | [], w, hw, _ => by
    rw [watchExprs]
    exact ends_pure hw ⟨nofun, rfl⟩
  | e :: es, w, hw, hes => by
    rw [watchExprs]
    obtain ⟨hplain, hlookups⟩ := hes
    rw [ArePlainExprs] at hplain
    rw [lookupsOfExprs, List.forall_mem_append] at hlookups
    refine (e.ends_watch hcall hw ⟨hplain.1, hlookups.1⟩).bind fun v w' hl hv ↦ ?_
    have hes : ExprsLieIn w'.history es :=
      ⟨hplain.2, fun l hmem ↦ hl.precedes.lookups l (hlookups.2 l (hv.scopes ▸ hmem))⟩
    refine (ends_watchExprs hcall es hl.inOrder hes).bind fun vs w'' hl' ⟨hvs, hdisplay⟩ ↦ ?_
    exact ends_pure hl'.inOrder
      ⟨List.forall_mem_cons.2 ⟨hl'.settles.heap.holds hv.1, hvs⟩, hdisplay.trans hv.2⟩

end

/-! ### Statements -/

namespace Watched

variable {w : Watch} (hw : InOrder w.machine w.history)
include hw

/-- A variable without an initializer is declared. -/
theorem ends_declareNil (x : Ident) :
    Ends (keep (fun w ↦ w.history.declare x .variable) (Run.define x.name .nil)) w
      fun _ w' ↦ w'.history.scopes = declareAs x .variable w.history.scopes := by
  refine ends_keep_of_ok (Run.settles_define x .nil) rfl fun hm ↦ ?_
  have hp : Precedes w.machine.heap w.history _ (w.history.declare x .variable) :=
    ⟨hm.heap, fun _ _ ↦ id, fun _ _ ↦ .inl, fun _ ↦ id⟩
  have hl : (w.machine.heap.define w.machine.current x.name .nil).IsLayered :=
    hw.tells.layered.define _ _ trivial
  exact ⟨hp, .of_declare rfl rfl rfl, InOrder.declare hw hm hp
    (hw.tells.keep hp hl rfl rfl rfl rfl) rfl rfl rfl
    (.inl (Frames.binds_define_self _ hw.current_lt _ _)), scopes_declare _ _ _⟩

/-- The initializer of a variable begins. -/
theorem ends_begin (x : Ident) :
    Ends (keep (fun w ↦ w.history.begin w.machine.current x) (pure ())) w
      fun _ w' ↦ w'.history.scopes = declareAs x .variable w.history.scopes := by
  refine ends_keep_of_ok (Run.settles_pure ()) rfl fun _ ↦ ?_
  have hp : Precedes w.machine.heap w.history w.machine.heap
      (w.history.begin w.machine.current x) :=
    ⟨.refl _, fun _ _ ↦ id, fun _ _ hx ↦ .inl (List.mem_cons_of_mem _ hx), fun _ ↦ id⟩
  exact ⟨hp, .of_declare rfl rfl rfl, InOrder.declare hw (.refl _) hp
    (hw.tells.keep hp hw.tells.layered rfl rfl rfl rfl) rfl rfl rfl
    (.inr ⟨rfl, List.mem_cons_self⟩), scopes_declare _ _ _⟩

/-- The initializer of a variable is complete. -/
theorem ends_finish (x : Ident) {v : Value} (hv : w.machine.heap.Holds v) :
    Ends (keep (fun w ↦ w.history.finish w.machine.current x) (Run.define x.name v)) w
      fun _ w' ↦ w'.history.scopes = w.history.scopes := by
  refine ends_keep_of_ok (Run.settles_define x v) rfl fun hm ↦ ?_
  have hbinds := Frames.binds_define_self w.machine.heap.frames hw.current_lt x.name v
  have hp : Precedes w.machine.heap w.history
      (w.machine.heap.define w.machine.current x.name v)
      (w.history.finish w.machine.current x) := by
    refine ⟨hm.heap, fun _ _ ↦ id, fun f y hy ↦ ?_, fun _ ↦ id⟩
    by_cases heq : (f, y) = (w.machine.current, x.name)
    · cases heq
      exact .inr hbinds
    · exact .inl (List.mem_filter.2 ⟨hy, decide_eq_true heq⟩)
  refine ⟨hp, ⟨rfl, rfl, rfl⟩, ?_, rfl⟩
  exact
    { hw with
      tells := hw.tells.keep hp (hw.tells.layered.define _ _ hv) rfl rfl rfl rfl
      isOpen := hw.isOpen.mono hp }

end Watched

/-- Statements lie where a history is. -/
def StmtsLieIn (H : History) (ss : List Stmt) : Prop :=
  ArePlain ss ∧ ∀ l ∈ lookupsOfStmts H.scopes ss, l ∈ H.lookups

/-- A branch finishes as the statement around it does. -/
theorem Finishes.branch {s s' : Stmt} {w w' w'' : Watch} {v : Value} {flow : Flow}
    (h : Finishes s w' flow w'') (hs : s.isDeclaration = false) (hs' : s'.isDeclaration = false)
    (hv : Yields w v w') : Finishes s' w flow w'' := by
  refine ⟨h.1, fun hflow ↦ ?_⟩
  rw [h.2 hflow, Stmt.declare_eq_self hs, Stmt.declare_eq_self hs', hv.scopes]

mutual

theorem Stmt.ends_watch (hcall : CallEnds call) : ∀ (s : Stmt) {w : Watch},
    InOrder w.machine w.history → (Task.stmt s).LiesIn w.history →
    Ends (s.watch call turns) w (Finishes s w)
  | .expression e, w, hw, htask => by
    rw [Stmt.watch]
    refine .afterNote hw htask rfl fun moments ↦ ?_
    rw [Task.LiesIn, Stmt.IsPlain, Stmt.lookups] at htask
    exact (e.ends_watch (w := { w with moments := moments }) hcall hw htask).bind
      fun v w' hl hv ↦ ends_pure hl.inOrder ⟨trivial, fun _ ↦ hv.scopes⟩
  | .print line value, w, hw, htask => by
    rw [Stmt.watch]
    refine .afterNote hw htask rfl fun moments ↦ ?_
    rw [Task.LiesIn, Stmt.IsPlain, Stmt.lookups] at htask
    refine (value.ends_watch (w := { w with moments := moments }) hcall hw htask).bind
      fun v w' hl hv ↦ (ends_printLine hl.inOrder line v).bind fun _ w'' hl' hdisplay ↦ ?_
    exact ends_pure hl'.inOrder
      ⟨trivial, fun _ ↦ (congrArg (List.map Activation.scope) hdisplay).trans hv.scopes⟩
  | .varDecl name none, w, hw, htask => by
    rw [Stmt.watch]
    exact .afterNote hw htask rfl fun moments ↦
      (ends_declareNil (w := { w with moments := moments }) hw name).bind
        fun _ w' hl hscopes ↦ ends_pure hl.inOrder ⟨trivial, fun _ ↦ hscopes⟩
  | .varDecl name (some value), w, hw, htask => by
    rw [Stmt.watch]
    refine .afterNote hw htask rfl fun moments ↦ ?_
    rw [Task.LiesIn, Stmt.IsPlain, Stmt.lookups] at htask
    refine (ends_begin (w := { w with moments := moments }) hw name).bind
      fun _ w₁ hl₁ hscopes ↦ ?_
    have hvalue : (Task.expr value).LiesIn w₁.history :=
      ⟨htask.1, fun l hmem ↦ hl₁.precedes.lookups l (htask.2 l (hscopes ▸ hmem))⟩
    refine (value.ends_watch hcall hl₁.inOrder hvalue).bind fun v w₂ hl₂ hv ↦ ?_
    exact (ends_finish hl₂.inOrder name hv.1).bind fun _ w₃ hl₃ hscopes' ↦
      ends_pure hl₃.inOrder ⟨trivial, fun _ ↦ hscopes'.trans (hv.scopes.trans hscopes)⟩
  | .block body, w, hw, htask => by
    rw [Stmt.watch]
    refine .afterNote hw htask rfl fun moments ↦ ?_
    rw [Task.LiesIn, Stmt.IsPlain, Stmt.lookups] at htask
    refine (ends_inBlock (w := { w with moments := moments }) hw
      fun w' hw' hscopes hlookups ↦ ?_).weaken fun flow w' _ ⟨hflow, hdisplay⟩ ↦
        ⟨hflow, fun _ ↦ congrArg (List.map Activation.scope) hdisplay⟩
    refine ends_watchStmts hcall body hw' ⟨htask.1, fun l hmem ↦ ?_⟩
    rw [hlookups]
    exact htask.2 l (hscopes ▸ hmem)
  | .ifElse condition thenBranch none, w, hw, htask => by
    rw [Stmt.watch]
    refine .afterNote hw htask rfl fun moments ↦ ?_
    rw [Task.LiesIn, Stmt.IsPlain, Stmt.lookups, List.forall_mem_append] at htask
    obtain ⟨⟨hplain, hplain', hbranch⟩, hcondition, hthen⟩ := htask
    refine (condition.ends_watch (w := { w with moments := moments }) hcall hw
      ⟨hplain, hcondition⟩).bind fun v w' hl hv ↦ ?_
    split
    · have htask' : (Task.stmt thenBranch).LiesIn w.history := ⟨hplain', hthen⟩
      exact (thenBranch.ends_watch hcall hl.inOrder (hv.liesIn hl htask')).weaken
        fun _ _ _ h ↦ h.branch hbranch rfl hv
    · exact ends_pure hl.inOrder ⟨trivial, fun _ ↦ hv.scopes⟩
  | .ifElse condition thenBranch (some elseBranch), w, hw, htask => by
    rw [Stmt.watch]
    refine .afterNote hw htask rfl fun moments ↦ ?_
    rw [Task.LiesIn, Stmt.IsPlain, Stmt.lookups, List.forall_mem_append,
      List.forall_mem_append] at htask
    obtain ⟨⟨hplain, ⟨hplain', hbranch⟩, hplain'', hbranch'⟩, ⟨hcondition, hthen⟩, helse⟩ := htask
    refine (condition.ends_watch (w := { w with moments := moments }) hcall hw
      ⟨hplain, hcondition⟩).bind fun v w' hl hv ↦ ?_
    split
    · have htask' : (Task.stmt thenBranch).LiesIn w.history := ⟨hplain', hthen⟩
      exact (thenBranch.ends_watch hcall hl.inOrder (hv.liesIn hl htask')).weaken
        fun _ _ _ h ↦ h.branch hbranch rfl hv
    · have htask' : (Task.stmt elseBranch).LiesIn w.history := ⟨hplain'', helse⟩
      exact (elseBranch.ends_watch hcall hl.inOrder (hv.liesIn hl htask')).weaken
        fun _ _ _ h ↦ h.branch hbranch' rfl hv
  | .whileLoop condition body, w, hw, htask => by
    rw [Stmt.watch]
    refine .afterNote hw htask rfl fun moments ↦ ?_
    rw [Task.LiesIn, Stmt.IsPlain, Stmt.lookups, List.forall_mem_append] at htask
    obtain ⟨⟨hplain, hplain', hbody⟩, hcondition, hlookups⟩ := htask
    have hcondition : (Task.expr condition).LiesIn w.history := ⟨hplain, hcondition⟩
    have hbranch : (Task.stmt body).LiesIn w.history := ⟨hplain', hlookups⟩
    -- Each turn begins in the scopes of the loop.
    let T (w' : Watch) : Prop :=
      w'.history.scopes = w.history.scopes ∧ ∀ l ∈ w.history.lookups, l ∈ w'.history.lookups
    refine (ends_repeatWhile (T := T) (fun w₁ hw₁ hturn ↦ ?_) (fun w₁ hw₁ hturn ↦ ?_) turns
      { w with moments := moments } hw ⟨rfl, fun _ ↦ id⟩).weaken
      fun flow w' _ ⟨hflow, hnext⟩ ↦ ⟨hflow, fun h ↦ (hnext h).1⟩
    · refine (condition.ends_watch hcall hw₁ (hcondition.mono hturn.1 hturn.2)).weaken
        fun v w₂ hl hv ↦ ⟨hv.scopes.trans hturn.1, fun l hmem ↦ ?_⟩
      exact hl.precedes.lookups l (hturn.2 l hmem)
    · refine (body.ends_watch hcall hw₁ (hbranch.mono hturn.1 hturn.2)).weaken
        fun flow w₂ hl ⟨hflow, hscopes⟩ ↦ ⟨hflow, fun h ↦ ⟨?_, fun l hmem ↦ ?_⟩⟩
      · rw [hscopes h, Stmt.declare_eq_self hbody, hturn.1]
      · exact hl.precedes.lookups l (hturn.2 l hmem)
  | .funDecl decl, w, hw, htask => by
    rw [Stmt.watch]
    exact .afterNote hw htask rfl fun moments ↦
      (ends_declareFunction (w := { w with moments := moments }) hw htask).bind
        fun _ w' hl hscopes ↦ ends_pure hl.inOrder ⟨trivial, fun _ ↦ hscopes⟩
  | .returns _ none, w, hw, htask => by
    rw [Stmt.watch]
    exact .afterNote hw htask rfl fun moments ↦
      ends_pure (w := { w with moments := moments }) hw ⟨trivial, nofun⟩
  | .returns _ (some value), w, hw, htask => by
    rw [Stmt.watch]
    refine .afterNote hw htask rfl fun moments ↦ ?_
    rw [Task.LiesIn, Stmt.IsPlain, Stmt.lookups] at htask
    exact (value.ends_watch (w := { w with moments := moments }) hcall hw htask).bind
      fun v w' hl hv ↦ ends_pure hl.inOrder ⟨hv.1, nofun⟩
  | .classDecl name superclass methods, w, hw, htask => by
    rw [Stmt.watch]
    exact .afterNote hw htask rfl fun moments ↦
      (ends_declareClass (w := { w with moments := moments }) hw htask).bind
        fun _ w' hl hscopes ↦ ends_pure hl.inOrder ⟨trivial, fun _ ↦ hscopes⟩

theorem ends_watchStmts (hcall : CallEnds call) : ∀ (ss : List Stmt) {w : Watch},
    InOrder w.machine w.history → StmtsLieIn w.history ss →
    Ends (watchStmts call turns ss) w fun flow w' ↦ flow.Holds w'.machine.heap
  | [], w, hw, _ => by
    rw [watchStmts]
    exact ends_pure hw trivial
  | s :: ss, w, hw, ⟨hplain, hlookups⟩ => by
    rw [watchStmts]
    rw [ArePlain] at hplain
    rw [lookupsOfStmts, List.forall_mem_append] at hlookups
    refine (s.ends_watch hcall hw ⟨hplain.1, hlookups.1⟩).bind fun flow w' hl ⟨hflow, hnext⟩ ↦ ?_
    cases flow with
    | next =>
      refine ends_watchStmts hcall ss hl.inOrder ⟨hplain.2, fun l hmem ↦ ?_⟩
      exact hl.precedes.lookups l (hlookups.2 l (hnext rfl ▸ hmem))
    | returned v => exact ends_pure hl.inOrder hflow

end

/-! ### Calls and programs -/

theorem ends_watchCallAt (turns : Nat) : ∀ level : Nat, CallEnds (watchCallAt turns level)
  | 0, _, _, _, _, hw, _ => ends_throw hw rfl
  | level + 1, v, vs, line, _, hw, hvs => by
    refine ends_callValue (fun ss w hw hplain hlookups ↦ ?_) hw line hvs
    exact ends_watchStmts (ends_watchCallAt turns level) ss hw ⟨hplain, hlookups⟩

/-- At the top level, no frame is open apart from the globals. -/
theorem History.Resumes.display_eq_nil {H H' : History} (h : H.Resumes H') (hH : H.display = []) :
    H'.display = [] := by
  have hframes := h.frames
  rw [hH] at hframes
  exact List.map_eq_nil_iff.1 hframes

/-- A program at the top level keeps order. -/
theorem ends_watchProgram (turns : Nat) (program : List Stmt) {w : Watch}
    (hw : InOrder w.machine w.history) (htop : w.history.display = [])
    (hprogram : StmtsLieIn w.history program) :
    Ends (watchProgram turns program) w fun _ _ ↦ True := by
  induction program generalizing w with
  | nil => exact ends_pure hw trivial
  | cons s ss ih =>
    obtain ⟨hplain, hlookups⟩ := hprogram
    rw [ArePlain] at hplain
    rw [lookupsOfStmts, List.forall_mem_append] at hlookups
    refine (s.ends_watch (ends_watchCallAt turns enoughLevels) hw ⟨hplain.1, hlookups.1⟩).bind
      fun flow w' hl _ ↦ ?_
    have htop' := hl.resumes.display_eq_nil htop
    have hscopes : w'.history.scopes = s.declare w.history.scopes := by
      rw [History.scopes, History.scopes, htop, htop']
      cases s <;> rfl
    refine ih hl.inOrder htop' ⟨hplain.2, fun l hmem ↦ ?_⟩
    exact hl.precedes.lookups l (hlookups.2 l (hscopes ▸ hmem))

end LexScript
