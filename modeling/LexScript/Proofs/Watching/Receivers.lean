import LexScript.Proofs.Watching.Access
import LexScript.Proofs.Watching.Sessions

/-!
# Methods and their instances

Where `this` is written in an accepted source, it denotes an instance of the class around it when it
is evaluated, and where `super` is written, the methods are searched from the superclass of that
class on. Calls of classes and of initializers yield the instance. None of this depends on how a
method came to be called: each function that is a method has been bound to an instance.

## Main definitions

* `Moment.IsInMethod` : the class around the code that runs, and what `this` denotes.
* `Heap.IsBoundMethod` : a method that is bound to an instance, as a value.

## Main statements

* `Moment.OccursIn.receivers_sound` : `this`, `super` and initializers are sound.
-/

namespace LexScript

open Run

/-! ### Calls of classes and initializers -/

section

variable {body : List Stmt → Run Flow} {m m' : Machine} {v : Value} {vs : List Value} {line : Nat}

omit v in
theorem eq_of_checkArity_eq_ok {mark : Mark} {expected got : Nat}
    (h : checkArity mark expected got m = .ok () m') : m' = m := by
  unfold checkArity at h
  split at h <;> cases h
  rfl

/-- A class that is called yields a new instance of it. -/
theorem Run.exists_of_callClass_eq_ok (hbody : ∀ ss, (body ss).Settles) {c : Nat} {mark : Mark}
    (h : callClass body c vs mark m = .ok v m') :
    v = .instanceRef m.heap.instances.size ∧
      m'.heap.classOf? m.heap.instances.size = some c := by
  have hclass : (m.heap.newInstance c).2.classOf? m.heap.instances.size = some c := by
    simp [Heap.newInstance, Heap.classOf?]
  obtain ⟨i, m₁, hnew, h⟩ := eq_ok_of_bind h
  cases hnew
  obtain ⟨method, m₁, hask, h⟩ := eq_ok_of_bind h
  obtain ⟨-, rfl⟩ := EStateM.Result.ok.inj hask
  cases method with
  | some method =>
    obtain ⟨bound, m₁, hbind, h⟩ := eq_ok_of_bind h
    cases hbind
    obtain ⟨_, m₂, hcall, h⟩ := eq_ok_of_bind h
    cases h
    have hgrows := (Heap.growsTo_bindMethod (m.heap.newInstance c).2 method
      m.heap.instances.size).trans ((settles_callClosure hbody _ _ _).of_eq_ok hcall).heap
    exact ⟨rfl, hgrows.classOf _ _ hclass⟩
  | none =>
    cases h
    exact ⟨rfl, hclass⟩

/-- A completed call of a class yields a new instance of it. -/
theorem Run.exists_of_callValue_classRef_eq_ok (hbody : ∀ ss, (body ss).Settles) {c : Nat}
    (h : callValue body (.classRef c) vs line m = .ok v m') :
    v = .instanceRef m.heap.instances.size ∧
      m'.heap.classOf? m.heap.instances.size = some c := by
  unfold callValue at h
  dsimp only at h
  obtain ⟨arity, m₁, harity, h⟩ := eq_ok_of_bind h
  cases harity
  obtain ⟨_, m₁, hcheck, h⟩ := eq_ok_of_bind h
  cases eq_of_checkArity_eq_ok hcheck
  exact exists_of_callClass_eq_ok hbody h

/-- A completed call of an initializer yields what its frame binds `this` to. -/
theorem Run.eq_of_callClosure_eq_ok (hbody : ∀ ss, (body ss).Settles) {c : Closure} {u : Value}
    {mark : Mark} (hinit : c.isInitializer = true)
    (hthis : m.heap.frames.find? c.frame .this = some u)
    (h : callClosure body c vs mark m = .ok v m') : v = u := by
  unfold callClosure inCall at h
  split at h
  · cases h
  · split at h
    · next r m₁ hcall =>
      cases h
      obtain ⟨f, m₂, hnew, hcall⟩ := eq_ok_of_bind hcall
      obtain ⟨_, m₃, hbind, hcall⟩ := eq_ok_of_bind hcall
      obtain ⟨flow, m₄, hrun, hcall⟩ := eq_ok_of_bind hcall
      have hgrows : m.heap.GrowsTo m₄.heap := by
        have hnew := ((settles_change fun heap ↦ heap.growsTo_newFrame c.frame).of_eq_ok hnew).heap
        have hbind := ((settles_change fun heap ↦
          heap.growsTo_bindParams f c.params vs).of_eq_ok hbind).heap
        exact (hnew.trans hbind).trans (((hbody c.body).inFrame f).of_eq_ok hrun).heap
      have hlater := hgrows.receivers c.frame (m.heap.frames.lt_size_of_find? hthis) .this rfl
      unfold callResult at hcall
      rw [if_pos hinit] at hcall
      cases hcall
      dsimp only
      rw [hlater, hthis, Option.getD_some]
    · cases h

theorem Run.eq_of_callValue_functionRef_eq_ok (hbody : ∀ ss, (body ss).Settles) {k : Nat}
    {c : Closure} {u : Value} (hc : m.heap.functions[k]? = some c) (hinit : c.isInitializer = true)
    (hthis : m.heap.frames.find? c.frame .this = some u)
    (h : callValue body (.functionRef k) vs line m = .ok v m') : v = u := by
  unfold callValue at h
  dsimp only at h
  obtain ⟨found, m₁, hask, h⟩ := eq_ok_of_bind h
  obtain ⟨hfound, rfl⟩ := EStateM.Result.ok.inj hask
  cases hfound.symm.trans hc
  obtain ⟨_, m₁, hcheck, h⟩ := eq_ok_of_bind h
  cases eq_of_checkArity_eq_ok hcheck
  exact eq_of_callClosure_eq_ok hbody hinit hthis h

end

/-! ### Methods that are bound -/

/-- A value is a method that is bound to an instance: a function with the text of the method, in a
frame where the method lies, and which binds `this` to the instance. -/
def Heap.IsBoundMethod (h : Heap) (v : Value) (method : Closure) (i : Nat) : Prop :=
  ∃ k f, v = .functionRef k ∧ h.functions[k]? = some { method with frame := f } ∧
    h.frames.enclosing? f = some method.frame ∧ h.frames.find? f .this = some (.instanceRef i)

theorem Heap.isBoundMethod_bindMethod (h : Heap) (method : Closure) (i : Nat) :
    let bound := h.bindMethod method i
    (bound.2.newFunction bound.1).2.IsBoundMethod (.functionRef h.functions.size) method i := by
  refine ⟨_, h.frames.size, rfl, ?_, h.enclosing?_newFrame_define _ _ _,
    h.find?_newFrame_define _ _ _⟩
  exact Array.getElem?_push_size

/-- Looking a method up in a class yields its method, bound, or fails because it has none. -/
theorem Run.boundMethod_cases {m : Machine} (hl : m.heap.IsLayered) (c i : Nat) (name : Ident) :
    (∃ v m' method, boundMethod c i name m = .ok v m' ∧ m.heap.Provides name.text c method ∧
      m'.heap.IsBoundMethod v method i) ∨
    boundMethod c i name m = .error (.fault ⟨.undefinedProperty name.text, name.mark⟩) m ∧
      ∀ a record, m.heap.Descends c a → m.heap.classes[a]? = some record →
        record.methods.find? name.text = none := by
  rw [Run.boundMethod_apply]
  cases hfind : m.heap.findMethod? c name.text with
  | some method =>
    exact .inl ⟨_, _, method, rfl, hl.findMethod?_eq_some_iff.1 hfind,
      m.heap.isBoundMethod_bindMethod method i⟩
  | none => exact .inr ⟨rfl, hl.findMethod?_eq_none_iff.1 hfind⟩

/-! ### What receivers denote -/

/-- At a moment, the code that runs lies in a method of a class, with no class around it further in,
and the method was bound to an instance of that class or of one that inherits from it. -/
structure Moment.IsInMethod (moment : Moment) (c i : Nat) : Prop where
  exists_scope : ∃ e methods frame outer, scopesUp? .this moment.history.scopes = some e ∧
    moment.history.display.drop e = ⟨thisScope methods, frame, some c⟩ :: outer ∧
    moment.history.classes[c]? = some ⟨methods, outer⟩ ∧
    moment.machine.heap.frames.find? frame .this = some (.instanceRef i)
  descends : ∃ d, moment.machine.heap.classOf? i = some d ∧ moment.machine.heap.Descends d c

variable {moment : Moment} {id : Nat}

/-- Where scopes bind `this`, a method runs. -/
theorem Moment.isInMethod_of_thisIsBound {e c i frame : Nat} {methods : List FunctionDecl}
    {outer : List Activation} (he : scopesUp? .this moment.history.scopes = some e)
    (hdrop : moment.history.display.drop e = ⟨thisScope methods, frame, some c⟩ :: outer)
    (hbound : ThisIsBound moment.machine.heap moment.history methods outer frame c i) :
    moment.IsInMethod c i :=
  ⟨⟨e, methods, frame, outer, he, hdrop, hbound.origin, hbound.find⟩, hbound.descends⟩

/-- Where `this` is looked up, it is the instance that the method around it was bound to. -/
theorem Moment.IsInOrder.exists_this (h : moment.IsInOrder)
    (htask : moment.task = .lookup id .this) :
    ⟨id, .this, moment.history.scopes⟩ ∈ moment.history.lookups ∧ ∃ c i, moment.IsInMethod c i ∧
      ∀ line, readName id .this line moment.machine = .ok (.instanceRef i) moment.machine := by
  have haccepted := h.liesIn
  rw [htask, Task.LiesIn] at haccepted
  obtain ⟨hdistance, e, he⟩ := h.inOrder.lookups _ haccepted
  obtain ⟨methods, frame, c, i, outer, hdrop, hancestor, hbound⟩ := h.inOrder.exists_this he
  refine ⟨haccepted, c, i, isInMethod_of_thisIsBound he hdrop hbound, fun line ↦ ?_⟩
  have hfound : distanceOf id moment.machine = .ok (some e) moment.machine := by
    rw [distanceOf, hdistance, Lookup.distance?, he]
  rw [readName, bind_apply, hfound]
  exact Watched.readAt_of_ancestor? hancestor hbound.find line

/-- Where `super` is looked up, a method of a class with a superclass runs, and a method of that
superclass is looked up and bound to what `this` denotes. -/
theorem Moment.IsInOrder.exists_super (h : moment.IsInOrder)
    (htask : moment.task = .lookup id .super) :
    ⟨id, .super, moment.history.scopes⟩ ∈ moment.history.lookups ∧
    ∃ c i record s, moment.IsInMethod c i ∧ moment.machine.heap.classes[c]? = some record ∧
      record.superclass = some s ∧
      ∀ line name,
        superMethod id line name moment.machine = boundMethod s i name moment.machine := by
  have haccepted := h.liesIn
  rw [htask, Task.LiesIn] at haccepted
  obtain ⟨hdistance, e, he, hsuper⟩ := h.inOrder.lookups _ haccepted
  obtain ⟨methods, frame, c, i, outer, hdrop, hancestor, hbound, record, s, f, hrecord, hs, hf,
    hfind⟩ := h.inOrder.exists_super he hsuper
  refine ⟨haccepted, c, i, record, s, isInMethod_of_thisIsBound he hdrop hbound, hrecord, hs,
    fun line name ↦ ?_⟩
  have hfound : distanceOf id moment.machine = .ok (some (e + 1)) moment.machine := by
    rw [distanceOf, hdistance, Lookup.distance?, hsuper]
  have hthis := Watched.readAt_of_ancestor? hancestor hbound.find line
  have hclass := Watched.readAt_of_ancestor? hf hfind line
  simp only [superMethod, bind_apply, hfound, hclass, Nat.add_sub_cancel, hthis]

/-! ### Soundness -/

/-- Receivers are sound: `this` denotes an instance of the class whose method the code lies in, or
of a class that inherits from it; `super` yields the nearest method from the superclass of that
class on, bound to what `this` denotes, or fails because no class there has one; and calls of
classes and of initializers yield the instance. -/
theorem Moment.OccursIn.receivers_sound {s : Session} {turns : Nat} {source : String}
    (h : moment.OccursIn s turns source) :
    (∀ id, moment.task = .lookup id .this →
      ⟨id, .this, moment.history.scopes⟩ ∈ moment.history.lookups ∧ ∃ c i, moment.IsInMethod c i ∧
        ∀ line, readName id .this line moment.machine = .ok (.instanceRef i) moment.machine) ∧
    (∀ id, moment.task = .lookup id .super →
      ⟨id, .super, moment.history.scopes⟩ ∈ moment.history.lookups ∧
      ∃ c i record s, moment.IsInMethod c i ∧ moment.machine.heap.classes[c]? = some record ∧
        record.superclass = some s ∧
        ∀ line name,
          (∃ v m method, superMethod id line name moment.machine = .ok v m ∧
            moment.machine.heap.Provides name.text s method ∧ m.heap.IsBoundMethod v method i) ∨
          superMethod id line name moment.machine =
              .error (.fault ⟨.undefinedProperty name.text, name.mark⟩) moment.machine ∧
            ∀ a record, moment.machine.heap.Descends s a →
              moment.machine.heap.classes[a]? = some record →
              record.methods.find? name.text = none) ∧
    (∀ c vs line, moment.task = .call (.classRef c) vs line → ∀ level v m,
      callAt turns level (.classRef c) vs line moment.machine = .ok v m →
        v = .instanceRef moment.machine.heap.instances.size ∧
        m.heap.classOf? moment.machine.heap.instances.size = some c) ∧
    (∀ k vs line, moment.task = .call (.functionRef k) vs line → ∀ method display i,
      moment.machine.heap.functions[k]? = some method → method.name = some "init" →
      moment.history.functions[k]? = some ⟨display, some i⟩ → ∀ level v m,
      callAt turns level (.functionRef k) vs line moment.machine = .ok v m →
        v = .instanceRef i) := by
  refine ⟨fun id ↦ h.isInOrder.exists_this, fun id htask ↦ ?_, fun c vs line _ level v m hcall ↦ ?_,
    fun k vs line _ method display i hk hname horigin level v m hcall ↦ ?_⟩
  · obtain ⟨haccepted, c, i, record, s, hmethod, hrecord, hs, hsuper⟩ :=
      h.isInOrder.exists_super htask
    refine ⟨haccepted, c, i, record, s, hmethod, hrecord, hs, fun line name ↦ ?_⟩
    rw [hsuper]
    exact boundMethod_cases h.isInOrder.inOrder.tells.layered s i name
  · cases level with
    | zero => cases hcall
    | succ level =>
      have hbody (ss : List Stmt) : (execStmts (callAt turns level) turns ss).Settles :=
        settles_execStmts (settles_callAt turns level) ss
      exact exists_of_callValue_classRef_eq_ok hbody hcall
  · cases level with
    | zero => cases hcall
    | succ level =>
      have hbody (ss : List Stmt) : (execStmts (callAt turns level) turns ss).Settles :=
        settles_execStmts (settles_callAt turns level) ss
      have hcomes := h.isInOrder.inOrder.tells.functions k method _ hk horigin
      obtain ⟨hthis, hinit⟩ := hcomes.bound i rfl
      exact eq_of_callValue_functionRef_eq_ok hbody hk (hinit.2 hname) hthis hcall

/-- An initializer calls the one of the superclass. -/
theorem receivers_sound_subclass :
    let s := Session.start .unlimited (.running 0)
    let source := "class A {init() {this;}} class B < A {init() {super.init();}} B();"
    ∃ moment : Moment, moment.OccursIn s 1 source ∧ ∃ id, moment.task = .lookup id .super ∧
      ∃ c i record s, moment.IsInMethod c i ∧ moment.machine.heap.classes[c]? = some record ∧
        record.superclass = some s := by
  intro s source
  let w := WatchedSession.start .unlimited (.running 0)
  have hany : (w.run 1 source).2.moments.any (fun moment ↦
      (moment.task.lookup?.map Prod.snd) == some .super) = true := by
    decide +kernel
  obtain ⟨moment, hmem, hmoment⟩ := List.any_eq_true.1 hany
  have hoccurs : moment.OccursIn s 1 source := ⟨w, .start _ _, rfl, hmem⟩
  obtain ⟨⟨id, x⟩, hlookup, rfl⟩ := Option.map_eq_some_iff.1 (beq_iff_eq.1 hmoment)
  have htask := Task.eq_lookup_of_lookup? hlookup
  obtain ⟨-, c, i, record, s, hmethod, hrecord, hs, -⟩ := hoccurs.receivers_sound.2.1 id htask
  exact ⟨moment, hoccurs, id, htask, c, i, record, s, hmethod, hrecord, hs⟩

end LexScript
