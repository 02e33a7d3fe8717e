import LexScript.Proofs.Watching.Steps

/-!
# What declarations create

Declarations bind names in the frame in scope and create functions and classes that lie there. A
method that is bound lies in one frame more, which binds `this` and is the counterpart of the scope
around the methods of its class.

## Main statements

* `InOrder.declare` : a name is declared in the innermost frame.
* `Watched.ends_boundMethod`, `Watched.ends_declareFunction`, `Watched.ends_declareClass` : what is
  created lies where the history tells.
-/

namespace LexScript

open Watched

/-! ### Declarations -/

theorem map_scope_declareInnermost (x : Ident) (role : Role) (display : List Activation) :
    (declareInnermost x role display).map Activation.scope =
      declareAs x role (display.map Activation.scope) := by
  cases display <;> rfl

theorem innermostFrame_declareInnermost (x : Ident) (role : Role) (display : List Activation) :
    innermostFrame (declareInnermost x role display) = innermostFrame display := by
  cases display <;> rfl

/-- A declaration leaves the open frames open. -/
theorem History.Resumes.of_declare {H H' : History} {x : Ident} {role : Role}
    (hdisplay : H'.display = declareInnermost x role H.display) (hcalls : H'.calls = H.calls)
    (hlookups : H'.lookups = H.lookups) : H.Resumes H' := by
  refine ⟨?_, hcalls, hlookups⟩
  rw [hdisplay]
  cases H.display <;> rfl

theorem OpenScope.BindsNoReceiver.put {scope : OpenScope} (hs : scope.BindsNoReceiver) (x : Ident)
    (role : Role) :
    OpenScope.BindsNoReceiver { scope with names := scope.names.put x.name role } := by
  intro y hy
  have hne : y ≠ x.name := by
    rintro rfl
    cases hy
  rw [OpenScope.binds, Bindings.binds_put, beq_false_of_ne hne, Bool.false_or]
  exact hs y hy

theorem LieInBody.declare {display : List Activation} (hbody : LieInBody display) (x : Ident)
    (role : Role) : LieInBody (declareInnermost x role display) := by
  cases display with
  | nil => exact hbody
  | cons a outer =>
    intro b hb
    cases hb
    exact (hbody a rfl).put x role

theorem scopes_declare (H : History) (x : Ident) (role : Role) :
    (H.declare x role).scopes = declareAs x role H.scopes := map_scope_declareInnermost x role _

variable {h : Heap} {H : History}

/-- In a block or in the body of a function, a name is declared that the frame binds or waits
for. -/
theorem AreOpen.declare {display : List Activation} (ho : AreOpen h H display)
    (hbody : LieInBody display) (x : Ident) (role : Role)
    (hx : h.frames.binds (innermostFrame display) x.name = true ∨
      role = .variable ∧ (innermostFrame display, x.name) ∈ H.unfinished) :
    AreOpen h H (declareInnermost x role display) := by
  cases display with
  | nil => trivial
  | cons a outer =>
    obtain ⟨ha, houter⟩ := ho
    have hscope := hbody a rfl
    refine ⟨⟨ha.encloses, fun y r hy ↦ ?_, ?_⟩, houter⟩
    · rw [Bindings.find?_put] at hy
      split at hy
      · next heq =>
        cases hy
        rw [heq]
        exact hx
      · exact ha.binds y r hy
    · cases ha.serves with
      | body hscope => exact .body (hscope.put x role)
      | this => exact nomatch (hscope .this rfl : true = false)
      | super => exact nomatch (hscope .super rfl : true = false)

/-- A name is declared in the innermost frame. -/
theorem InOrder.declare {m m' : Machine} {H' : History} (ho : InOrder m H) (hs : m.SettlesTo m')
    (hp : Precedes m.heap H m'.heap H') (ht : H'.Tells m'.heap) {x : Ident} {role : Role}
    (hdisplay : H'.display = declareInnermost x role H.display) (hcalls : H'.calls = H.calls)
    (hlookups : H'.lookups = H.lookups)
    (hx : m'.heap.frames.binds m.current x.name = true ∨
      role = .variable ∧ (m.current, x.name) ∈ H'.unfinished) : InOrder m' H' where
  tells := ht
  isOpen := by
    rw [ho.current] at hx
    rw [hdisplay]
    exact (ho.isOpen.mono hp).declare ho.body x role hx
  body := by
    rw [hdisplay]
    exact ho.body.declare x role
  current := by
    rw [hs.current, ho.current, hdisplay, innermostFrame_declareInnermost]
  depth := by rw [hs.depth, hcalls, ho.depth]
  calls := by
    rw [hcalls]
    exact ho.calls
  lookups l hl := by
    rw [hs.distances]
    exact ho.lookups l (hlookups ▸ hl)

theorem InOrder.current_lt {m : Machine} (ho : InOrder m H) :
    m.current < m.heap.frames.size := by
  rw [ho.current]
  have hopen := ho.isOpen
  cases hd : H.display with
  | nil => exact ho.tells.globals
  | cons a outer =>
    rw [hd] at hopen
    exact m.heap.frames.lt_size_of_enclosing? hopen.1.encloses

/-! ### Methods -/

theorem arePlain_body_of_mem {methods : List FunctionDecl} (hplain : ArePlainMethods methods)
    {decl : FunctionDecl} (hmem : decl ∈ methods) : ArePlain decl.body := by
  induction methods with
  | nil => cases hmem
  | cons decl' methods ih =>
    rw [ArePlainMethods] at hplain
    rcases List.mem_cons.1 hmem with rfl | hmem
    · cases decl
      have hdecl := hplain.1
      rwa [FunctionDecl.IsPlain] at hdecl
    · exact ih hplain.2 hmem

theorem lookups_body_of_mem {opens : List OpenScope} {methods : List FunctionDecl}
    {decl : FunctionDecl} (hmem : decl ∈ methods) :
    ∀ l ∈ lookupsOfStmts (functionScope decl.params decl.body :: opens) decl.body,
      l ∈ lookupsOfMethods opens methods := by
  induction methods with
  | nil => cases hmem
  | cons decl' methods ih =>
    intro l hl
    rw [lookupsOfMethods, List.mem_append]
    rcases List.mem_cons.1 hmem with rfl | hmem
    · cases decl
      rw [FunctionDecl.lookups]
      exact .inl hl
    · exact .inr (ih hmem l hl)

/-- A method that is bound to an instance lies inside a frame that binds `this`, for the scope
around the methods of the class in which it was found. -/
theorem liesIn_bindMethod {w : Watch} (ht : w.history.Tells w.machine.heap) {c d i : Nat}
    {name : String} {method : Closure}
    (hfind : w.machine.heap.findMethod? c name = some method)
    (hd : w.machine.heap.classOf? i = some d) (hdescends : w.machine.heap.Descends d c) :
    let bound := w.machine.heap.bindMethod method i
    bound.1.LiesIn bound.2 w.history (w.methodDisplay c name) ∧
      bound.2.frames.find? bound.1.frame .this = some (.instanceRef i) ∧
      (bound.1.isInitializer = true ↔ bound.1.name = some "init") := by
  intro bound
  obtain ⟨owner, record, howner, hinherits, hrecord, hmethod⟩ :=
    Heap.exists_owner_of_findMethod? hfind
  obtain ⟨⟨methods, display⟩, horigin, hcomes⟩ := ht.exists_classOrigin hrecord
  rw [hcomes.methods] at hmethod
  obtain ⟨decl, hmem, hname, rfl⟩ := exists_mem_of_find?_methodTable hmethod
  have hdisplay : w.methodDisplay c name =
      ⟨thisScope methods, w.machine.heap.frames.size, some owner⟩ :: display := by
    simp only [Watch.methodDisplay, howner, horigin]
  have hp : Precedes w.machine.heap w.history bound.2 w.history :=
    .of_growsTo (w.machine.heap.growsTo_bindMethod _ i)
  have hencloses : bound.2.frames.enclosing? w.machine.heap.frames.size =
      some (innermostFrame display) := w.machine.heap.enclosing?_newFrame_define _ _ _
  have hthis : bound.2.frames.find? w.machine.heap.frames.size .this =
      some (.instanceRef i) := w.machine.heap.find?_newFrame_define _ _ _
  refine ⟨⟨?_, ?_, ?_, ?_⟩, hthis, ?_⟩
  · rw [hdisplay]
    refine ⟨⟨hencloses, fun x role hx ↦ .inl ?_, ?_⟩, hcomes.isOpen.mono hp⟩
    · simp only [thisScope, Bindings.find?_put, Bindings.find?_empty] at hx
      split at hx
      · next heq =>
        rw [heq, Frames.binds_iff]
        exact ⟨_, hthis⟩
      · cases hx
    · exact .this (hp.classes _ _ horigin) hthis (hp.heap.classOf _ _ hd)
        (hp.heap.descends (hdescends.trans hinherits))
  · rw [hdisplay]
    rfl
  · exact arePlain_body_of_mem hcomes.isPlain hmem
  · rw [hdisplay]
    exact fun l hl ↦ hcomes.accepted l (lookups_body_of_mem hmem l hl)
  · have hinit : decl.isInitializer = true ↔ name = "init" := by
      rw [FunctionDecl.isInitializer, beq_iff_eq, hname]
    exact hinit.trans (Option.some_inj).symm

/-! ### What is yielded -/

/-- A value is held and the same frames are open as before. -/
def Yields (w : Watch) (v : Value) (w' : Watch) : Prop :=
  w'.machine.heap.Holds v ∧ w'.history.display = w.history.display

theorem Run.boundMethod_apply (c i : Nat) (name : Ident) (m : Machine) :
    boundMethod c i name m =
      match m.heap.findMethod? c name.text with
      | some method =>
        let bound := m.heap.bindMethod method i
        .ok (.functionRef m.heap.functions.size)
          { m with heap := (bound.2.newFunction bound.1).2 }
      | none => .error (.fault ⟨.undefinedProperty name.text, name.mark⟩) m := by
  unfold boundMethod
  rw [bind_apply]
  simp only [ask]
  cases m.heap.findMethod? c name.text <;> rfl

namespace Watched

variable {w : Watch} (hw : InOrder w.machine w.history)
include hw

/-- A function is created that lies in the open frames. -/
theorem inOrder_addFunction {m : Machine} {c : Closure} {origin : FunctionOrigin}
    (hs : w.machine.SettlesTo m) (hl : m.heap.IsLayered)
    (hfunctions : m.heap.functions = w.machine.heap.functions.push c)
    (hclasses : m.heap.classes = w.machine.heap.classes)
    (hc : c.ComesFrom m.heap (w.history.addFunction origin) origin) :
    InOrder m (w.history.addFunction origin) := by
  have hp : Precedes w.machine.heap w.history m.heap (w.history.addFunction origin) :=
    ⟨hs.heap, fun _ _ ↦ id, fun _ _ ↦ .inl, fun _ ↦ id⟩
  exact
    { tells := hw.tells.addFunction hp hl hfunctions rfl hclasses rfl hc
      isOpen := hw.isOpen.mono hp
      body := hw.body
      current := hs.current.trans hw.current
      depth := hs.depth.trans hw.depth
      calls := hw.calls
      lookups := fun l hl ↦ by
        rw [hs.distances]
        exact hw.lookups l hl }

theorem ends_boundMethod {c d i : Nat} (name : Ident)
    (hd : w.machine.heap.classOf? i = some d) (hdescends : w.machine.heap.Descends d c) :
    Ends (boundMethod c i name) w (Yields w) := by
  have hsettles := Run.settles_boundMethod c i name
  have hm := hsettles w.machine
  refine ends_keep hsettles (fun v m hok ↦ ?_) fun e m herror ↦ ?_
  · rw [hok] at hm
    rw [Run.boundMethod_apply] at hok
    cases hfind : w.machine.heap.findMethod? c name.text with
    | none =>
      rw [hfind] at hok
      cases hok
    | some method =>
      rw [hfind] at hok
      cases hok
      obtain ⟨hliesIn, hthis, hinit⟩ := liesIn_bindMethod hw.tells hfind hd hdescends
      have hp := Heap.growsTo_newFunction
        (w.machine.heap.bindMethod method i).2 (w.machine.heap.bindMethod method i).1
      have hprecedes : Precedes (w.machine.heap.bindMethod method i).2 w.history _
          (w.history.addFunction ⟨w.methodDisplay c name.text, some i⟩) :=
        ⟨hp, fun _ _ ↦ id, fun _ _ ↦ .inl, fun _ ↦ id⟩
      refine ⟨⟨hm.heap, fun _ _ ↦ id, fun _ _ ↦ .inl, fun _ ↦ id⟩, ⟨rfl, rfl, rfl⟩, ?_, trivial,
        rfl⟩
      refine inOrder_addFunction hw hm ((hw.tells.layered.bindMethod method i).newFunction _) rfl
        rfl ?_
      exact
        { liesIn := hliesIn.mono hprecedes
          unbound := nofun
          bound := fun j hj ↦ by
            cases hj
            exact ⟨hthis, hinit⟩ }
  · rw [Run.boundMethod_apply] at herror
    cases hfind : w.machine.heap.findMethod? c name.text with
    | none =>
      rw [hfind] at herror
      cases herror
      exact ⟨hw, rfl⟩
    | some method =>
      rw [hfind] at herror
      cases herror

/-- A function without a name is created. -/
theorem ends_lambda {id line : Nat} {params : List Ident} {body : List Stmt}
    (htask : (Task.expr (.lambda id line params body)).LiesIn w.history) :
    Ends
      (keep (fun w ↦ w.history.addFunction ⟨w.history.display, none⟩) do
        let f ← Run.currentFrame
        Run.newFunction ⟨none, params, body, f, false⟩)
      w (Yields w) := by
  obtain ⟨hplain, hlookups⟩ := htask
  rw [Expr.IsPlain] at hplain
  rw [Expr.lookups] at hlookups
  have hsettles := Run.settles_currentFrame.bind fun f ↦
    Run.settles_newFunction ⟨none, params, body, f, false⟩
  refine ends_keep_of_ok hsettles rfl fun hm ↦ ?_
  have hp : Precedes w.machine.heap w.history _
      (w.history.addFunction ⟨w.history.display, none⟩) :=
    ⟨hm.heap, fun _ _ h ↦ h, fun _ _ ↦ .inl, fun _ h ↦ h⟩
  refine ⟨hp, ⟨rfl, rfl, rfl⟩,
    inOrder_addFunction hw hm (hw.tells.layered.newFunction _) rfl rfl ?_, trivial, rfl⟩
  exact
    { liesIn := ⟨hw.isOpen.mono hp, hw.current, hplain, hlookups⟩
      unbound := fun _ ↦ rfl
      bound := nofun }

/-- A function with a name is created. -/
theorem ends_declareFunction {decl : FunctionDecl}
    (htask : (Task.stmt (.funDecl decl)).LiesIn w.history) :
    Ends (declareFunction decl) w fun _ w' ↦
      w'.history.scopes = declareAs decl.name .function w.history.scopes := by
  obtain ⟨hplain, hlookups⟩ := htask
  rw [Stmt.IsPlain] at hplain
  rw [Stmt.lookups] at hlookups
  refine ends_keep_of_ok (Run.settles_declareFunction decl) rfl fun hm ↦ ?_
  have hp : Precedes w.machine.heap w.history _ (w.history.declareFunction decl) :=
    ⟨hm.heap, fun _ _ h ↦ h, fun _ _ ↦ .inl, fun _ h ↦ h⟩
  have hbinds := Frames.binds_define_self _ hw.current_lt decl.name.name
    (.functionRef w.machine.heap.functions.size)
  have hscopes : (w.history.declareFunction decl).scopes =
      declareAs decl.name .function w.history.scopes := map_scope_declareInnermost _ _ _
  have hopen := (hw.isOpen.mono hp).declare hw.body decl.name .function
    (.inl (hw.current ▸ hbinds))
  refine ⟨hp, .of_declare rfl rfl rfl, InOrder.declare hw hm hp
    (hw.tells.addFunction hp ?_ rfl rfl rfl rfl ?_) rfl rfl rfl (.inl hbinds), hscopes⟩
  · exact (hw.tells.layered.newFunction _).define _ _ trivial
  · cases decl with
    | mk name params body =>
      rw [FunctionDecl.IsPlain] at hplain
      rw [FunctionDecl.lookups] at hlookups
      refine ⟨⟨hopen, ?_, hplain, ?_⟩, fun _ ↦ rfl, nofun⟩
      · exact hw.current.trans (innermostFrame_declareInnermost _ _ _).symm
      · rw [← hscopes] at hlookups
        exact hlookups

omit hw in
theorem declareClass_none_apply (name : Ident) (methods : List FunctionDecl) (m : Machine) :
    Run.declareClass name none methods m =
      .ok () { m with
        heap := (m.heap.newClass ⟨name.text, none, Run.methodTable m.current methods⟩).2.define
          m.current name.name (.classRef m.heap.classes.size) } := rfl

omit hw in
theorem declareClass_some_apply (name : Ident) (s : SuperclassName)
    (methods : List FunctionDecl) (m : Machine) :
    Run.declareClass name (some s) methods m =
      match Run.readSuperclass s m with
      | .error e m => .error e m
      | .ok c m' =>
        let f := m'.heap.frames.size
        let h := (m'.heap.newFrame m.current).2.define f .super (.classRef c)
        .ok () { m' with
          heap := (h.newClass ⟨name.text, some c, Run.methodTable f methods⟩).2.define
            m'.current name.name (.classRef h.classes.size) } := by
  have hcurrent : Run.declareClass name (some s) methods m =
      (do
        let record ← Run.classRecord m.current name (some s) methods
        let v ← Run.change (·.newClass record)
        Run.define name.name v) m := rfl
  rw [hcurrent, bind_apply, Run.classRecord]
  simp only [bind_apply]
  cases Run.readSuperclass s m <;> rfl

omit hw in
theorem precedes_addClass {h : Heap} (hg : w.machine.heap.GrowsTo h) (name : Ident)
    (origin : ClassOrigin) :
    Precedes w.machine.heap w.history h
      ((w.history.declare name .className).addClass origin) := by
  refine ⟨hg, fun c o hc ↦ ?_, fun _ _ ↦ .inl, fun _ hl ↦ hl⟩
  have hlt := (Array.getElem?_eq_some_iff.1 hc).1
  simp only [History.addClass, History.declare, Array.getElem?_push, if_neg (Nat.ne_of_lt hlt), hc]

/-- A class is created from a heap that has the same functions and classes, and its name is
bound. -/
theorem inOrder_addClass {m : Machine} {h : Heap} {name : Ident} {record : ClassRecord}
    {origin : ClassOrigin} (hs : w.machine.SettlesTo m)
    (hm : m.heap = (h.newClass record).2.define w.machine.current name.name
      (.classRef h.classes.size))
    (hl : h.IsLayered) (hfunctions : h.functions = w.machine.heap.functions)
    (hclasses : h.classes = w.machine.heap.classes)
    (hsuper : ∀ s, record.superclass = some s → s < h.classes.size)
    (hrecord : record.ComesFrom m.heap ((w.history.declare name .className).addClass origin)
      origin) : InOrder m ((w.history.declare name .className).addClass origin) := by
  have hp := precedes_addClass (w := w) hs.heap name origin
  have hcurrent : w.machine.current < (h.newClass record).2.frames.size := by
    have hlt := Nat.lt_of_lt_of_le hw.current_lt hs.heap.frames
    rw [hm] at hlt
    exact Nat.lt_of_lt_of_eq hlt (Frames.size_define _ _ _ _)
  have hbinds : m.heap.frames.binds w.machine.current name.name = true := by
    rw [hm]
    exact Frames.binds_define_self _ hcurrent _ _
  refine InOrder.declare hw hs hp (hw.tells.addClass hp ?_ ?_ rfl ?_ rfl hrecord) rfl rfl rfl
    (.inl hbinds)
  · rw [hm]
    refine (hl.newClass hsuper).define _ _ ?_
    change h.classes.size < (h.classes.push record).size
    rw [Array.size_push]
    exact Nat.lt_succ_self _
  · rw [hm, ← hfunctions]
    rfl
  · rw [hm, ← hclasses]
    rfl

/-- A class without a superclass is created. -/
theorem ends_keep_declareClass_none {name : Ident} {methods : List FunctionDecl}
    (htask : (Task.stmt (.classDecl name none methods)).LiesIn w.history) :
    Ends
      (keep (fun w ↦ w.history.declareClass w.machine.heap.frames.size name none methods)
        (Run.declareClass name none methods))
      w fun _ w' ↦ w'.history.scopes = declareAs name .className w.history.scopes := by
  obtain ⟨hplain, hlookups⟩ := htask
  rw [Stmt.IsPlain] at hplain
  rw [Stmt.lookups, ← scopes_declare] at hlookups
  refine ends_keep_of_ok (Run.settles_declareClass name none methods)
    (declareClass_none_apply name methods w.machine) fun hm ↦ ?_
  have hp := precedes_addClass hm.heap name
    ⟨methods, declareInnermost name .className w.history.display⟩
  have hopen := (hw.isOpen.mono hp).declare hw.body name .className
    (.inl (hw.current ▸ Frames.binds_define_self _ hw.current_lt _ _))
  have hcurrent := hw.current.trans
    (innermostFrame_declareInnermost name .className w.history.display).symm
  refine ⟨hp, .of_declare rfl rfl rfl, inOrder_addClass hw hm rfl hw.tells.layered rfl rfl nofun ?_,
    scopes_declare _ _ _⟩
  exact ⟨hopen, hcurrent ▸ rfl, hw.body.declare name .className, hplain, hlookups⟩

/-- A class with a superclass is created, unless the superclass is missing or no class. -/
theorem ends_keep_declareClass_some {name : Ident} {s : SuperclassName}
    {methods : List FunctionDecl}
    (htask : (Task.stmt (.classDecl name (some s) methods)).LiesIn w.history) :
    Ends
      (keep (fun w ↦ w.history.declareClass w.machine.heap.frames.size name (some s) methods)
        (Run.declareClass name (some s) methods))
      w fun _ w' ↦ w'.history.scopes = declareAs name .className w.history.scopes := by
  obtain ⟨hplain, hlookups⟩ := htask
  rw [Stmt.IsPlain] at hplain
  rw [Stmt.lookups, List.forall_mem_cons, ← scopes_declare] at hlookups
  have hsettles := Run.settles_declareClass name (some s) methods
  have hm := hsettles w.machine
  unfold Ends keep
  rw [declareClass_some_apply] at hm ⊢
  obtain ⟨c, hc⟩ | ⟨e, he, hoverflow⟩ := Run.reads_readSuperclass s w.machine
  · rw [hc] at hm ⊢
    have hlt := Run.lt_size_of_readSuperclass hc hw.tells.layered
    -- The frame that binds `super` is there before the class and is not changed by what follows.
    have hencloses := w.machine.heap.enclosing?_newFrame_define w.machine.current .super
      (.classRef c)
    have hfind := w.machine.heap.find?_newFrame_define w.machine.current .super (.classRef c)
    have hframe := Frames.lt_size_of_find? _ hfind
    have hlater := (Heap.growsTo_newClass
      ((w.machine.heap.newFrame w.machine.current).2.define w.machine.heap.frames.size .super
        (.classRef c))
      ⟨name.text, some c, Run.methodTable w.machine.heap.frames.size methods⟩).trans
      (Heap.growsTo_define _ w.machine.current name (.classRef w.machine.heap.classes.size))
    rw [← hlater.enclosing _ hframe] at hencloses
    rw [← hlater.receivers _ hframe .super rfl] at hfind
    have hp := precedes_addClass hm.heap name
      ⟨methods, ⟨superScope methods, w.machine.heap.frames.size, none⟩ ::
        declareInnermost name .className w.history.display⟩
    have hcurrent := Nat.lt_of_lt_of_le hw.current_lt
      (w.machine.heap.growsTo_newFrame_define w.machine.current .super (.classRef c)).frames
    have hopen := (hw.isOpen.mono hp).declare hw.body name .className
      (.inl (hw.current ▸ Frames.binds_define_self _ hcurrent _ _))
    have hcurrent' := hw.current.trans
      (innermostFrame_declareInnermost name .className w.history.display).symm
    refine ⟨⟨hm, hp, .of_declare rfl rfl rfl, inOrder_addClass hw hm rfl ?_ rfl rfl ?_ ?_, id, rfl,
      fun _ ↦ .inl⟩, scopes_declare _ _ _⟩
    · exact (hw.tells.layered.newFrame _).define _ _ hlt
    · rintro s ⟨⟩
      exact hlt
    · refine ⟨⟨⟨hencloses.trans (congrArg some hcurrent'), fun x role hx ↦ .inl ?_,
        .super hfind⟩, hopen⟩, rfl, ⟨_, _, rfl, hfind⟩, hplain, hlookups.2⟩
      simp only [superScope, Bindings.find?_put, Bindings.find?_empty] at hx
      split at hx
      · next heq =>
        rw [heq, Frames.binds_iff]
        exact ⟨_, hfind⟩
      · cases hx
  · rw [he]
    dsimp only
    rw [hoverflow]
    exact .refl hw

/-- A class is created, and its superclass is looked up if it has one. -/
theorem ends_declareClass {name : Ident} {superclass : Option SuperclassName}
    {methods : List FunctionDecl}
    (htask : (Task.stmt (.classDecl name superclass methods)).LiesIn w.history) :
    Ends (declareClass name superclass methods) w fun _ w' ↦
      w'.history.scopes = declareAs name .className w.history.scopes := by
  cases superclass with
  | none => exact (ends_pure (P := fun _ w' ↦ w' = w) hw rfl).bind fun _ w' _ hw' ↦
      hw' ▸ ends_keep_declareClass_none hw htask
  | some s =>
    have hlookup : (Task.lookup s.id s.ident.name).LiesIn w.history := by
      refine htask.2 _ ?_
      rw [Stmt.lookups]
      exact List.mem_cons_self
    refine .afterNote hw hlookup rfl fun moments ↦ ?_
    exact ends_keep_declareClass_some (w := { w with moments := moments }) hw htask

end Watched

end LexScript
