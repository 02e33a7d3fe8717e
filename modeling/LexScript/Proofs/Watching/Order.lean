import LexScript.Proofs.Scope.Uses
import LexScript.Proofs.Watching.Moments

/-!
# Machines and histories in order

A history tells of each open frame which scope it was made for. It is in order if it tells the
truth: each frame is enclosed by the next one, binds the names of its scope, and binds `this` or
`super` to what it was made for; the same holds of the frames around each function and class. Only a
variable whose initializer is not complete may be missing from its frame.

What is in order stays so while a heap grows and more is known, since frames keep what they bind.

## Main definitions

* `Serves`, `AreOpen` : open frames are what they were made for.
* `Closure.ComesFrom`, `ClassRecord.ComesFrom` : functions and classes lie where they were created.
* `InOrder` : a machine is as its history tells.

## Main statements

* `AreOpen.mono` : open frames remain what they are.
-/

namespace LexScript

/-! ### Open frames -/

/-- The innermost of some open frames, that of the globals if there are none. -/
def innermostFrame : List Activation → Nat
  | [] => Frames.globals
  | a :: _ => a.frame

/-- What a frame was made for, given the open frames around it. -/
inductive Serves (h : Heap) (H : History) (outer : List Activation) : Activation → Prop where
  /-- A block or the body of a function. -/
  | body {scope : OpenScope} {frame : Nat} (hscope : scope.BindsNoReceiver) :
      Serves h H outer ⟨scope, frame, none⟩
  /-- The methods of a class, bound to an instance of it. -/
  | this {methods : List FunctionDecl} {frame c i d : Nat}
      (hc : H.classes[c]? = some ⟨methods, outer⟩)
      (hi : h.frames.find? frame .this = some (.instanceRef i)) (hd : h.classOf? i = some d)
      (hdescends : h.Descends d c) : Serves h H outer ⟨thisScope methods, frame, some c⟩
  /-- The methods of a class with a superclass. -/
  | super {methods : List FunctionDecl} {frame s : Nat}
      (hs : h.frames.find? frame .super = some (.classRef s)) :
      Serves h H outer ⟨superScope methods, frame, none⟩

/-- A frame is enclosed by the open frames around it and binds what its scope does, as far as
initializers are complete. -/
structure Activation.IsOpen (h : Heap) (H : History) (outer : List Activation)
    (a : Activation) : Prop where
  encloses : h.frames.enclosing? a.frame = some (innermostFrame outer)
  binds : ∀ x role, a.scope.names.find? x = some role →
    h.frames.binds a.frame x = true ∨ role = .variable ∧ (a.frame, x) ∈ H.unfinished
  serves : Serves h H outer a

/-- Frames are open inside one another. -/
def AreOpen (h : Heap) (H : History) : List Activation → Prop
  | [] => True
  | a :: outer => a.IsOpen h H outer ∧ AreOpen h H outer

/-- Code that runs lies at the top level, in a block or in the body of a function. -/
def LieInBody (display : List Activation) : Prop :=
  ∀ a ∈ display.head?, a.scope.BindsNoReceiver

/-! ### Functions and classes -/

/-- The body of a function lies inside some open frames, and its lookups were accepted there. -/
structure Closure.LiesIn (c : Closure) (h : Heap) (H : History) (display : List Activation) :
    Prop where
  isOpen : AreOpen h H display
  frame : c.frame = innermostFrame display
  isPlain : ArePlain c.body
  accepted : ∀ l ∈ lookupsOfStmts
    (functionScope c.params c.body :: display.map Activation.scope) c.body, l ∈ H.lookups

/-- A function was created where an origin tells. -/
structure Closure.ComesFrom (c : Closure) (h : Heap) (H : History) (origin : FunctionOrigin) :
    Prop where
  liesIn : c.LiesIn h H origin.display
  unbound : origin.receiver = none → c.isInitializer = false
  bound : ∀ i, origin.receiver = some i →
    h.frames.find? c.frame .this = some (.instanceRef i) ∧
      (c.isInitializer = true ↔ c.name = some "init")

/-- The open frames around a class bind `super` to its superclass, if it has one. -/
def ClassOrigin.Inherits (h : Heap) (origin : ClassOrigin) : Option Nat → Prop
  | none => LieInBody origin.display
  | some s => ∃ f outer, origin.display = ⟨superScope origin.methods, f, none⟩ :: outer ∧
      h.frames.find? f .super = some (.classRef s)

/-- A class was declared where an origin tells. -/
structure ClassRecord.ComesFrom (record : ClassRecord) (h : Heap) (H : History)
    (origin : ClassOrigin) : Prop where
  isOpen : AreOpen h H origin.display
  methods : record.methods = Run.methodTable (innermostFrame origin.display) origin.methods
  inherits : origin.Inherits h record.superclass
  isPlain : ArePlainMethods origin.methods
  accepted : ∀ l ∈ lookupsOfMethods
    (thisScope origin.methods :: origin.display.map Activation.scope) origin.methods,
    l ∈ H.lookups

/-- A history tells where everything in a heap comes from. -/
structure History.Tells (H : History) (h : Heap) : Prop where
  globals : Frames.globals < h.frames.size
  layered : h.IsLayered
  size_functions : H.functions.size = h.functions.size
  functions : ∀ (k : Nat) c origin, h.functions[k]? = some c → H.functions[k]? = some origin →
    c.ComesFrom h H origin
  size_classes : H.classes.size = h.classes.size
  classes : ∀ (c : Nat) record origin, h.classes[c]? = some record →
    H.classes[c]? = some origin → record.ComesFrom h H origin

/-- A machine is as its history tells. -/
structure InOrder (m : Machine) (H : History) : Prop where
  tells : H.Tells m.heap
  isOpen : AreOpen m.heap H H.display
  body : LieInBody H.display
  current : m.current = innermostFrame H.display
  depth : m.depth = H.calls.length
  calls : H.calls.length ≤ Run.maxCalls
  lookups : ∀ l ∈ H.lookups, m.distances.find? l.id = l.distance? ∧ l.HasReceiver

/-- A task lies where the history is: its lookups were accepted there. -/
def Task.LiesIn (H : History) : Task → Prop
  | .expr e => e.IsPlain ∧ ∀ l ∈ e.lookups H.scopes, l ∈ H.lookups
  | .stmt s => s.IsPlain ∧ ∀ l ∈ s.lookups H.scopes, l ∈ H.lookups
  | .lookup id x => ⟨id, x, H.scopes⟩ ∈ H.lookups
  | .call _ _ _ => True

/-- At a moment, the machine is as the history tells and the task lies there. -/
structure Moment.IsInOrder (moment : Moment) : Prop where
  inOrder : InOrder moment.machine moment.history
  liesIn : moment.task.LiesIn moment.history

/-! ### Later -/

/-- A heap and a history are those of a later state. -/
structure Precedes (h : Heap) (H : History) (h' : Heap) (H' : History) : Prop where
  heap : h.GrowsTo h'
  classes : ∀ (c : Nat) origin, H.classes[c]? = some origin → H'.classes[c]? = some origin
  unfinished : ∀ f x, (f, x) ∈ H.unfinished →
    (f, x) ∈ H'.unfinished ∨ h'.frames.binds f x = true
  lookups : ∀ l ∈ H.lookups, l ∈ H'.lookups

variable {h h' h'' : Heap} {H H' H'' : History}

theorem Precedes.refl (h : Heap) (H : History) : Precedes h H h H :=
  ⟨.refl h, fun _ _ ↦ id, fun _ _ ↦ .inl, fun _ ↦ id⟩

theorem Precedes.trans (hp : Precedes h H h' H') (hp' : Precedes h' H' h'' H'') :
    Precedes h H h'' H'' where
  heap := hp.heap.trans hp'.heap
  classes c origin hc := hp'.classes c origin (hp.classes c origin hc)
  unfinished f x hx := by
    rcases hp.unfinished f x hx with hx | hx
    · exact hp'.unfinished f x hx
    · exact .inr (hp'.heap.binds f x hx)
  lookups l hl := hp'.lookups l (hp.lookups l hl)

/-- A heap has grown, and the history is the same. -/
theorem Precedes.of_growsTo (hg : h.GrowsTo h') : Precedes h H h' H :=
  ⟨hg, fun _ _ ↦ id, fun _ _ ↦ .inl, fun _ ↦ id⟩

theorem Serves.mono (hp : Precedes h H h' H') {outer : List Activation} {a : Activation}
    (ha : Serves h H outer a) : Serves h' H' outer a := by
  have hfind {f : Nat} {x : Name} {v : Value} (hx : x.isReceiver = true)
      (hfind : h.frames.find? f x = some v) : h'.frames.find? f x = some v := by
    rwa [hp.heap.receivers f (h.frames.lt_size_of_find? hfind) x hx]
  cases ha with
  | body hscope => exact .body hscope
  | this hc hi hd hdescends =>
    exact .this (hp.classes _ _ hc) (hfind rfl hi) (hp.heap.classOf _ _ hd)
      (hp.heap.descends hdescends)
  | super hs => exact .super (hfind rfl hs)

theorem Activation.IsOpen.mono (hp : Precedes h H h' H') {outer : List Activation}
    {a : Activation} (ha : a.IsOpen h H outer) : a.IsOpen h' H' outer where
  encloses := by
    rw [hp.heap.enclosing _ (h.frames.lt_size_of_enclosing? ha.encloses), ha.encloses]
  binds x role hx := by
    rcases ha.binds x role hx with hbinds | ⟨hrole, hunfinished⟩
    · exact .inl (hp.heap.binds _ _ hbinds)
    · rcases hp.unfinished _ _ hunfinished with hunfinished | hbinds
      · exact .inr ⟨hrole, hunfinished⟩
      · exact .inl hbinds
  serves := ha.serves.mono hp

/-- Open frames remain what they are. -/
theorem AreOpen.mono (hp : Precedes h H h' H') {display : List Activation}
    (hd : AreOpen h H display) : AreOpen h' H' display := by
  induction display with
  | nil => trivial
  | cons a outer ih => exact ⟨hd.1.mono hp, ih hd.2⟩

theorem Closure.LiesIn.mono (hp : Precedes h H h' H') {c : Closure} {display : List Activation}
    (hc : c.LiesIn h H display) : c.LiesIn h' H' display :=
  ⟨hc.isOpen.mono hp, hc.frame, hc.isPlain, fun l hl ↦ hp.lookups l (hc.accepted l hl)⟩

theorem Closure.ComesFrom.mono (hp : Precedes h H h' H') {c : Closure} {origin : FunctionOrigin}
    (hc : c.ComesFrom h H origin) : c.ComesFrom h' H' origin where
  liesIn := hc.liesIn.mono hp
  unbound := hc.unbound
  bound i hi := by
    obtain ⟨hfind, hinit⟩ := hc.bound i hi
    exact ⟨by rwa [hp.heap.receivers _ (h.frames.lt_size_of_find? hfind) .this rfl], hinit⟩

theorem ClassOrigin.Inherits.mono (hg : h.GrowsTo h') {origin : ClassOrigin} {s : Option Nat}
    (hs : origin.Inherits h s) : origin.Inherits h' s := by
  cases s with
  | none => exact hs
  | some s =>
    obtain ⟨f, outer, hdisplay, hfind⟩ := hs
    exact ⟨f, outer, hdisplay,
      by rwa [hg.receivers _ (h.frames.lt_size_of_find? hfind) .super rfl]⟩

theorem ClassRecord.ComesFrom.mono (hp : Precedes h H h' H') {record : ClassRecord}
    {origin : ClassOrigin} (hc : record.ComesFrom h H origin) : record.ComesFrom h' H' origin :=
  ⟨hc.isOpen.mono hp, hc.methods, hc.inherits.mono hp.heap, hc.isPlain,
    fun l hl ↦ hp.lookups l (hc.accepted l hl)⟩

theorem History.Tells.exists_functionOrigin (ht : H.Tells h) {k : Nat} {c : Closure}
    (hc : h.functions[k]? = some c) :
    ∃ origin, H.functions[k]? = some origin ∧ c.ComesFrom h H origin := by
  have hk : k < H.functions.size := by
    rw [ht.size_functions]
    exact (Array.getElem?_eq_some_iff.1 hc).1
  have horigin := Array.getElem?_eq_getElem hk
  exact ⟨_, horigin, ht.functions k c _ hc horigin⟩

theorem History.Tells.exists_classOrigin (ht : H.Tells h) {c : Nat} {record : ClassRecord}
    (hc : h.classes[c]? = some record) :
    ∃ origin, H.classes[c]? = some origin ∧ record.ComesFrom h H origin := by
  have hlt : c < H.classes.size := by
    rw [ht.size_classes]
    exact (Array.getElem?_eq_some_iff.1 hc).1
  have horigin := Array.getElem?_eq_getElem hlt
  exact ⟨_, horigin, ht.classes c record _ hc horigin⟩

/-! ### What is created -/

/-- Functions and classes are those from before or have been created as the history tells. -/
theorem History.Tells.extend (ht : H.Tells h) (hp : Precedes h H h' H') (hl : h'.IsLayered)
    (hsize : H'.functions.size = h'.functions.size)
    (hfunctions : ∀ (k : Nat) c origin, h'.functions[k]? = some c →
      H'.functions[k]? = some origin →
      h.functions[k]? = some c ∧ H.functions[k]? = some origin ∨ c.ComesFrom h' H' origin)
    (hsize' : H'.classes.size = h'.classes.size)
    (hclasses : ∀ (c : Nat) record origin, h'.classes[c]? = some record →
      H'.classes[c]? = some origin →
      h.classes[c]? = some record ∧ H.classes[c]? = some origin ∨
        record.ComesFrom h' H' origin) : H'.Tells h' := by
  refine ⟨Nat.lt_of_lt_of_le ht.globals hp.heap.frames, hl, hsize, fun k c origin hc ho ↦ ?_,
    hsize', fun c record origin hc ho ↦ ?_⟩
  · rcases hfunctions k c origin hc ho with ⟨hc, ho⟩ | hnew
    · exact (ht.functions k c origin hc ho).mono hp
    · exact hnew
  · rcases hclasses c record origin hc ho with ⟨hc, ho⟩ | hnew
    · exact (ht.classes c record origin hc ho).mono hp
    · exact hnew

/-- No function and no class has been created. -/
theorem History.Tells.keep (ht : H.Tells h) (hp : Precedes h H h' H') (hl : h'.IsLayered)
    (hfunctions : h'.functions = h.functions) (hfunctions' : H'.functions = H.functions)
    (hclasses : h'.classes = h.classes) (hclasses' : H'.classes = H.classes) : H'.Tells h' := by
  refine ht.extend hp hl ?_ (fun k c origin hc ho ↦ .inl ?_) ?_ fun c record origin hc ho ↦ .inl ?_
  · rw [hfunctions, hfunctions', ht.size_functions]
  · rw [← hfunctions, ← hfunctions']
    exact ⟨hc, ho⟩
  · rw [hclasses, hclasses', ht.size_classes]
  · rw [← hclasses, ← hclasses']
    exact ⟨hc, ho⟩

private theorem getElem?_push_push {α β : Type} {as : Array α} {bs : Array β}
    (hsize : bs.size = as.size) {a x : α} {b y : β} {k : Nat} (hx : (as.push a)[k]? = some x)
    (hy : (bs.push b)[k]? = some y) : as[k]? = some x ∧ bs[k]? = some y ∨ x = a ∧ y = b := by
  rw [Array.getElem?_push] at hx hy
  by_cases hk : k = as.size
  · rw [if_pos hk] at hx
    rw [if_pos (hk.trans hsize.symm)] at hy
    exact .inr ⟨(Option.some.inj hx).symm, (Option.some.inj hy).symm⟩
  · rw [if_neg hk] at hx
    rw [if_neg (hsize ▸ hk)] at hy
    exact .inl ⟨hx, hy⟩

/-- One function has been created. -/
theorem History.Tells.addFunction (ht : H.Tells h) (hp : Precedes h H h' H') (hl : h'.IsLayered)
    {c : Closure} {origin : FunctionOrigin} (hfunctions : h'.functions = h.functions.push c)
    (hfunctions' : H'.functions = H.functions.push origin) (hclasses : h'.classes = h.classes)
    (hclasses' : H'.classes = H.classes) (hc : c.ComesFrom h' H' origin) : H'.Tells h' := by
  refine ht.extend hp hl ?_ (fun k c' origin' hc' ho ↦ ?_) ?_
    fun c record origin hc ho ↦ .inl ?_
  · rw [hfunctions, hfunctions', Array.size_push, Array.size_push, ht.size_functions]
  · rw [hfunctions] at hc'
    rw [hfunctions'] at ho
    rcases getElem?_push_push ht.size_functions hc' ho with hold | ⟨rfl, rfl⟩
    · exact .inl hold
    · exact .inr hc
  · rw [hclasses, hclasses', ht.size_classes]
  · rw [← hclasses, ← hclasses']
    exact ⟨hc, ho⟩

/-- One class has been created. -/
theorem History.Tells.addClass (ht : H.Tells h) (hp : Precedes h H h' H') (hl : h'.IsLayered)
    {record : ClassRecord} {origin : ClassOrigin} (hfunctions : h'.functions = h.functions)
    (hfunctions' : H'.functions = H.functions) (hclasses : h'.classes = h.classes.push record)
    (hclasses' : H'.classes = H.classes.push origin) (hrecord : record.ComesFrom h' H' origin) :
    H'.Tells h' := by
  refine ht.extend hp hl ?_ (fun k c origin hc ho ↦ .inl ?_) ?_ fun c record' origin' hc ho ↦ ?_
  · rw [hfunctions, hfunctions', ht.size_functions]
  · rw [← hfunctions, ← hfunctions']
    exact ⟨hc, ho⟩
  · rw [hclasses, hclasses', Array.size_push, Array.size_push, ht.size_classes]
  · rw [hclasses] at hc
    rw [hclasses'] at ho
    rcases getElem?_push_push ht.size_classes hc ho with hold | ⟨rfl, rfl⟩
    · exact .inl hold
    · exact .inr hrecord

end LexScript
