import LexScript.Proofs.Renaming.Declarations
import LexScript.Proofs.Watching.Erasure

/-!
# Runs of renamed programs

A renamed program does what the program does: evaluation makes a marked frame for each marked scope,
so that each use finds its variable, under the name that it has there.

The program is watched, since an error does not tell at which use it arises: it arises at the lookup
that was noted last, if it is about a name. To watch the renamed program as well is not necessary.

## Main definitions

* `lastLookup?` : the use that was looked up last.
* `Watched.EndAlike`, `Watched.AlikeIn` : a watched action and one of the renamed program that do
  the same.
* `Watched.BodyAlike`, `CallAlike` : meanings of function bodies and of calls that do not depend on
  the names of variables.

## Main statements

* `Expr.RenamesTo.alike_watch`, `Stmt.RenamesTo.alike_watch` : evaluation of renamed programs.
* `RenamesProgramTo.alike_watchProgram` : a renamed program does what the program does.
-/

namespace LexScript

variable {ρ : Renaming} {σ : Nat → Bool} {mark : Bool} {marks : List Bool} {m m' : Machine}
  {w : Watch}

theorem Machine.RenamesTo.withCurrent (hr : m.RenamesTo ρ σ m') (f : Nat) :
    Machine.RenamesTo ρ σ { m with current := f } { m' with current := f } :=
  { hr with current := rfl }

theorem Machine.RenamesTo.withCall (hr : m.RenamesTo ρ σ m') :
    Machine.RenamesTo ρ σ { m with depth := m.depth + 1 } { m' with depth := m'.depth + 1 } :=
  { hr with depth := congrArg (· + 1) hr.depth }

/-- The id of the expression or the superclass that was looked up last, if the latest moment is a
lookup. -/
def lastLookup? (moments : List Moment) : Option Nat :=
  moments.head?.bind fun moment ↦ moment.task.lookup?.map Prod.fst

namespace Watched

variable {α β : Type}

/-- From the watch `w` on, a program and a renamed one have ended in the same way. -/
def EndAlike (ρ : Renaming) (σ : Nat → Bool) (w : Watch) (r : EStateM.Result Stop Watch α)
    (r' : EStateM.Result Stop Machine α) : Prop :=
  Run.EndAlike ρ (lastLookup? (Watch.atEnd r).moments) σ w.machine (Watch.forget r) r'

/-- Inside scopes with the given marks, the second action does in the renamed program what the first
one does in the program. -/
def AlikeIn (ρ : Renaming) (marks : List Bool) (p : Watched α) (p' : Run α) : Prop :=
  ∀ (σ : Nat → Bool) (w : Watch) (m' : Machine), w.machine.RenamesTo ρ σ m' →
    w.machine.heap.frames.HasMarks σ marks w.machine.current → EndAlike ρ σ w (p w) (p' m')

/-! ### Actions that are watched -/

/-- What is alike whatever was looked up last is alike when it is watched. -/
theorem endAlike_of_erases {p : Watched α} {q q' : Run α} (hp : Erases p q)
    (h : ∀ use, Run.EndAlike ρ use σ w.machine (q w.machine) (q' m')) :
    EndAlike ρ σ w (p w) (q' m') := by
  rw [EndAlike, hp w]
  exact h _

theorem alike_of_erases {p : Watched α} {q q' : Run α} (hp : Erases p q)
    (h : ∀ use, Run.AlikeIn ρ use marks q q') : AlikeIn ρ marks p q' :=
  fun _ _ _ hr hin ↦ endAlike_of_erases hp fun use ↦ h use _ _ _ hr hin

theorem alike_keep (update : Watch → History) {q q' : Run α}
    (h : ∀ use, Run.AlikeIn ρ use marks q q') : AlikeIn ρ marks (keep update q) q' :=
  alike_of_erases (erases_keep update q) h

theorem alike_lift {q q' : Run α} (h : ∀ use, Run.AlikeIn ρ use marks q q') :
    AlikeIn ρ marks (lift q) q' := alike_keep _ h

theorem alike_pure (a : α) : AlikeIn ρ marks (pure a) (pure a) :=
  alike_of_erases (erases_pure a) fun _ ↦ Run.alike_pure a

theorem alike_exhausted : AlikeIn ρ marks (throw .exhausted : Watched α) (throw .exhausted) :=
  alike_of_erases (erases_throw .exhausted) fun _ ↦ Run.alike_throw .exhausted

/-- What is noted makes no difference to what follows. -/
theorem alike_note_bind (task : Task) {p : Watched α} {p' : Run α} (h : AlikeIn ρ marks p p') :
    AlikeIn ρ marks (note task >>= fun _ ↦ p) p' := fun _ _ _ hr hin ↦ h _ _ _ hr hin

theorem alike_keep_bind (update : Watch → History) {p : Watched α} {p' : Run α}
    (h : AlikeIn ρ marks p p') : AlikeIn ρ marks (keep update (pure ()) >>= fun _ ↦ p) p' :=
  fun _ _ _ hr hin ↦ h _ _ _ hr hin

/-! ### Lookups -/

/-- An action that notes nothing. -/
def IsSilent (p : Watched α) : Prop := ∀ w, (Watch.atEnd (p w)).moments = w.moments

theorem isSilent_keep (update : Watch → History) (q : Run α) : IsSilent (keep update q) := by
  intro w
  unfold keep
  cases q w.machine <;> rfl

theorem isSilent_throw (e : Stop) : IsSilent (throw e : Watched α) := fun _ ↦ rfl

theorem IsSilent.bind {p : Watched α} {f : α → Watched β} (hp : IsSilent p)
    (hf : ∀ a, IsSilent (f a)) : IsSilent (p >>= f) := by
  intro w
  have hw := hp w
  rw [bind_apply]
  cases h : p w with
  | ok a w' =>
    rw [h] at hw
    exact (hf a w').trans hw
  | error e w' =>
    rw [h] at hw
    exact hw

/-- Errors of an action that follows a lookup and notes nothing arise at the lookup. -/
theorem alike_lookup_bind {id : Nat} {x : Name} {p : Watched α} {q q' : Run α}
    (hsilent : IsSilent p) (hp : Erases (note (.lookup id x) >>= fun _ ↦ p) q)
    (h : Run.AlikeIn ρ (some id) marks q q') :
    AlikeIn ρ marks (note (.lookup id x) >>= fun _ ↦ p) q' := by
  intro σ w m' hr hin
  have hlast : lastLookup? (Watch.atEnd ((note (.lookup id x) >>= fun _ ↦ p) w)).moments =
      some id := congrArg lastLookup? (hsilent _)
  rw [EndAlike, hlast, hp w]
  exact h σ _ _ hr hin

theorem alike_readName {id : Nat} {x : Name} (hx : ρ.Allows marks id x) (line : Nat) :
    AlikeIn ρ marks (readName id x line)
      (Run.readName id (ρ.name (ρ.reaches marks id) x) line) :=
  alike_lookup_bind (isSilent_keep _ _) (erases_readName id x line) (Run.alike_readName hx line)

theorem alike_assignName {id : Nat} {x : Ident} (hx : ρ.Allows marks id x.name) (line : Nat)
    (v : Value) :
    AlikeIn ρ marks (assignName id x.name line v)
      (Run.assignName id (ρ.ident (ρ.reaches marks id) x).name line v) :=
  alike_lookup_bind (isSilent_keep _ _) (erases_assignName id x.name line v)
    (Run.alike_assignName hx line v)

theorem alike_getProperty (object : Value) (name : Ident) :
    AlikeIn ρ marks (getProperty object name) (Run.getProperty object name) :=
  alike_of_erases (erases_getProperty object name) fun _ ↦ Run.alike_getProperty object name

/-- What follows the lookup of `super` notes nothing. -/
theorem alike_superMethod {id : Nat} (hid : id ∉ ρ.uses) (line : Nat) (method : Ident) :
    AlikeIn ρ marks (superMethod id line method) (Run.superMethod id line method) := by
  refine alike_lookup_bind ((isSilent_keep _ _).bind fun distance ↦ ?_)
    (erases_superMethod id line method) (Run.alike_superMethod hid line method)
  cases distance with
  | none => exact isSilent_throw _
  | some distance =>
    refine (isSilent_keep _ _).bind fun superclass ↦ ?_
    cases superclass with
    | classRef c =>
      refine (isSilent_keep _ _).bind fun receiver ↦ ?_
      cases receiver <;> exact isSilent_keep _ _
    | _ => exact isSilent_keep _ _

theorem alike_declareClass {x : Ident} {methods methods' : List FunctionDecl}
    (hname : ρ.ident (marks.headD false) x = x)
    (h : RenamesMethodsTo ρ (false :: marks) methods methods') :
    AlikeIn ρ marks (declareClass x none methods) (Run.declareClass x none methods') :=
  alike_of_erases (erases_declareClass x none methods) fun _ ↦ Run.alike_declareClass hname h

theorem alike_declareSubclass {x y : Ident} {id : Nat} {methods methods' : List FunctionDecl}
    (hname : ρ.ident (marks.headD false) x = x) (hy : ρ.Allows marks id y.name)
    (h : RenamesMethodsTo ρ (false :: false :: marks) methods methods') :
    AlikeIn ρ marks (declareClass x (some ⟨id, y⟩) methods)
      (Run.declareClass x (some ⟨id, ρ.ident (ρ.reaches marks id) y⟩) methods') :=
  alike_lookup_bind (isSilent_keep _ _) (erases_declareClass x (some ⟨id, y⟩) methods)
    (Run.alike_declareSubclass hname hy h)

/-! ### Composed actions -/

theorem EndAlike.trans {σ₁ : Nat → Bool} {w₁ : Watch} {r : EStateM.Result Stop Watch α}
    {r' : EStateM.Result Stop Machine α} (hs : w.machine.SettlesTo w₁.machine)
    (hmarks : ∀ f < w.machine.heap.frames.size, σ₁ f = σ f) (h : EndAlike ρ σ₁ w₁ r r') :
    EndAlike ρ σ w r r' := Run.EndAlike.trans hs hmarks h

theorem EndAlike.bind {p : Watched α} {p' : Run α} {f : α → Watched β} {f' : α → Run β}
    (hp : EndAlike ρ σ w (p w) (p' m'))
    (hf : ∀ (a : α) (σ₁ : Nat → Bool) (w₁ : Watch) (m₁' : Machine),
      w.machine.SettlesTo w₁.machine → (∀ f < w.machine.heap.frames.size, σ₁ f = σ f) →
      w₁.machine.RenamesTo ρ σ₁ m₁' → EndAlike ρ σ₁ w₁ (f a w₁) (f' a m₁')) :
    EndAlike ρ σ w ((p >>= f) w) ((p' >>= f') m') := by
  rw [bind_apply, bind_apply]
  generalize p w = r at hp
  generalize p' m' = r' at hp
  cases r with
  | error e w₁ =>
    cases hp with
    | error he h => exact Run.EndAlike.error he h
  | ok a w₁ =>
    cases hp with
    | ok h =>
      obtain ⟨hs, σ₁, hmarks, hr⟩ := h
      exact .trans hs hmarks (hf a σ₁ w₁ _ hs hmarks hr)

theorem AlikeIn.bind {p : Watched α} {p' : Run α} {f : α → Watched β} {f' : α → Run β}
    (hp : AlikeIn ρ marks p p') (hf : ∀ a, AlikeIn ρ marks (f a) (f' a)) :
    AlikeIn ρ marks (p >>= f) (p' >>= f') :=
  fun σ w m' hr hin ↦ (hp σ w m' hr hin).bind fun a σ₁ w₁ m₁' hs hmarks hr₁ ↦
    hf a σ₁ w₁ m₁' hr₁ (Run.hasMarks_of_settlesTo hs hmarks hin)

/-- Further actions may depend on the answer to a question to the heap. -/
theorem EndAlike.ask_bind {question question' : Heap → α} {f : α → Watched β} {f' : α → Run β}
    (h : EndAlike ρ σ w (f (question w.machine.heap) w) (f' (question' m'.heap) m')) :
    EndAlike ρ σ w ((lift (Run.ask question) >>= f) w) ((Run.ask question' >>= f') m') := h

theorem EndAlike.look_bind {question : Watch → α} {f : α → Watched β}
    {r : EStateM.Result Stop Machine β} (h : EndAlike ρ σ w (f (question w) w) r) :
    EndAlike ρ σ w ((look question >>= f) w) r := h

/-- The heaps change before further actions. -/
theorem EndAlike.afterChange {step step' : Heap → α × Heap} {f : α → Watched β} {f' : α → Run β}
    (hr : w.machine.RenamesTo ρ σ m') {σ₁ : Nat → Bool}
    (hmarks : ∀ f < w.machine.heap.frames.size, σ₁ f = σ f)
    (hgrows : w.machine.heap.GrowsTo (step w.machine.heap).2) {a' : α}
    (hvalue : (step' m'.heap).1 = a')
    (hheap : (step w.machine.heap).2.RenamesTo ρ σ₁ (step' m'.heap).2)
    (h : ∀ (w₁ : Watch) (m₁' : Machine),
      w₁.machine = { w.machine with heap := (step w.machine.heap).2 } →
      w₁.machine.RenamesTo ρ σ₁ m₁' →
      EndAlike ρ σ₁ w₁ (f (step w.machine.heap).1 w₁) (f' a' m₁')) :
    EndAlike ρ σ w ((lift (Run.change step) >>= f) w) ((Run.change step' >>= f') m') := by
  have hsettles : w.machine.SettlesTo { w.machine with heap := (step w.machine.heap).2 } :=
    ⟨rfl, rfl, rfl, hgrows⟩
  have hf := h { w with machine := { w.machine with heap := (step w.machine.heap).2 } } _ rfl
    (hr.withHeap hheap)
  rw [bind_apply, bind_apply]
  simp only [lift, keep, Run.change]
  rw [hvalue]
  exact .trans hsettles hmarks hf

/-! ### Frames and calls -/

theorem EndAlike.inFrame {p : Watched α} {p' : Run α} {a : Activation} {outer : List Activation}
    (hr : w.machine.RenamesTo ρ σ m')
    (h : EndAlike ρ σ (enter w a outer) (p (enter w a outer))
      (p' { m' with current := a.frame })) :
    EndAlike ρ σ w (inFrame a outer p w) (Run.inFrame a.frame p' m') := by
  have hback {m₁ m₁' : Machine}
      (h : ReachAlike ρ σ { w.machine with current := a.frame } m₁ m₁') :
      ReachAlike ρ σ w.machine { m₁ with current := w.machine.current }
        { m₁' with current := m'.current } := by
    obtain ⟨hs, σ₁, hmarks, hr₁⟩ := h
    exact ⟨⟨rfl, hs.depth, hs.distances, hs.heap⟩, σ₁, hmarks, hr₁.heap, hr.current, hr₁.depth,
      hr₁.distances, hr₁.distances_right, hr₁.sink, hr₁.clock⟩
  unfold Watched.inFrame Run.inFrame
  dsimp only
  generalize p (enter w a outer) = r at h
  generalize p' { m' with current := a.frame } = r' at h
  cases r with
  | ok a w₁ =>
    cases h with
    | ok h => exact Run.EndAlike.ok (hback h)
  | error e w₁ =>
    cases h with
    | error he h => exact Run.EndAlike.error he (hback h)

theorem EndAlike.inCall {p : Watched α} {p' : Run α} {c : Closure} {mark : Mark}
    (hr : w.machine.RenamesTo ρ σ m')
    (h : EndAlike ρ σ (call w c) (p (call w c)) (p' { m' with depth := m'.depth + 1 })) :
    EndAlike ρ σ w (inCall c mark p w) (Run.inCall mark p' m') := by
  have hback {m₁ m₁' : Machine}
      (h : ReachAlike ρ σ { w.machine with depth := w.machine.depth + 1 } m₁ m₁') :
      ReachAlike ρ σ w.machine { m₁ with depth := m₁.depth - 1 }
        { m₁' with depth := m₁'.depth - 1 } := by
    obtain ⟨hs, σ₁, hmarks, hr₁⟩ := h
    have hdepth : m₁.depth - 1 = w.machine.depth := by
      rw [hs.depth]
      rfl
    exact ⟨⟨hs.current, hdepth, hs.distances, hs.heap⟩, σ₁, hmarks, hr₁.heap, hr₁.current,
      congrArg (· - 1) hr₁.depth, hr₁.distances, hr₁.distances_right, hr₁.sink, hr₁.clock⟩
  unfold Watched.inCall Run.inCall
  rw [hr.depth] at h ⊢
  split
  · exact Run.EndAlike.error (.same not_false) (.refl hr)
  · generalize p (call w c) = r at h
    generalize p' { m' with depth := w.machine.depth + 1 } = r' at h
    cases r with
    | ok a w₁ =>
      cases h with
      | ok h => exact Run.EndAlike.ok (hback h)
    | error e w₁ =>
      cases h with
      | error he h => exact Run.EndAlike.error he (hback h)

/-- A block in a marked scope runs in a marked frame. -/
theorem AlikeIn.inBlock {p : Watched α} {p' : Run α} (h : AlikeIn ρ (mark :: marks) p p')
    (body : List Stmt) : AlikeIn ρ marks (inBlock body p) (Run.inBlock p') := by
  intro σ w m' hr hin
  unfold Watched.inBlock Run.inBlock
  rw [bind_apply, bind_apply]
  simp only [lift, keep, Run.currentFrame, hr.current]
  refine .afterChange hr (MarksMore.newFrame w.machine.heap σ w.machine.current mark).marks
    (w.machine.heap.growsTo_newFrame w.machine.current) hr.heap.size_frames
    (hr.heap.newFrame w.machine.current mark) fun w₁ m₁' hw₁ hr₁ ↦
      .inFrame hr₁ (h _ _ _ (hr₁.withCurrent _) ?_)
  simp only [Watched.enter, hw₁]
  exact Run.hasMarks_newFrame hin mark

/-! ### Calls -/

/-- A meaning of function bodies for which a renamed body does what the body does. -/
def BodyAlike (ρ : Renaming) (body : List Stmt → Watched Flow) (body' : List Stmt → Run Flow) :
    Prop :=
  ∀ (marks : List Bool) (ss ss' : List Stmt), RenamesProgramTo ρ marks ss ss' →
    AlikeIn ρ marks (body ss) (body' ss')

theorem alike_checkArity (mark : Mark) (expected got : Nat) :
    AlikeIn ρ marks (lift (Run.checkArity mark expected got))
      (Run.checkArity mark expected got) := by
  refine alike_lift fun _ ↦ ?_
  unfold Run.checkArity
  split
  · exact Run.alike_pure ()
  · exact Run.alike_fail (.arityMismatch expected got) not_false _

theorem endAlike_callResult {c c' : Closure} (hr : w.machine.RenamesTo ρ σ m')
    (hc : c.RenamesTo ρ marks c') (flow : Flow) :
    EndAlike ρ σ w (lift (Run.callResult c flow) w) (Run.callResult c' flow m') := by
  refine endAlike_of_erases (erases_lift _) fun _ ↦ ?_
  have hthis : m'.heap.frames.find? c.frame .this = w.machine.heap.frames.find? c.frame .this :=
    hr.heap.find c.frame .this
  unfold Run.callResult
  rw [hc.isInitializer, hc.frame]
  split
  · simp only [Run.ask, hthis]
    exact .ok (.refl hr)
  · cases flow <;> exact .ok (.refl hr)

variable {body : List Stmt → Watched Flow} {body' : List Stmt → Run Flow}
  (hbody : BodyAlike ρ body body')
include hbody

/-- The body of a function in marked scopes runs in a marked frame. -/
theorem endAlike_callClosure {c c' : Closure} (hr : w.machine.RenamesTo ρ σ m')
    (hc : c.RenamesIn ρ w.machine.heap.frames σ [] c') (display : List Activation)
    (arguments : List Value) (mark : Mark) :
    EndAlike ρ σ w (callClosure body c display arguments mark w)
      (Run.callClosure body' c' arguments mark m') := by
  obtain ⟨marks, hmarks, hc⟩ := hc
  obtain ⟨scopeMark, hparams, hss⟩ := hc.exists_mark
  unfold Watched.callClosure Run.callClosure
  rw [hc.frame, hparams]
  refine .inCall hr (.afterChange hr.withCall
    (MarksMore.newFrame w.machine.heap σ c.frame scopeMark).marks
    (w.machine.heap.growsTo_newFrame c.frame) hr.heap.size_frames
    (hr.heap.newFrame c.frame scopeMark) fun w₁ m₁' hw₁ hr₁ ↦ ?_)
  have hframe := Run.hasMarks_newFrame hmarks scopeMark
  have hbind := hr₁.heap.bindParams w.machine.heap.frames.size c.params arguments
  rw [Function.update_self] at hbind
  refine .afterChange hr₁ (fun _ _ ↦ rfl) (Heap.growsTo_bindParams _ c.params arguments _) rfl
    hbind fun w₂ m₂' hw₂ hr₂ ↦ ?_
  have hgrows : w₁.machine.heap.GrowsTo w₂.machine.heap := by
    rw [hw₂]
    exact Heap.growsTo_bindParams _ c.params arguments _
  have hin : w₂.machine.heap.frames.HasMarks
      (Function.update σ w.machine.heap.frames.size scopeMark) (scopeMark :: marks)
      w.machine.heap.frames.size := by
    rw [hw₁] at hgrows
    exact hframe.mono ⟨fun _ _ ↦ rfl, hgrows.enclosing⟩
  refine EndAlike.bind (.inFrame hr₂ ?_) fun flow _ _ _ _ _ hr₃ ↦ endAlike_callResult hr₃ hc flow
  exact hbody _ _ _ hss _ _ _ (hr₂.withCurrent _) hin

/-- The initializer of a class is bound in an unmarked frame. -/
theorem alike_callClass (c : Nat) (arguments : List Value) (mark : Mark) :
    AlikeIn ρ marks (callClass body c arguments mark) (Run.callClass body' c arguments mark) := by
  intro σ w m' hr _
  have hsize : m'.heap.instances.size = w.machine.heap.instances.size := by
    rw [hr.heap.instances]
  refine .afterChange hr (fun _ _ ↦ rfl) (w.machine.heap.growsTo_newInstance c) hsize
    (hr.heap.newInstance c) fun w₁ m₁' _ hr₁ ↦ .ask_bind ?_
  have hinit := hr₁.heap.findMethod? c "init"
  dsimp only [Heap.initializer?]
  generalize w₁.machine.heap.findMethod? c "init" = method at hinit
  generalize m₁'.heap.findMethod? c "init" = method' at hinit
  cases hinit with
  | none => exact Run.EndAlike.ok (.refl hr₁)
  | @some method method' hmethod =>
    obtain ⟨hheap, hbound⟩ := hr₁.heap.bindMethod hmethod w.machine.heap.instances.size
    have hmarks : ∀ f < w₁.machine.heap.frames.size,
        Function.update σ w₁.machine.heap.frames.size false f = σ f :=
      fun _ hf ↦ Function.update_of_ne (Nat.ne_of_lt hf) _ _
    refine .look_bind <| .afterChange hr₁ hmarks (w₁.machine.heap.growsTo_bindMethod method _) rfl
      hheap fun w₂ m₂' hw₂ hr₂ ↦ ?_
    refine EndAlike.bind (endAlike_callClosure hbody hr₂ ?_ _ arguments mark)
      fun _ _ _ _ _ _ hr₃ ↦ Run.EndAlike.ok (.refl hr₃)
    rw [hw₂]
    exact hbound

theorem alike_callValue (v : Value) (vs : List Value) (line : Nat) :
    AlikeIn ρ marks (callValue body v vs line) (Run.callValue body' v vs line) := by
  unfold Watched.callValue Run.callValue
  refine alike_note_bind _ ?_
  cases v with
  | native f =>
    cases f
    exact (alike_checkArity _ _ _).bind fun _ ↦ alike_lift fun _ ↦ Run.alike_readClock _
  | functionRef k =>
    dsimp only
    intro σ w m' hr hin
    refine .ask_bind ?_
    have hk := hr.heap.functions k
    generalize w.machine.heap.functions[k]? = c at hk
    generalize m'.heap.functions[k]? = c' at hk
    cases hk with
    | none => exact alike_lift (fun _ ↦ Run.alike_fail .notCallable not_false _) σ w m' hr hin
    | @some c c' hc =>
      dsimp only
      rw [hc.arity]
      refine (alike_checkArity _ _ _ σ w m' hr hin).bind fun _ σ₁ w₁ m₁' hs hmarks hr₁ ↦ ?_
      exact endAlike_callClosure hbody hr₁ (hc.mono ⟨hmarks, hs.heap.enclosing⟩) _ vs _
  | classRef c =>
    refine AlikeIn.bind (alike_lift fun _ ↦ Run.alike_ask fun _ _ _ hr ↦ hr.classArity c)
      fun arity ↦ ?_
    exact (alike_checkArity _ _ _).bind fun _ ↦ alike_callClass hbody c vs _
  | _ => exact alike_lift fun _ ↦ Run.alike_fail .notCallable not_false _

omit hbody

/-! ### Statements with parts -/

theorem alike_repeatWhile {condition : Watched Value} {condition' : Run Value}
    {body : Watched Flow} {body' : Run Flow} (hcondition : AlikeIn ρ marks condition condition')
    (hbody : AlikeIn ρ marks body body') (turns : Nat) :
    AlikeIn ρ marks (repeatWhile condition body turns)
      (Run.repeatWhile condition' body' turns) := by
  induction turns with
  | zero => exact alike_exhausted
  | succ turns ih =>
    refine hcondition.bind fun v ↦ ?_
    split
    · refine hbody.bind fun flow ↦ ?_
      cases flow with
      | next => exact ih
      | returned v => exact alike_pure _
    · exact alike_pure _

end Watched

/-! ### Expressions and statements -/

open Watched

/-- A meaning of calls that does not depend on the names of variables. -/
def CallAlike (ρ : Renaming) (watched : WatchedCall) (call : Call) : Prop :=
  ∀ (marks : List Bool) (v : Value) (vs : List Value) (line : Nat),
    AlikeIn ρ marks (watched v vs line) (call v vs line)

variable {watched : WatchedCall} {call : Call} {turns : Nat}

mutual

theorem Expr.RenamesTo.alike_watch (hcall : CallAlike ρ watched call) : ∀ {e e' : Expr}
    {marks : List Bool}, e.RenamesTo ρ marks e' →
    AlikeIn ρ marks (e.watch watched turns) (e'.eval call turns)
  | _, _, _, .literal => by
    rw [Expr.watch, Expr.eval]
    exact alike_note_bind _ (alike_pure _)
  | _, _, _, .grouping inner => by
    rw [Expr.watch, Expr.eval]
    exact alike_note_bind _ (inner.alike_watch hcall)
  | .unary _ op line _, _, _, .unary operand => by
    rw [Expr.watch, Expr.eval]
    exact alike_note_bind _ <| (operand.alike_watch hcall).bind fun v ↦
      alike_lift fun _ ↦ Run.alike_ofExcept (op.apply_cases line v)
  | .binary _ op line _ _, _, _, .binary left right => by
    rw [Expr.watch, Expr.eval]
    exact alike_note_bind _ <| (left.alike_watch hcall).bind fun v ↦
      (right.alike_watch hcall).bind fun v' ↦
        alike_lift fun _ ↦ Run.alike_ofExcept (op.apply_cases line v v')
  | _, _, _, .logical left right => by
    rw [Expr.watch, Expr.eval]
    refine alike_note_bind _ <| (left.alike_watch hcall).bind fun v ↦ ?_
    split
    · exact alike_pure v
    · exact right.alike_watch hcall
  | _, _, _, .read allowed => by
    rw [Expr.watch, Expr.eval]
    exact alike_note_bind _ (alike_readName allowed _)
  | _, _, _, .assign allowed value => by
    rw [Expr.watch, Expr.eval]
    exact alike_note_bind _ <| (value.alike_watch hcall).bind fun v ↦
      (alike_assignName allowed _ v).bind fun _ ↦ alike_pure v
  | _, _, _, .call callee arguments => by
    rw [Expr.watch, Expr.eval]
    exact alike_note_bind _ <| (callee.alike_watch hcall).bind fun v ↦
      (arguments.alike_watchExprs hcall).bind fun vs ↦ hcall _ v vs _
  | _, _, _, .lambda mark body => by
    rw [Expr.watch, Expr.eval]
    exact alike_note_bind _ <| alike_keep _ fun _ ↦
      Run.alike_newFunction (fun _ ↦ rfl) fun _ ↦ ⟨rfl, rfl, rfl, mark, rfl, body⟩
  | _, _, _, .get object => by
    rw [Expr.watch, Expr.eval]
    exact alike_note_bind _ <| (object.alike_watch hcall).bind fun v ↦ alike_getProperty v _
  | _, _, _, .set object value => by
    rw [Expr.watch, Expr.eval]
    exact alike_note_bind _ <| (object.alike_watch hcall).bind fun v ↦
      (alike_lift fun _ ↦ Run.alike_requireInstance v _).bind fun i ↦
        (value.alike_watch hcall).bind fun v' ↦
          (alike_lift fun _ ↦ Run.alike_setProperty i _ v').bind fun _ ↦ alike_pure v'
  | _, _, _, .this allowed => by
    rw [Expr.watch, Expr.eval]
    exact alike_note_bind _ (alike_readName allowed _)
  | _, _, _, .super allowed => by
    rw [Expr.watch, Expr.eval]
    exact alike_note_bind _ (alike_superMethod (allowed.not_mem_uses nofun) _ _)

theorem RenamesExprsTo.alike_watchExprs (hcall : CallAlike ρ watched call) :
    ∀ {es es' : List Expr} {marks : List Bool}, RenamesExprsTo ρ marks es es' →
    AlikeIn ρ marks (watchExprs watched turns es) (evalExprs call turns es')
  | _, _, _, .nil => by
    rw [watchExprs, evalExprs]
    exact alike_pure []
  | _, _, _, .cons first others => by
    rw [watchExprs, evalExprs]
    exact (first.alike_watch hcall).bind fun v ↦
      (others.alike_watchExprs hcall).bind fun vs ↦ alike_pure (v :: vs)

theorem Stmt.RenamesTo.alike_watch (hcall : CallAlike ρ watched call) : ∀ {s s' : Stmt}
    {marks : List Bool}, s.RenamesTo ρ marks s' →
    AlikeIn ρ marks (s.watch watched turns) (s'.exec call turns)
  | _, _, _, .expression inner => by
    rw [Stmt.watch, Stmt.exec]
    exact alike_note_bind _ <| (inner.alike_watch hcall).bind fun _ ↦ alike_pure _
  | _, _, _, .print value => by
    rw [Stmt.watch, Stmt.exec]
    exact alike_note_bind _ <| (value.alike_watch hcall).bind fun v ↦
      (alike_lift fun _ ↦ Run.alike_printLine _ v).bind fun _ ↦ alike_pure _
  | _, _, _, .varNil => by
    rw [Stmt.watch, Stmt.exec]
    exact alike_note_bind _ <| (alike_keep _ fun _ ↦ Run.alike_define _ _).bind fun _ ↦
      alike_pure _
  | _, _, _, .varValue value => by
    rw [Stmt.watch, Stmt.exec]
    exact alike_note_bind _ <| alike_keep_bind _ <| (value.alike_watch hcall).bind fun v ↦
      (alike_keep _ fun _ ↦ Run.alike_define _ v).bind fun _ ↦ alike_pure _
  | .block ss, _, _, .block mark body => by
    rw [Stmt.watch, Stmt.exec]
    exact alike_note_bind _ ((body.alike_watchStmts hcall).inBlock ss)
  | _, _, _, .ifThen condition thenBranch => by
    rw [Stmt.watch, Stmt.exec]
    refine alike_note_bind _ <| (condition.alike_watch hcall).bind fun v ↦ ?_
    split
    · exact thenBranch.alike_watch hcall
    · exact alike_pure _
  | _, _, _, .ifElse condition thenBranch elseBranch => by
    rw [Stmt.watch, Stmt.exec]
    refine alike_note_bind _ <| (condition.alike_watch hcall).bind fun v ↦ ?_
    split
    · exact thenBranch.alike_watch hcall
    · exact elseBranch.alike_watch hcall
  | _, _, _, .whileLoop condition body => by
    rw [Stmt.watch, Stmt.exec]
    exact alike_note_bind _ <|
      alike_repeatWhile (condition.alike_watch hcall) (body.alike_watch hcall) turns
  | _, _, _, .funDecl hname decl => by
    rw [Stmt.watch, Stmt.exec]
    exact alike_note_bind _ <|
      (alike_keep _ fun _ ↦ Run.alike_declareFunction hname decl).bind fun _ ↦ alike_pure _
  | _, _, _, .returnNil => by
    rw [Stmt.watch, Stmt.exec]
    exact alike_note_bind _ (alike_pure _)
  | _, _, _, .returnValue value => by
    rw [Stmt.watch, Stmt.exec]
    exact alike_note_bind _ <| (value.alike_watch hcall).bind fun v ↦ alike_pure _
  | _, _, _, .classDecl hname methods => by
    rw [Stmt.watch, Stmt.exec]
    exact alike_note_bind _ <| (alike_declareClass hname methods).bind fun _ ↦ alike_pure _
  | _, _, _, .subclassDecl hname allowed methods => by
    rw [Stmt.watch, Stmt.exec]
    exact alike_note_bind _ <| (alike_declareSubclass hname allowed methods).bind fun _ ↦
      alike_pure _

theorem RenamesProgramTo.alike_watchStmts (hcall : CallAlike ρ watched call) :
    ∀ {ss ss' : List Stmt} {marks : List Bool}, RenamesProgramTo ρ marks ss ss' →
    AlikeIn ρ marks (watchStmts watched turns ss) (execStmts call turns ss')
  | _, _, _, .nil => by
    rw [watchStmts, execStmts]
    exact alike_pure _
  | _, _, _, .cons first others => by
    rw [watchStmts, execStmts]
    refine (first.alike_watch hcall).bind fun flow ↦ ?_
    cases flow with
    | next => exact others.alike_watchStmts hcall
    | returned v => exact alike_pure _

end

/-! ### Calls and programs -/

theorem alike_watchCallAt (ρ : Renaming) (turns : Nat) :
    ∀ level : Nat, CallAlike ρ (watchCallAt turns level) (callAt turns level)
  | 0, _, _, _, _ => alike_exhausted
  | level + 1, _, v, vs, line =>
    alike_callValue (fun _ _ _ h ↦ h.alike_watchStmts (alike_watchCallAt ρ turns level)) v vs line

/-- A renamed program does what the program does. -/
theorem RenamesProgramTo.alike_watchProgram {program program' : List Stmt}
    (h : RenamesProgramTo ρ marks program program') (turns : Nat) :
    AlikeIn ρ marks (watchProgram turns program) (executeProgram turns program') := by
  induction program generalizing program' with
  | nil =>
    cases h
    exact alike_pure ()
  | cons s ss ih =>
    cases h with
    | cons first others =>
      exact (first.alike_watch (alike_watchCallAt ρ turns enoughLevels)).bind fun _ ↦ ih others

end LexScript
