import LexScript.Proofs.Watching.Order

/-!
# Steps of watched evaluation

From a watch in order, an action leads to one in order, however it ends. What is said of actions
here composes, so evaluation can be followed step by step. An action also accounts for the calls
that the limit refuses: the ones it has noted are the ones that it ends with.

## Main definitions

* `Moment.refused?` : the mark of a call that the limit refuses.
* `Watch.LeadsTo`, `Watched.Ends` : what holds of a watch behind an action.
* `Run.Reads` : an action that only looks at the machine.

## Main statements

* `Watched.Ends.bind` : what holds behind composed actions.
* `Watched.ends_inFrame`, `Watched.ends_inCall` : actions in a frame and in a call.
-/

namespace LexScript

/-! ### Calls that are refused -/

/-- Whether to call a value with a number of arguments is to run a body, that of a function or of
the initializer of a class. -/
def Heap.runsBody (h : Heap) (v : Value) (count : Nat) : Bool :=
  match v with
  | .functionRef k => (h.functions[k]?.map Closure.arity) == some count
  | .classRef c => ((h.initializer? c).map Closure.arity) == some count
  | _ => false

/-- The mark of a call that the limit refuses: it would run a body while as many calls as can be are
in progress. -/
def Moment.refused? (moment : Moment) : Option Mark :=
  match moment.task with
  | .call v vs line =>
    if moment.history.calls.length = Run.maxCalls ∧
        moment.machine.heap.runsBody v vs.length = true then
      some ⟨Symbol.rightParen.spelling, line⟩
    else none
  | _ => none

theorem refused?_call_eq_some_iff {v : Value} {vs : List Value} {line : Nat} {m : Machine}
    {H : History} {mark : Mark} :
    (⟨.call v vs line, m, H⟩ : Moment).refused? = some mark ↔
      (H.calls.length = Run.maxCalls ∧ m.heap.runsBody v vs.length = true) ∧
        mark = ⟨Symbol.rightParen.spelling, line⟩ := by
  rw [Moment.refused?]
  dsimp only
  split
  · next h => exact ⟨fun heq ↦ ⟨h, (Option.some.inj heq).symm⟩, fun heq ↦ heq.2 ▸ rfl⟩
  · next h => exact ⟨nofun, fun heq ↦ absurd heq.1 h⟩

/-- The marks of the calls of a run that the limit refuses. -/
def refusals (moments : List Moment) : List Mark := moments.filterMap Moment.refused?

/-- The marks of the refused calls that an error is due to. -/
def Stop.refusals : Stop → List Mark
  | .fault ⟨.stackOverflow, mark⟩ => [mark]
  | _ => []

/-! ### Behind an action -/

/-- The same frames are open and the same calls are in progress as before, in programs with the same
lookups. -/
structure History.Resumes (before after : History) : Prop where
  frames : after.display.map Activation.frame = before.display.map Activation.frame
  calls : after.calls = before.calls
  lookups : after.lookups = before.lookups

/-- A watch is in order and has come from another one, with some more refused calls. -/
structure Watch.LeadsTo (w : Watch) (new : List Mark) (w' : Watch) : Prop where
  settles : w.machine.SettlesTo w'.machine
  precedes : Precedes w.machine.heap w.history w'.machine.heap w'.history
  resumes : w.history.Resumes w'.history
  inOrder : InOrder w'.machine w'.history
  moments : (∀ moment ∈ w.moments, moment.IsInOrder) → ∀ moment ∈ w'.moments, moment.IsInOrder
  refusals : refusals w'.moments = new ++ refusals w.moments
  since : ∀ moment ∈ w'.moments, moment ∈ w.moments ∨ moment.history.lookups = w.history.lookups

theorem Watch.LeadsTo.refl {w : Watch} (hw : InOrder w.machine w.history) : w.LeadsTo [] w :=
  ⟨.refl _, .refl _ _, ⟨rfl, rfl, rfl⟩, hw, id, rfl, fun _ ↦ .inl⟩

theorem Watch.LeadsTo.trans {w w' w'' : Watch} {new : List Mark} (h : w.LeadsTo [] w')
    (h' : w'.LeadsTo new w'') : w.LeadsTo new w'' where
  settles := h.settles.trans h'.settles
  precedes := h.precedes.trans h'.precedes
  resumes := ⟨h'.resumes.frames.trans h.resumes.frames, h'.resumes.calls.trans h.resumes.calls,
    h'.resumes.lookups.trans h.resumes.lookups⟩
  inOrder := h'.inOrder
  moments := h'.moments ∘ h.moments
  refusals := by rw [h'.refusals, h.refusals, List.nil_append]
  since moment hmoment := by
    rcases h'.since moment hmoment with hbefore | hlookups
    · exact h.since moment hbefore
    · exact .inr (hlookups.trans h.resumes.lookups)

namespace Watched

variable {α β : Type} {p : Watched α} {w : Watch} {P : α → Watch → Prop}

/-- An action on a watch leads to watches in order, accounts for the calls that it refuses, and if
it ends with a result then some condition holds. -/
def Ends (p : Watched α) (w : Watch) (P : α → Watch → Prop) : Prop :=
  match p w with
  | .ok a w' => w.LeadsTo [] w' ∧ P a w'
  | .error e w' => w.LeadsTo e.refusals w'

theorem Ends.bind {f : α → Watched β} {Q : β → Watch → Prop} (h : Ends p w P)
    (hf : ∀ a w', w.LeadsTo [] w' → P a w' → Ends (f a) w' Q) :
    Ends (p >>= f) w Q := by
  unfold Ends at h ⊢
  rw [bind_apply]
  cases hp : p w with
  | error e w' =>
    rw [hp] at h
    exact h
  | ok a w' =>
    rw [hp] at h
    obtain ⟨hleads, hpost⟩ := h
    have hf := hf a w' hleads hpost
    unfold Ends at hf
    dsimp only
    cases hfa : f a w' with
    | ok b w'' =>
      rw [hfa] at hf
      exact ⟨hleads.trans hf.1, hf.2⟩
    | error e w'' =>
      rw [hfa] at hf
      exact hleads.trans hf

theorem Ends.weaken {Q : α → Watch → Prop} (h : Ends p w P)
    (hpost : ∀ a w', w.LeadsTo [] w' → P a w' → Q a w') : Ends p w Q := by
  unfold Ends at h ⊢
  cases hp : p w with
  | error e w' =>
    rw [hp] at h
    exact h
  | ok a w' =>
    rw [hp] at h
    exact ⟨h.1, hpost a w' h.1 h.2⟩

/-- Something is done to the machine, and the history is brought up to date. -/
theorem ends_keep {update : Watch → History} {p : Run α} (hsettles : p.Settles)
    (hok : ∀ a m, p w.machine = .ok a m →
      Precedes w.machine.heap w.history m.heap (update w) ∧
        w.history.Resumes (update w) ∧ InOrder m (update w) ∧
        P a { w with machine := m, history := update w })
    (herror : ∀ e m, p w.machine = .error e m → InOrder m w.history ∧ e.refusals = []) :
    Ends (keep update p) w P := by
  have hm := hsettles w.machine
  unfold Ends keep
  cases hp : p w.machine with
  | ok a m =>
    rw [hp] at hm
    obtain ⟨hprecedes, hresumes, hm', hpost⟩ := hok a m hp
    exact ⟨⟨hm, hprecedes, hresumes, hm', id, rfl, fun _ ↦ .inl⟩, hpost⟩
  | error e m =>
    rw [hp] at hm
    obtain ⟨hm', he⟩ := herror e m hp
    dsimp only
    rw [he]
    exact ⟨hm, .of_growsTo hm.heap, ⟨rfl, rfl, rfl⟩, hm', id, rfl, fun _ ↦ .inl⟩

/-- What is done to the machine ends with a result. -/
theorem ends_keep_of_ok {update : Watch → History} {p : Run α} {a : α} {m : Machine}
    (hsettles : p.Settles) (hp : p w.machine = .ok a m)
    (h : w.machine.SettlesTo m → Precedes w.machine.heap w.history m.heap (update w) ∧
      w.history.Resumes (update w) ∧ InOrder m (update w) ∧
      P a { w with machine := m, history := update w }) :
    Ends (keep update p) w P := by
  refine ends_keep hsettles (fun a' m' hp' ↦ ?_) fun e m' hp' ↦ ?_
  · rw [hp] at hp'
    cases hp'
    exact h (hsettles.of_eq_ok hp)
  · rw [hp] at hp'
    cases hp'

variable (hw : InOrder w.machine w.history)
include hw

theorem ends_pure {a : α} (hpost : P a w) : Ends (pure a) w P := ⟨.refl hw, hpost⟩

theorem ends_throw {e : Stop} (he : e.refusals = []) : Ends (throw e) w P := by
  change w.LeadsTo e.refusals w
  rw [he]
  exact .refl hw

/-- A moment that is no refused call is noted. -/
theorem ends_note {task : Task} {P : Unit → Watch → Prop} (htask : task.LiesIn w.history)
    (hrefused : (⟨task, w.machine, w.history⟩ : Moment).refused? = none)
    (hpost : P () { w with moments := ⟨task, w.machine, w.history⟩ :: w.moments }) :
    Ends (note task) w P := by
  refine ⟨⟨.refl _, .refl _ _, ⟨rfl, rfl, rfl⟩, hw, fun h ↦ ?_, ?_, ?_⟩, hpost⟩
  · exact List.forall_mem_cons.2 ⟨⟨hw, htask⟩, h⟩
  · exact List.filterMap_cons_none hrefused
  · exact List.forall_mem_cons.2 ⟨.inr rfl, fun _ ↦ .inl⟩

/-- A moment that is no refused call is noted before an action. -/
theorem Ends.afterNote {task : Task} {p : Watched α} (htask : task.LiesIn w.history)
    (hrefused : (⟨task, w.machine, w.history⟩ : Moment).refused? = none)
    (h : ∀ moments, Ends p { w with moments := moments } P) :
    Ends (note task >>= fun _ ↦ p) w P :=
  (ends_note (P := fun _ w' ↦ w' = _) hw htask hrefused rfl).bind fun _ _ _ hw' ↦ hw' ▸ h _

end Watched

/-! ### Actions that only look at the machine -/

namespace Run

variable {α β : Type}

/-- An action leaves the machine as it is and does not overflow. -/
def Reads (p : Run α) : Prop :=
  ∀ m, (∃ a, p m = .ok a m) ∨ ∃ e, p m = .error e m ∧ e.refusals = []

theorem reads_pure (a : α) : (pure a : Run α).Reads := fun _ ↦ .inl ⟨a, rfl⟩

theorem reads_throw {e : Stop} (he : e.refusals = []) : (throw e : Run α).Reads :=
  fun _ ↦ .inr ⟨e, rfl, he⟩

theorem Reads.bind {p : Run α} {f : α → Run β} (hp : p.Reads) (hf : ∀ a, (f a).Reads) :
    (p >>= f).Reads := by
  intro m
  rw [bind_apply]
  obtain ⟨a, ha⟩ | ⟨e, he, hoverflow⟩ := hp m
  · rw [ha]
    exact hf a m
  · rw [he]
    exact .inr ⟨e, rfl, hoverflow⟩

theorem reads_ask (question : Heap → α) : (ask question).Reads := fun _ ↦ .inl ⟨_, rfl⟩

theorem reads_readAt (distance : Nat) (x : Name) (line : Nat) :
    (readAt distance x line).Reads := by
  intro m
  unfold readAt Frames.getAt
  cases (m.heap.frames.ancestor? m.current distance).bind (m.heap.frames.find? · x) with
  | some v => exact .inl ⟨v, rfl⟩
  | none => exact .inr ⟨_, rfl, rfl⟩

theorem reads_readGlobal (x : Name) (line : Nat) : (readGlobal x line).Reads := by
  intro m
  unfold readGlobal Frames.get
  cases (m.heap.frames.owner? Frames.globals x).bind (m.heap.frames.find? · x) with
  | some v => exact .inl ⟨v, rfl⟩
  | none => exact .inr ⟨_, rfl, rfl⟩

theorem reads_readName (id : Nat) (x : Name) (line : Nat) : (readName id x line).Reads := by
  have hdistance : (distanceOf id).Reads := fun _ ↦ .inl ⟨_, rfl⟩
  refine hdistance.bind fun distance ↦ ?_
  cases distance with
  | none => exact reads_readGlobal x line
  | some d => exact reads_readAt d x line

theorem reads_checkArity (mark : Mark) (expected got : Nat) :
    (checkArity mark expected got).Reads := by
  unfold checkArity
  split
  · exact reads_pure ()
  · exact reads_throw rfl

theorem reads_requireInstance (object : Value) (name : Ident) :
    (requireInstance object name).Reads := by
  cases object with
  | instanceRef i => exact reads_pure i
  | _ => exact reads_throw rfl

theorem reads_callResult (c : Closure) (flow : Flow) : (callResult c flow).Reads := by
  unfold callResult
  split
  · exact reads_ask _
  · cases flow with
    | returned v => exact reads_pure v
    | next => exact reads_pure Value.nil

/-- What a read yields is bound somewhere. -/
theorem exists_find?_of_readAt {distance : Nat} {x : Name} {line : Nat} {m m' : Machine}
    {v : Value} (h : readAt distance x line m = .ok v m') :
    ∃ f, m.heap.frames.find? f x = some v := by
  unfold readAt Frames.getAt at h
  cases hfind : (m.heap.frames.ancestor? m.current distance).bind
      (m.heap.frames.find? · x) with
  | none =>
    rw [hfind] at h
    cases h
  | some w =>
    rw [hfind] at h
    cases h
    obtain ⟨f, -, hf⟩ := Option.bind_eq_some_iff.1 hfind
    exact ⟨f, hf⟩

theorem exists_find?_of_readName {id : Nat} {x : Name} {line : Nat} {m m' : Machine} {v : Value}
    (h : readName id x line m = .ok v m') : ∃ f, m.heap.frames.find? f x = some v := by
  obtain ⟨distance, m₁, hdistance, h⟩ := eq_ok_of_bind h
  cases hdistance
  cases hfound : m.distances.find? id with
  | some d =>
    rw [hfound] at h
    exact exists_find?_of_readAt h
  | none =>
    rw [hfound] at h
    simp only [readGlobal, Frames.get] at h
    cases hfind : (m.heap.frames.owner? Frames.globals x).bind (m.heap.frames.find? · x) with
    | none =>
      rw [hfind] at h
      cases h
    | some w =>
      rw [hfind] at h
      cases h
      obtain ⟨f, -, hf⟩ := Option.bind_eq_some_iff.1 hfind
      exact ⟨f, hf⟩

theorem reads_readSuperclass (s : SuperclassName) : (readSuperclass s).Reads := by
  refine (reads_readName s.id s.ident.name s.ident.line).bind fun v ↦ ?_
  cases v with
  | classRef c => exact reads_pure c
  | _ => exact reads_throw rfl

theorem lt_size_of_readSuperclass {s : SuperclassName} {c : Nat} {m m' : Machine}
    (h : readSuperclass s m = .ok c m') (hl : m.heap.IsLayered) : c < m.heap.classes.size := by
  obtain ⟨v, m₁, hread, h⟩ := eq_ok_of_bind h
  cases v with
  | classRef c' =>
    cases h
    obtain ⟨f, hf⟩ := exists_find?_of_readName hread
    exact hl.bound _ _ _ hf
  | _ => cases h

end Run

/-! ### Operators -/

/-- The faults of operators, which have nothing to do with names or calls. -/
def Fault.IsOfOperator : Fault → Prop
  | .operandMustBeNumber | .operandsMustBeNumbers | .operandsMustBeNumbersOrStrings
  | .divisionByZero => True
  | _ => False

theorem Fault.IsOfOperator.refusals {e : RuntimeError} (h : e.fault.IsOfOperator) :
    (Stop.fault e).refusals = [] := by
  obtain ⟨fault, mark⟩ := e
  cases fault with
  | stackOverflow => exact h.elim
  | _ => rfl

/-- The result of an operator is no reference. -/
theorem UnaryOp.apply_cases (op : UnaryOp) (line : Nat) (v : Value) :
    (∃ r, op.apply line v = .ok r ∧ r.isReference = false) ∨
      ∃ e, op.apply line v = .error e ∧ e.fault.IsOfOperator := by
  cases op with
  | not => exact .inl ⟨_, rfl, rfl⟩
  | negate =>
    cases v with
    | number x => exact .inl ⟨_, rfl, rfl⟩
    | _ => exact .inr ⟨_, rfl, trivial⟩

theorem BinaryOp.applyNumbers_cases (op : BinaryOp) (x y : Number) :
    (∃ r, op.applyNumbers x y = .ok r ∧ r.isReference = false) ∨
      ∃ fault, op.applyNumbers x y = .error fault ∧ fault.IsOfOperator := by
  cases op with
  | divide =>
    rw [applyNumbers]
    split
    · exact .inr ⟨_, rfl, trivial⟩
    · exact .inl ⟨_, rfl, rfl⟩
  | _ => exact .inl ⟨_, rfl, rfl⟩

theorem BinaryOp.applyValues_cases (op : BinaryOp) (v w : Value) :
    (∃ r, op.applyValues v w = .ok r ∧ r.isReference = false) ∨
      ∃ fault, op.applyValues v w = .error fault ∧ fault.IsOfOperator := by
  unfold applyValues
  split
  · exact .inl ⟨_, rfl, rfl⟩
  · exact .inl ⟨_, rfl, rfl⟩
  · exact .inl ⟨_, rfl, rfl⟩
  · exact op.applyNumbers_cases _ _
  · exact .inr ⟨_, rfl, trivial⟩
  · exact .inr ⟨_, rfl, trivial⟩

theorem BinaryOp.apply_cases (op : BinaryOp) (line : Nat) (v w : Value) :
    (∃ r, op.apply line v w = .ok r ∧ r.isReference = false) ∨
      ∃ e, op.apply line v w = .error e ∧ e.fault.IsOfOperator := by
  unfold apply
  obtain ⟨r, hr, hdata⟩ | ⟨fault, hfault, hoperator⟩ := op.applyValues_cases v w
  · rw [hr]
    exact .inl ⟨r, rfl, hdata⟩
  · rw [hfault]
    exact .inr ⟨_, rfl, hoperator⟩

namespace Watched

variable {α β : Type} {w : Watch} {P : α → Watch → Prop}

/-- What is read leaves the watch as it is. -/
theorem ends_read {p : Run α} (hw : InOrder w.machine w.history) (hp : p.Reads)
    (hpost : ∀ a, p w.machine = .ok a w.machine → P a w) : Ends (lift p) w P := by
  unfold Ends lift keep
  obtain ⟨a, ha⟩ | ⟨e, he, hoverflow⟩ := hp w.machine
  · rw [ha]
    exact ⟨.refl hw, hpost a ha⟩
  · rw [he]
    dsimp only
    rw [hoverflow]
    exact .refl hw

theorem ends_lift_throw {e : Stop} (hw : InOrder w.machine w.history) (he : e.refusals = []) :
    Ends (lift (throw e : Run α)) w P :=
  ends_read hw (Run.reads_throw he) fun _ h ↦ by cases h

/-- What is read is known to what follows, and the watch is as before. -/
theorem Ends.afterRead {p : Run α} {f : α → Watched β} {P : β → Watch → Prop}
    (hw : InOrder w.machine w.history) (hp : p.Reads)
    (h : ∀ a, p w.machine = .ok a w.machine → Ends (f a) w P) : Ends (lift p >>= f) w P :=
  (ends_read (P := fun a w' ↦ w' = w ∧ p w.machine = .ok a w.machine) hw hp
    fun _ ha ↦ ⟨rfl, ha⟩).bind fun a _ _ ⟨hw', ha⟩ ↦ hw' ▸ h a ha

theorem Ends.afterAsk {question : Heap → α} {f : α → Watched β} {P : β → Watch → Prop}
    (h : Ends (f (question w.machine.heap)) w P) :
    Ends (lift (Run.ask question) >>= f) w P := h

theorem Ends.afterLook {question : Watch → α} {f : α → Watched β} {P : β → Watch → Prop}
    (h : Ends (f (question w)) w P) : Ends (look question >>= f) w P := h

/-! ### Changes that create no functions and classes -/

/-- A machine with the functions and classes of another one, and a heap in layers. -/
structure Retains (m m' : Machine) : Prop where
  layered : m'.heap.IsLayered
  functions : m'.heap.functions = m.heap.functions
  classes : m'.heap.classes = m.heap.classes

theorem inOrder_retain {m m' : Machine} {H : History} (ho : InOrder m H) (hs : m.SettlesTo m')
    (hr : Retains m m') : InOrder m' H where
  tells := ho.tells.keep (.of_growsTo hs.heap) hr.layered hr.functions rfl hr.classes rfl
  isOpen := ho.isOpen.mono (.of_growsTo hs.heap)
  body := ho.body
  current := hs.current.trans ho.current
  depth := hs.depth.trans ho.depth
  calls := ho.calls
  lookups l hl := by
    rw [hs.distances]
    exact ho.lookups l hl

/-- The machine changes, but neither its functions and classes nor the history. -/
theorem ends_lift {p : Run α} (hw : InOrder w.machine w.history) (hsettles : p.Settles)
    (hok : ∀ a m, p w.machine = .ok a m → Retains w.machine m ∧ P a { w with machine := m })
    (herror : ∀ e m, p w.machine = .error e m → Retains w.machine m ∧ e.refusals = []) :
    Ends (lift p) w P := by
  have hm := hsettles w.machine
  refine ends_keep hsettles (fun a m hp ↦ ?_) fun e m hp ↦ ?_
  · rw [hp] at hm
    obtain ⟨hr, hpost⟩ := hok a m hp
    exact ⟨.of_growsTo hm.heap, ⟨rfl, rfl, rfl⟩, inOrder_retain hw hm hr, hpost⟩
  · rw [hp] at hm
    obtain ⟨hr, he⟩ := herror e m hp
    exact ⟨inOrder_retain hw hm hr, he⟩

/-- The heap changes, but neither its functions and classes nor the history. -/
theorem Ends.afterChange {step : Heap → α × Heap} {f : α → Watched β} {P : β → Watch → Prop}
    (hw : InOrder w.machine w.history) (hgrows : ∀ h : Heap, h.GrowsTo (step h).2)
    (hretains : Retains w.machine { w.machine with heap := (step w.machine.heap).2 })
    (h : let w' := { w with machine := { w.machine with heap := (step w.machine.heap).2 } }
      InOrder w'.machine w'.history → Ends (f (step w.machine.heap).1) w' P) :
    Ends (lift (Run.change step) >>= f) w P := by
  refine (ends_lift (P := fun a w' ↦ a = (step w.machine.heap).1 ∧
    w' = { w with machine := { w.machine with heap := (step w.machine.heap).2 } }) hw
    (Run.settles_change hgrows) (fun a m hp ↦ ?_) fun e m hp ↦ nomatch hp).bind
    fun a w' hl ⟨ha, hw'⟩ ↦ ?_
  · cases hp
    exact ⟨hretains, rfl, rfl⟩
  · subst ha hw'
    exact h hl.inOrder

/-! ### Frames and calls -/

/-- A history that differs in the open frames and the calls in progress. -/
theorem precedes_display (h : Heap) (H : History) (display : List Activation)
    (calls : List Closure) : Precedes h H h { H with display := display, calls := calls } :=
  ⟨.refl h, fun _ _ ↦ id, fun _ _ ↦ .inl, fun _ ↦ id⟩

theorem precedes_of_display {h h' : Heap} {H H' : History} (hp : Precedes h H h' H')
    (display display' : List Activation) (calls calls' : List Closure) :
    Precedes h { H with display := display, calls := calls } h'
      { H' with display := display', calls := calls' } :=
  ⟨hp.heap, hp.classes, hp.unfinished, hp.lookups⟩

theorem inOrder_enter {a : Activation} {outer : List Activation}
    (hw : InOrder w.machine w.history) (ha : AreOpen w.machine.heap w.history (a :: outer))
    (hbody : a.scope.BindsNoReceiver) :
    InOrder (enter w a outer).machine (enter w a outer).history where
  tells := hw.tells.keep (precedes_display _ _ (a :: outer) _) hw.tells.layered rfl rfl rfl rfl
  isOpen := ha.mono (precedes_display _ _ (a :: outer) _)
  body b hb := by
    cases hb
    exact hbody
  current := rfl
  depth := hw.depth
  calls := hw.calls
  lookups := hw.lookups

/-- An action runs in an open frame. -/
theorem ends_inFrame {p : Watched α} {Q : α → Watch → Prop} {a : Activation}
    {outer : List Activation} (hw : InOrder w.machine w.history)
    (h : Ends p (enter w a outer) Q)
    (hpost : ∀ r w', (enter w a outer).LeadsTo [] w' → Q r w' → P r (leave w' w)) :
    Ends (inFrame a outer p) w P := by
  have hleave {new : List Mark} {w' : Watch} (hl : (enter w a outer).LeadsTo new w') :
      w.LeadsTo new (leave w' w) := by
    have hp : Precedes w.machine.heap w.history w'.machine.heap (leave w' w).history :=
      precedes_of_display hl.precedes w.history.display w.history.display _ _
    refine ⟨⟨rfl, hl.settles.depth, hl.settles.distances, hl.settles.heap⟩, hp,
      ⟨rfl, hl.resumes.calls, hl.resumes.lookups⟩, ?_, hl.moments, hl.refusals, hl.since⟩
    have hw' := hl.inOrder
    exact
      { tells := hw'.tells.keep (precedes_display _ _ w.history.display _) hw'.tells.layered rfl rfl
          rfl rfl
        isOpen := hw.isOpen.mono hp
        body := hw.body
        current := hw.current
        depth := hw'.depth
        calls := hw'.calls
        lookups := hw'.lookups }
  unfold Ends inFrame at *
  cases hp : p (enter w a outer) with
  | ok r w' =>
    rw [hp] at h
    exact ⟨hleave h.1, hpost r w' h.1 h.2⟩
  | error e w' =>
    rw [hp] at h
    exact hleave h

theorem inOrder_call (hw : InOrder w.machine w.history) (c : Closure)
    (hroom : w.history.calls.length < Run.maxCalls) :
    InOrder (call w c).machine (call w c).history where
  tells := hw.tells.keep (precedes_display _ _ _ (c :: w.history.calls)) hw.tells.layered rfl rfl
    rfl rfl
  isOpen := hw.isOpen.mono (precedes_display _ _ _ (c :: w.history.calls))
  body := hw.body
  current := hw.current
  depth := congrArg (· + 1) hw.depth
  calls := hroom
  lookups := hw.lookups

/-- An action runs as one more call in progress. -/
theorem ends_inCall {p : Watched α} {Q : α → Watch → Prop} {c : Closure} {mark : Mark}
    (hw : InOrder w.machine w.history) (hroom : w.history.calls.length < Run.maxCalls)
    (h : Ends p (call w c) Q)
    (hpost : ∀ r w', (call w c).LeadsTo [] w' → Q r w' → P r (hangUp w' w)) :
    Ends (inCall c mark p) w P := by
  have hhangUp {new : List Mark} {w' : Watch} (hl : (call w c).LeadsTo new w') :
      w.LeadsTo new (hangUp w' w) := by
    have hp : Precedes w.machine.heap w.history w'.machine.heap (hangUp w' w).history :=
      precedes_of_display hl.precedes w.history.display _ w.history.calls _
    have hdepth : w'.machine.depth - 1 = w.machine.depth := by
      rw [hl.settles.depth]
      rfl
    refine ⟨⟨hl.settles.current, hdepth, hl.settles.distances, hl.settles.heap⟩, hp,
      ⟨hl.resumes.frames, rfl, hl.resumes.lookups⟩, ?_, hl.moments, hl.refusals, hl.since⟩
    have hw' := hl.inOrder
    exact
      { tells := hw'.tells.keep (precedes_display _ _ _ w.history.calls) hw'.tells.layered rfl rfl
          rfl rfl
        isOpen := hw'.isOpen.mono (precedes_display _ _ _ w.history.calls)
        body := hw'.body
        current := hw'.current
        depth := hdepth.trans hw.depth
        calls := hw.calls
        lookups := hw'.lookups }
  have hlt : ¬Run.maxCalls ≤ w.machine.depth := by
    rw [hw.depth]
    omega
  unfold Ends inCall at *
  rw [if_neg hlt]
  cases hp : p (Watched.call w c) with
  | ok r w' =>
    rw [hp] at h
    exact ⟨hhangUp h.1, hpost r w' h.1 h.2⟩
  | error e w' =>
    rw [hp] at h
    exact hhangUp h

end Watched

end LexScript
