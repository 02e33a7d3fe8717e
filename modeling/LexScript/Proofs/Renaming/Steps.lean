import LexScript.Proofs.Renaming.Heap
import LexScript.Proofs.Watching.Creation

/-!
# Steps of renamed programs

A program and a renamed one do the same step by step, on machines that differ in the names of
variables only. They yield the same values, write the same and stop in the same place. An error at
the use of a renamed variable is one at its new name. Errors do not tell where they arise, so what
is said of an action is said for the use that was looked up last.

What is said of actions here composes, so that both evaluations can be followed side by side.

## Main definitions

* `RuntimeError.RenamesTo` : the error of a renamed program.
* `Machine.RenamesTo` : the machine of a renamed program.
* `Run.EndAlike`, `Run.AlikeIn` : actions that do the same.

## Main statements

* `Run.AlikeIn.bind` : composed actions do the same.
* `Run.alike_readName`, `Run.alike_assignName`, `Run.alike_define` : names are renamed with the
  frame that binds them.
-/

namespace LexScript

variable {ρ : Renaming} {use : Option Nat} {σ : Nat → Bool} {mark : Bool} {marks : List Bool}

/-! ### Errors -/

/-- Whether a fault is about the name that was looked up: it has no value, or it denotes no class
and so no superclass. -/
def Fault.IsOfName : Fault → Prop
  | .undefinedVariable _ | .invalidSuperclass => True
  | _ => False

theorem Fault.IsOfOperator.not_isOfName {fault : Fault} (h : fault.IsOfOperator) :
    ¬fault.IsOfName := by
  cases fault with
  | undefinedVariable => exact h.elim
  | invalidSuperclass => exact h.elim
  | _ => exact not_false

/-- What was looked up last is a renamed use. -/
def Renaming.IsAt (ρ : Renaming) (use : Option Nat) : Prop := ∃ id ∈ ρ.uses, use = some id

/-- The error of a renamed program, by what was looked up last. About the name of a renamed use it
has the old name in the one program and the new name in the other. Any other error is the same. -/
inductive RuntimeError.RenamesTo (ρ : Renaming) (use : Option Nat) :
    RuntimeError → RuntimeError → Prop where
  | same {e : RuntimeError} (h : ρ.IsAt use → ¬e.fault.IsOfName) :
      RuntimeError.RenamesTo ρ use e e
  | undefinedVariable {line : Nat} (h : ρ.IsAt use) :
      RuntimeError.RenamesTo ρ use ⟨.undefinedVariable ρ.old, ⟨ρ.old, line⟩⟩
        ⟨.undefinedVariable ρ.new, ⟨ρ.new, line⟩⟩
  | invalidSuperclass {line : Nat} (h : ρ.IsAt use) :
      RuntimeError.RenamesTo ρ use ⟨.invalidSuperclass, ⟨ρ.old, line⟩⟩
        ⟨.invalidSuperclass, ⟨ρ.new, line⟩⟩

/-- Why the run of a renamed program ends, by what was looked up last. -/
inductive Stop.RenamesTo (ρ : Renaming) (use : Option Nat) : Stop → Stop → Prop where
  | fault {e e' : RuntimeError} (h : e.RenamesTo ρ use e') :
      Stop.RenamesTo ρ use (.fault e) (.fault e')
  | exhausted : Stop.RenamesTo ρ use .exhausted .exhausted

theorem Stop.RenamesTo.same {e : RuntimeError} (h : ¬e.fault.IsOfName) :
    Stop.RenamesTo ρ use (.fault e) (.fault e) := .fault (.same fun _ ↦ h)

/-- At a use that is not renamed, errors are the same. -/
theorem RuntimeError.RenamesTo.of_not_mem {id : Nat} (hid : id ∉ ρ.uses) (e : RuntimeError) :
    e.RenamesTo ρ (some id) e := by
  refine .same fun ⟨id', hid', heq⟩ ↦ ?_
  cases heq
  exact absurd hid' hid

namespace Renaming.Allows

variable {id : Nat}

theorem not_mem_uses {x : Name} (h : ρ.Allows marks id x) (hx : x ≠ .ident ρ.old) :
    id ∉ ρ.uses := fun hid ↦ hx (h.mem_uses.1 hid).2

/-- A use that is not renamed keeps its name. -/
theorem name_eq {x : Name} (h : ρ.Allows marks id x) (hid : id ∉ ρ.uses) :
    ρ.name (ρ.reaches marks id) x = x := by
  cases hreaches : ρ.reaches marks id with
  | false => exact ρ.name_false x
  | true =>
    cases x with
    | ident text =>
      rcases Renaming.text_cases true fun hnew ↦ h.ne_new hreaches (congrArg _ hnew) with
        hkeep | ⟨rfl, -⟩
      · exact congrArg Name.ident hkeep
      · exact absurd (h.mem_uses.2 ⟨hreaches, rfl⟩) hid
    | this => rfl
    | super => rfl

theorem name_old (h : ρ.Allows marks id (.ident ρ.old)) (hid : id ∈ ρ.uses) :
    ρ.name (ρ.reaches marks id) (.ident ρ.old) = .ident ρ.new := by
  rw [(h.mem_uses.1 hid).1]
  exact congrArg Name.ident (Equiv.swap_apply_left ..)

/-- An error at the use of a variable that has no value yet. -/
theorem undefinedName {x : Name} (h : ρ.Allows marks id x) (line : Nat) :
    (undefinedName x line).RenamesTo ρ (some id)
      (LexScript.undefinedName (ρ.name (ρ.reaches marks id) x) line) := by
  by_cases hid : id ∈ ρ.uses
  · obtain ⟨-, rfl⟩ := h.mem_uses.1 hid
    rw [h.name_old hid]
    exact .undefinedVariable ⟨id, hid, rfl⟩
  · rw [h.name_eq hid]
    exact .of_not_mem hid _

/-- An error at the name of a superclass that denotes no class. -/
theorem invalidSuperclass {x : Ident} (h : ρ.Allows marks id x.name) :
    RuntimeError.RenamesTo ρ (some id) ⟨.invalidSuperclass, x.mark⟩
      ⟨.invalidSuperclass, (ρ.ident (ρ.reaches marks id) x).mark⟩ := by
  by_cases hid : id ∈ ρ.uses
  · obtain ⟨text, line⟩ := x
    obtain ⟨-, hx⟩ := h.mem_uses.1 hid
    cases Name.ident.inj hx
    have hnew := Name.ident.inj (h.name_old hid)
    rw [Renaming.ident, hnew]
    exact .invalidSuperclass ⟨id, hid, rfl⟩
  · have hkeep := Name.ident.inj (h.name_eq hid)
    rw [Renaming.ident, hkeep]
    exact .of_not_mem hid _

end Renaming.Allows

/-! ### Machines -/

/-- The machine of a renamed program. -/
structure Machine.RenamesTo (ρ : Renaming) (σ : Nat → Bool) (m m' : Machine) : Prop where
  heap : m.heap.RenamesTo ρ σ m'.heap
  current : m'.current = m.current
  depth : m'.depth = m.depth
  distances : m.distances = ρ.distances
  distances_right : m'.distances = ρ.distances
  sink : m'.sink = m.sink
  clock : m'.clock = m.clock

/-- From the machine `m` on, a program and a renamed one have reached `m₁` and `m₁'`. -/
structure ReachAlike (ρ : Renaming) (σ : Nat → Bool) (m m₁ m₁' : Machine) : Prop where
  settles : m.SettlesTo m₁
  exists_marks : ∃ σ₁ : Nat → Bool, (∀ f < m.heap.frames.size, σ₁ f = σ f) ∧ m₁.RenamesTo ρ σ₁ m₁'

variable {m m' m₁ m₁' : Machine}

theorem Machine.RenamesTo.withHeap {h h' : Heap} {σ₁ : Nat → Bool} (hr : m.RenamesTo ρ σ m')
    (hh : h.RenamesTo ρ σ₁ h') :
    Machine.RenamesTo ρ σ₁ { m with heap := h } { m' with heap := h' } :=
  ⟨hh, hr.current, hr.depth, hr.distances, hr.distances_right, hr.sink, hr.clock⟩

theorem ReachAlike.refl (hr : m.RenamesTo ρ σ m') : ReachAlike ρ σ m m m' :=
  ⟨.refl m, σ, fun _ _ ↦ rfl, hr⟩

theorem ReachAlike.trans {σ₁ : Nat → Bool} {m₂ m₂' : Machine} (hs : m.SettlesTo m₁)
    (hmarks : ∀ f < m.heap.frames.size, σ₁ f = σ f) (h : ReachAlike ρ σ₁ m₁ m₂ m₂') :
    ReachAlike ρ σ m m₂ m₂' := by
  obtain ⟨hs', σ₂, hmarks', hr⟩ := h
  refine ⟨hs.trans hs', σ₂, fun f hf ↦ ?_, hr⟩
  rw [hmarks' f (Nat.lt_of_lt_of_le hf hs.heap.frames), hmarks f hf]

namespace Run

variable {α β : Type}

/-- From the machine `m` on, a program and a renamed one have ended in the same way. -/
inductive EndAlike (ρ : Renaming) (use : Option Nat) (σ : Nat → Bool) (m : Machine) :
    EStateM.Result Stop Machine α → EStateM.Result Stop Machine α → Prop where
  | ok {a : α} {m₁ m₁' : Machine} (h : ReachAlike ρ σ m m₁ m₁') :
      EndAlike ρ use σ m (.ok a m₁) (.ok a m₁')
  | error {e e' : Stop} {m₁ m₁' : Machine} (he : e.RenamesTo ρ use e')
      (h : ReachAlike ρ σ m m₁ m₁') : EndAlike ρ use σ m (.error e m₁) (.error e' m₁')

/-- Inside scopes with the given marks, the second action does in the renamed program what the first
one does in the program, where the given use was looked up last. -/
def AlikeIn (ρ : Renaming) (use : Option Nat) (marks : List Bool) (p p' : Run α) : Prop :=
  ∀ (σ : Nat → Bool) (m m' : Machine), m.RenamesTo ρ σ m' →
    m.heap.frames.HasMarks σ marks m.current → EndAlike ρ use σ m (p m) (p' m')

/-! ### Composed actions -/

theorem EndAlike.trans {σ₁ : Nat → Bool} {r r' : EStateM.Result Stop Machine α}
    (hs : m.SettlesTo m₁) (hmarks : ∀ f < m.heap.frames.size, σ₁ f = σ f)
    (h : EndAlike ρ use σ₁ m₁ r r') : EndAlike ρ use σ m r r' := by
  cases h with
  | ok h => exact .ok (.trans hs hmarks h)
  | error he h => exact .error he (.trans hs hmarks h)

theorem EndAlike.bind {p p' : Run α} {f f' : α → Run β} (hp : EndAlike ρ use σ m (p m) (p' m'))
    (hf : ∀ (a : α) (σ₁ : Nat → Bool) (m₁ m₁' : Machine), m.SettlesTo m₁ →
      (∀ f < m.heap.frames.size, σ₁ f = σ f) → m₁.RenamesTo ρ σ₁ m₁' →
      EndAlike ρ use σ₁ m₁ (f a m₁) (f' a m₁')) :
    EndAlike ρ use σ m ((p >>= f) m) ((p' >>= f') m') := by
  rw [bind_apply, bind_apply]
  generalize p m = r at hp
  generalize p' m' = r' at hp
  cases hp with
  | error he h => exact .error he h
  | @ok a m₁ m₁' h =>
    obtain ⟨hs, σ₁, hmarks, hr⟩ := h
    exact .trans hs hmarks (hf a σ₁ m₁ m₁' hs hmarks hr)

/-- Code remains inside the scopes where it is while it runs. -/
theorem hasMarks_of_settlesTo {σ₁ : Nat → Bool} (hs : m.SettlesTo m₁)
    (hmarks : ∀ f < m.heap.frames.size, σ₁ f = σ f)
    (h : m.heap.frames.HasMarks σ marks m.current) :
    m₁.heap.frames.HasMarks σ₁ marks m₁.current := by
  rw [hs.current]
  exact h.mono ⟨hmarks, hs.heap.enclosing⟩

theorem AlikeIn.bind {p p' : Run α} {f f' : α → Run β} (hp : AlikeIn ρ use marks p p')
    (hf : ∀ a, AlikeIn ρ use marks (f a) (f' a)) : AlikeIn ρ use marks (p >>= f) (p' >>= f') :=
  fun σ m m' hr hin ↦ (hp σ m m' hr hin).bind fun a σ₁ m₁ m₁' hs hmarks hr₁ ↦
    hf a σ₁ m₁ m₁' hr₁ (hasMarks_of_settlesTo hs hmarks hin)

theorem alike_pure (a : α) : AlikeIn ρ use marks (pure a) (pure a) :=
  fun _ _ _ hr _ ↦ .ok (.refl hr)

theorem alike_throw {e e' : Stop} (he : e.RenamesTo ρ use e') :
    AlikeIn ρ use marks (throw e : Run α) (throw e') := fun _ _ _ hr _ ↦ .error he (.refl hr)

theorem alike_fail (fault : Fault) (h : ¬fault.IsOfName) (m : Mark) :
    AlikeIn ρ use marks (fail fault m : Run α) (fail fault m) := alike_throw (.same h)

/-- The errors of operators are not about names. -/
theorem alike_ofExcept {result : Except RuntimeError Value}
    (h : (∃ r, result = .ok r ∧ r.isReference = false) ∨
      ∃ e, result = .error e ∧ e.fault.IsOfOperator) :
    AlikeIn ρ use marks (ofExcept result) (ofExcept result) := by
  obtain ⟨r, rfl, -⟩ | ⟨e, rfl, hoperator⟩ := h
  · exact alike_pure r
  · exact alike_throw (.same hoperator.not_isOfName)

/-! ### The heap -/

theorem alike_ask {question question' : Heap → α}
    (h : ∀ (σ : Nat → Bool) (h h' : Heap), h.RenamesTo ρ σ h' → question' h' = question h) :
    AlikeIn ρ use marks (ask question) (ask question') := by
  intro σ m m' hr _
  unfold ask
  rw [h σ _ _ hr.heap]
  exact .ok (.refl hr)

/-- Changes that make no frames. -/
theorem alike_change {step step' : Heap → α × Heap}
    (hgrows : ∀ h : Heap, h.GrowsTo (step h).2)
    (hstep : ∀ (σ : Nat → Bool) (h h' : Heap), h.RenamesTo ρ σ h' →
      (step' h').1 = (step h).1 ∧ (step h).2.RenamesTo ρ σ (step' h').2) :
    AlikeIn ρ use marks (change step) (change step') := by
  intro σ m m' hr _
  obtain ⟨hvalue, hheap⟩ := hstep σ _ _ hr.heap
  simp only [change]
  rw [hvalue]
  exact .ok ⟨⟨rfl, rfl, rfl, hgrows m.heap⟩, σ, fun _ _ ↦ rfl, hr.withHeap hheap⟩

/-! ### Names -/

/-- A name is bound renamed with the frame in scope. -/
theorem alike_define (x : Ident) (v : Value) :
    AlikeIn ρ use marks (define x.name v) (define (ρ.ident (marks.headD false) x).name v) := by
  intro σ m m' hr hin
  have hheap := hr.heap.define m.current x.name v
  rw [← hin.headD hr.heap.globals] at hheap
  unfold define
  rw [hr.current]
  exact .ok ⟨⟨rfl, rfl, rfl, m.heap.growsTo_define m.current x v⟩, σ, fun _ _ ↦ rfl,
    hheap, rfl, hr.depth, hr.distances, hr.distances_right, hr.sink, hr.clock⟩

theorem alike_readAt (distance : Nat) {x : Name} {line : Nat}
    (herror : (undefinedName x line).RenamesTo ρ use
      (undefinedName (ρ.name (marks.getD distance false) x) line)) :
    AlikeIn ρ use marks (readAt distance x line)
      (readAt distance (ρ.name (marks.getD distance false) x) line) := by
  intro σ m m' hr hin
  have hfind := hr.heap.find?_ancestor? hin distance x
  rw [← hr.current] at hfind
  unfold readAt Frames.getAt
  rw [hfind, hr.current]
  cases (m.heap.frames.ancestor? m.current distance).bind (m.heap.frames.find? · x) with
  | some v => exact .ok (.refl hr)
  | none => exact .error (.fault herror) (.refl hr)

theorem alike_readGlobal {x : Name} {line : Nat}
    (herror : (undefinedName x line).RenamesTo ρ use (undefinedName x line)) :
    AlikeIn ρ use marks (readGlobal x line) (readGlobal x line) := by
  intro σ m m' hr _
  have hfind : (m'.heap.frames.owner? Frames.globals x).bind (m'.heap.frames.find? · x) =
      (m.heap.frames.owner? Frames.globals x).bind (m.heap.frames.find? · x) := by
    have hglobals := hr.heap.find Frames.globals x
    rw [hr.heap.globals, ρ.name_false] at hglobals
    rw [hr.heap.owner?_globals_right, hr.heap.owner?_globals]
    split
    · exact hglobals
    · rfl
  unfold readGlobal Frames.get
  rw [hfind]
  cases (m.heap.frames.owner? Frames.globals x).bind (m.heap.frames.find? · x) with
  | some v => exact .ok (.refl hr)
  | none => exact .error (.fault herror) (.refl hr)

theorem alike_distanceOf_bind {id : Nat} {f f' : Option Nat → Run α}
    (hf : AlikeIn ρ use marks (f (ρ.distances.find? id)) (f' (ρ.distances.find? id))) :
    AlikeIn ρ use marks (distanceOf id >>= f) (distanceOf id >>= f') := by
  intro σ m m' hr hin
  rw [bind_apply, bind_apply]
  simp only [distanceOf, hr.distances, hr.distances_right]
  exact hf σ m m' hr hin

/-- A variable is read under the name that it has in the frame that binds it. -/
theorem alike_readName {id : Nat} {x : Name} (hx : ρ.Allows marks id x) (line : Nat) :
    AlikeIn ρ (some id) marks (readName id x line)
      (readName id (ρ.name (ρ.reaches marks id) x) line) := by
  refine alike_distanceOf_bind ?_
  have herror := hx.undefinedName line
  unfold Renaming.reaches at herror ⊢
  cases hdistance : ρ.distances.find? id with
  | none =>
    rw [hdistance] at herror
    dsimp only at herror ⊢
    rw [ρ.name_false] at herror ⊢
    exact alike_readGlobal herror
  | some distance =>
    rw [hdistance] at herror
    exact alike_readAt distance herror

/-- A variable is assigned to under the name that it has in the frame that binds it. -/
theorem alike_assignName {id : Nat} {x : Ident} (hx : ρ.Allows marks id x.name) (line : Nat)
    (v : Value) :
    AlikeIn ρ (some id) marks (assignName id x.name line v)
      (assignName id (ρ.ident (ρ.reaches marks id) x).name line v) := by
  intro σ m m' hr hin
  -- Both assign in the same frame, whose mark is that of the use.
  have hassignee : ∃ frame, assignee id x.name m = .ok frame m ∧
      assignee id (ρ.name (ρ.reaches marks id) x.name) m' = .ok frame m' ∧
      ∀ g, frame = some g → ρ.reaches marks id = σ g := by
    simp only [assignee, hr.distances, hr.distances_right, Renaming.reaches]
    cases ρ.distances.find? id with
    | none =>
      refine ⟨_, rfl, ?_, fun g hg ↦ ?_⟩
      · dsimp only
        rw [ρ.name_false, hr.heap.owner?_globals_right]
      · dsimp only at hg ⊢
        rw [hr.heap.owner?_globals] at hg
        split at hg
        · cases hg
          exact hr.heap.globals.symm
        · cases hg
    | some distance =>
      refine ⟨_, rfl, ?_, fun g hg ↦ hr.heap.mark_ownerAt? hin hg⟩
      dsimp only
      rw [hr.current, hr.heap.ownerAt? hin]
  obtain ⟨frame, hleft, hright, hmark⟩ := hassignee
  rw [Renaming.name_ident]
  simp only [assignName, bind_apply, hleft, hright]
  cases frame with
  | none => exact .error (.fault (hx.undefinedName line)) (.refl hr)
  | some g =>
    have hheap := hr.heap.define g x.name v
    rw [← hmark g rfl] at hheap
    exact .ok ⟨⟨rfl, rfl, rfl, m.heap.growsTo_define g x v⟩, σ, fun _ _ ↦ rfl,
      hr.withHeap hheap⟩

/-! ### Output and time -/

theorem alike_printLine (line : Nat) (v : Value) :
    AlikeIn ρ use marks (printLine line v) (printLine line v) := by
  intro σ m m' hr _
  have hafter (sink : Sink) :
      ReachAlike ρ σ m { m with sink := sink } { m' with sink := sink } :=
    ⟨⟨rfl, rfl, rfl, .refl _⟩, σ, fun _ _ ↦ rfl,
      hr.heap, hr.current, hr.depth, hr.distances, hr.distances_right, rfl, hr.clock⟩
  simp only [printLine, hr.heap.text, hr.sink]
  rcases m.sink.printLine (v.text m.heap) with ⟨_ | reason, sink⟩
  · exact .ok (hafter sink)
  · exact .error (.same not_false) (hafter sink)

theorem alike_readClock (mark : Mark) : AlikeIn ρ use marks (readClock mark) (readClock mark) := by
  intro σ m m' hr _
  have hafter (clock : Clock) :
      ReachAlike ρ σ m { m with clock := clock } { m' with clock := clock } :=
    ⟨⟨rfl, rfl, rfl, .refl _⟩, σ, fun _ _ ↦ rfl,
      hr.heap, hr.current, hr.depth, hr.distances, hr.distances_right, hr.sink, rfl⟩
  simp only [readClock, hr.clock]
  rcases m.clock.read with ⟨reason | time, clock⟩
  · exact .error (.same not_false) (hafter clock)
  · exact .ok (hafter clock)

/-! ### Properties -/

theorem alike_boundMethod (c i : Nat) (name : Ident) :
    AlikeIn ρ use marks (boundMethod c i name) (boundMethod c i name) := by
  intro σ m m' hr _
  have hsettles := settles_boundMethod c i name m
  have hmethod := hr.heap.findMethod? c name.text
  rw [boundMethod_apply] at hsettles ⊢
  rw [boundMethod_apply]
  generalize m.heap.findMethod? c name.text = method at hmethod hsettles
  generalize m'.heap.findMethod? c name.text = method' at hmethod
  cases hmethod with
  | none => exact .error (.same not_false) (.refl hr)
  | @some method method' hmethod =>
    obtain ⟨hheap, hbound⟩ := hr.heap.bindMethod hmethod i
    dsimp only at hsettles ⊢
    rw [hr.heap.size_functions]
    refine .ok ⟨hsettles, Function.update σ m.heap.frames.size false, fun f hf ↦ ?_, ?_⟩
    · exact Function.update_of_ne (Nat.ne_of_lt hf) _ _
    · exact hr.withHeap (hheap.newFunction hbound)

theorem alike_getProperty (object : Value) (name : Ident) :
    AlikeIn ρ use marks (getProperty object name) (getProperty object name) := by
  cases object with
  | instanceRef i =>
    refine (alike_ask fun _ _ _ hr ↦ hr.field? i name.text).bind fun field ↦ ?_
    cases field with
    | some v => exact alike_pure v
    | none =>
      refine (alike_ask fun _ _ _ hr ↦ hr.classOf? i).bind fun c ↦ ?_
      cases c with
      | some c => exact alike_boundMethod c i name
      | none => exact alike_fail .notAnInstance not_false _
  | _ => exact alike_fail .notAnInstance not_false _

theorem alike_setProperty (i : Nat) (name : Ident) (v : Value) :
    AlikeIn ρ use marks (setProperty i name v) (setProperty i name v) :=
  alike_change (fun h ↦ h.growsTo_setField i name.text v) fun _ _ _ hr ↦
    ⟨rfl, hr.setField i name.text v⟩

theorem alike_requireInstance (object : Value) (name : Ident) :
    AlikeIn ρ use marks (requireInstance object name) (requireInstance object name) := by
  cases object with
  | instanceRef i => exact alike_pure i
  | _ => exact alike_fail .notAnInstance not_false _

/-- A use of `super` is not renamed, so that all of its errors are the same. -/
theorem alike_superMethod {id : Nat} (hid : id ∉ ρ.uses) (line : Nat) (method : Ident) :
    AlikeIn ρ (some id) marks (superMethod id line method) (superMethod id line method) := by
  have hsame (e : RuntimeError) : e.RenamesTo ρ (some id) e := .of_not_mem hid e
  refine alike_distanceOf_bind ?_
  cases ρ.distances.find? id with
  | none => exact alike_throw (.fault (hsame _))
  | some distance =>
    have hsuper : AlikeIn ρ (some id) marks (readAt distance .super line)
        (readAt distance .super line) := alike_readAt distance (hsame _)
    have hthis : AlikeIn ρ (some id) marks (readAt (distance - 1) .this line)
        (readAt (distance - 1) .this line) := alike_readAt _ (hsame _)
    refine hsuper.bind fun superclass ↦ ?_
    cases superclass with
    | classRef c =>
      refine hthis.bind fun receiver ↦ ?_
      cases receiver with
      | instanceRef i => exact alike_boundMethod c i method
      | _ => exact alike_fail .notAnInstance not_false _
    | _ => exact alike_throw (.fault (hsame _))

end Run

end LexScript
