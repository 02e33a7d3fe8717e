import LexScript.Proofs.Renaming.Steps

/-!
# Functions and classes of renamed programs

A function or a class that a program declares lies in the same frame as the one that the renamed
program declares, and its code becomes the other code inside the scopes of the frames around it. The
frames that bind `this` and `super` are not marked.

## Main statements

* `Run.alike_declareFunction`, `Run.alike_declareClass`, `Run.alike_declareSubclass` : declarations
  do the same.
-/

namespace LexScript

variable {ρ : Renaming} {use : Option Nat} {σ : Nat → Bool} {marks : List Bool} {m m' : Machine}

namespace Run

/-! ### Functions -/

/-- A new frame inside frames with the given marks. -/
theorem hasMarks_newFrame {h : Heap} {outer : Nat} (hmarks : h.frames.HasMarks σ marks outer)
    (mark : Bool) : (h.newFrame outer).2.frames.HasMarks
      (Function.update σ h.frames.size mark) (mark :: marks) h.frames.size := by
  refine ⟨Function.update_self .., outer, ?_, hmarks.mono (.newFrame h σ outer mark)⟩
  exact (Frames.enclosing?_push _ _ _).trans (if_pos rfl)

/-- A function that is created in scope lies in the frame in scope. -/
theorem alike_newFunction {c c' : Nat → Closure} (hframe : ∀ f, (c f).frame = f)
    (hc : ∀ f, (c f).RenamesTo ρ marks (c' f)) :
    AlikeIn ρ use marks (currentFrame >>= fun f ↦ newFunction (c f))
      (currentFrame >>= fun f ↦ newFunction (c' f)) := by
  intro σ m m' hr hin
  have hin' : (c m.current).RenamesIn ρ m.heap.frames σ [] (c' m.current) :=
    ⟨marks, (hframe m.current).symm ▸ hin, hc m.current⟩
  have hnew := hr.withHeap (hr.heap.newFunction hin')
  rw [bind_apply, bind_apply]
  simp only [currentFrame, hr.current, newFunction, change, Heap.newFunction,
    hr.heap.size_functions]
  exact .ok ⟨⟨rfl, rfl, rfl, m.heap.growsTo_newFunction _⟩, σ, fun _ _ ↦ rfl,
    { hnew with current := rfl }⟩

theorem alike_declareFunction {f f' : FunctionDecl}
    (hname : ρ.ident (marks.headD false) f.name = f.name) (hf : f.RenamesTo ρ marks f') :
    AlikeIn ρ use marks (declareFunction f) (declareFunction f') := by
  obtain ⟨mark, hparams, hbody⟩ := hf.exists_mark
  have hdefine (v : Value) :
      AlikeIn ρ use marks (define f.name.name v) (define f'.name.name v) := by
    have hdefine : AlikeIn ρ use marks (define f.name.name v)
        (define (ρ.ident (marks.headD false) f.name).name v) := alike_define f.name v
    rw [hname] at hdefine
    rw [hf.name]
    exact hdefine
  have hnew : AlikeIn ρ use marks
      (currentFrame >>= fun frame ↦
        newFunction ⟨some f.name.text, f.params, f.body, frame, false⟩)
      (currentFrame >>= fun frame ↦
        newFunction ⟨some f'.name.text, f'.params, f'.body, frame, false⟩) :=
    alike_newFunction (fun _ ↦ rfl) fun _ ↦ ⟨by rw [hf.name], rfl, rfl, mark, hparams, hbody⟩
  have hdeclare (f : FunctionDecl) : declareFunction f = ((currentFrame >>= fun frame ↦
      newFunction ⟨some f.name.text, f.params, f.body, frame, false⟩) >>=
        fun v ↦ define f.name.name v) := by
    rw [bind_assoc]
    rfl
  rw [hdeclare, hdeclare]
  exact hnew.bind hdefine

/-! ### Classes -/

theorem alike_readSuperclass {id : Nat} {x : Ident} (hx : ρ.Allows marks id x.name) :
    AlikeIn ρ (some id) marks (readSuperclass ⟨id, x⟩)
      (readSuperclass ⟨id, ρ.ident (ρ.reaches marks id) x⟩) := by
  refine (alike_readName hx x.line).bind fun v ↦ ?_
  cases v with
  | classRef c => exact alike_pure c
  | _ => exact alike_throw (.fault hx.invalidSuperclass)

/-- A table of methods inside a frame; each will lie in a frame that binds `this`. -/
theorem rel_find?_methodTable {fs : Frames Value} {f : Nat} (hf : fs.HasMarks σ marks f)
    {methods methods' : List FunctionDecl}
    (h : RenamesMethodsTo ρ (false :: marks) methods methods') (name : String) :
    Option.Rel (Closure.RenamesIn ρ fs σ [false]) ((methodTable f methods).find? name)
      ((methodTable f methods').find? name) := by
  have hfold (table table' : Bindings String Closure)
      (htable : Option.Rel (Closure.RenamesIn ρ fs σ [false]) (table.find? name)
        (table'.find? name)) :
      Option.Rel (Closure.RenamesIn ρ fs σ [false])
        ((methods.foldl (addMethod f) table).find? name)
        ((methods'.foldl (addMethod f) table').find? name) := by
    induction methods generalizing methods' table table' with
    | nil =>
      cases h
      exact htable
    | cons method methods ih =>
      cases h with
      | @cons _ _ method' _ methods' hfirst hothers =>
        refine ih hothers _ _ ?_
        rw [addMethod, addMethod, Bindings.find?_put, Bindings.find?_put, hfirst.name]
        split
        · exact .some ⟨marks, hf, rfl, rfl, hfirst.isInitializer, hfirst.exists_mark⟩
        · exact htable
  exact hfold .empty .empty .none

/-- A class is created and bound under its name, which is not renamed. -/
theorem reachAlike_newClass {h h' : Heap} {record record' : ClassRecord} {x : Ident}
    (hr : m.RenamesTo ρ σ m') (hin : m.heap.frames.HasMarks σ marks m.current)
    (hname : ρ.ident (marks.headD false) x = x) {σ₁ : Nat → Bool} (hgrows : m.heap.GrowsTo h)
    (hmarks : ∀ f < m.heap.frames.size, σ₁ f = σ f) (hheap : h.RenamesTo ρ σ₁ h')
    (hrecord : record.RenamesIn ρ h.frames σ₁ record') :
    ReachAlike ρ σ m
      { m with heap := (h.newClass record).2.define m.current x.name (.classRef h.classes.size) }
      { m' with
        heap := (h'.newClass record').2.define m'.current x.name (.classRef h'.classes.size) } := by
  have hcurrent := (hin.mono ⟨hmarks, hgrows.enclosing⟩).headD hheap.globals
  have hx : ρ.name (σ₁ m.current) x.name = x.name := by
    rw [← hcurrent, ← Renaming.name_ident, hname]
  have hdefine := (hheap.newClass hrecord).define m.current x.name (.classRef h.classes.size)
  rw [hx] at hdefine
  have hsettles := hgrows.trans <| (h.growsTo_newClass record).trans <|
    Heap.growsTo_define _ m.current x (.classRef h.classes.size)
  rw [hheap.size_classes, hr.current]
  exact ⟨⟨rfl, rfl, rfl, hsettles⟩, σ₁, hmarks, { hr.withHeap hdefine with current := rfl }⟩

theorem alike_declareClass {x : Ident} {methods methods' : List FunctionDecl}
    (hname : ρ.ident (marks.headD false) x = x)
    (h : RenamesMethodsTo ρ (false :: marks) methods methods') :
    AlikeIn ρ use marks (declareClass x none methods) (declareClass x none methods') := by
  intro σ m m' hr hin
  have hrecord : ClassRecord.RenamesIn ρ m.heap.frames σ
      ⟨x.text, none, methodTable m.current methods⟩
      ⟨x.text, none, methodTable m'.current methods'⟩ :=
    ⟨rfl, rfl, hr.current ▸ rel_find?_methodTable hin h⟩
  have hreach := reachAlike_newClass hr hin hname (.refl _) (fun _ _ ↦ rfl) hr.heap hrecord
  rw [Watched.declareClass_none_apply, Watched.declareClass_none_apply]
  exact .ok hreach

theorem alike_declareSubclass {x y : Ident} {id : Nat} {methods methods' : List FunctionDecl}
    (hname : ρ.ident (marks.headD false) x = x) (hy : ρ.Allows marks id y.name)
    (h : RenamesMethodsTo ρ (false :: false :: marks) methods methods') :
    AlikeIn ρ (some id) marks (declareClass x (some ⟨id, y⟩) methods)
      (declareClass x (some ⟨id, ρ.ident (ρ.reaches marks id) y⟩) methods') := by
  intro σ m m' hr hin
  have hread := alike_readSuperclass hy σ m m' hr hin
  rw [Watched.declareClass_some_apply, Watched.declareClass_some_apply]
  generalize readSuperclass ⟨id, y⟩ m = r at hread
  generalize readSuperclass ⟨id, ρ.ident (ρ.reaches marks id) y⟩ m' = r' at hread
  cases hread with
  | error he hreach => exact .error he hreach
  | @ok c m₁ m₁' hreach =>
    obtain ⟨hs, σ₁, hmarks, hr₁⟩ := hreach
    have hin₁ := hasMarks_of_settlesTo hs hmarks hin
    -- The frame that binds `super` is not marked.
    have hheap := (hr₁.heap.newFrame m.current false).define m₁.heap.frames.size .super
      (.classRef c)
    have hgrows := m₁.heap.growsTo_newFrame_define m.current .super (.classRef c)
    have hframe : ((m₁.heap.newFrame m.current).2.define m₁.heap.frames.size .super
        (.classRef c)).frames.HasMarks (Function.update σ₁ m₁.heap.frames.size false)
        (false :: marks) m₁.heap.frames.size := by
      refine (hasMarks_newFrame (hs.current ▸ hin₁) false).mono ⟨fun _ _ ↦ rfl, fun f _ ↦ ?_⟩
      exact Frames.enclosing?_define ..
    have hrecord : ClassRecord.RenamesIn ρ _ _
        ⟨x.text, some c, methodTable m₁.heap.frames.size methods⟩
        ⟨x.text, some c, methodTable m₁.heap.frames.size methods'⟩ :=
      ⟨rfl, rfl, rel_find?_methodTable hframe h⟩
    have hmarks₁ := (MarksMore.newFrame m₁.heap σ₁ m.current false).marks
    have hreach := reachAlike_newClass hr₁ hin₁ hname hgrows hmarks₁ hheap hrecord
    dsimp only
    rw [hr₁.heap.size_frames, hr.current]
    exact .trans hs hmarks (.ok hreach)

end Run

end LexScript
