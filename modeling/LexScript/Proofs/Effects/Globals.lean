import LexScript.Proofs.Effects.Additions
import LexScript.Proofs.Watching.Heaps
import Mathlib.Data.Set.Insert

/-!
# Names of globals

A name is bound in the frame that is in scope, so a run binds names in the globals only while these
are in scope: at the top level of the program, and in branches and loops there, which declare
nothing. Blocks and calls have frames of their own, and an assignment finds the name that it
changes. So the names of the globals after a run are those from before and names that the program
declares at its top level, and all of these if the run succeeds.

## Main definitions

* `Heap.globalNames`, `namesDeclared` : the names of the globals and those that a program declares.
* `Run.KeepsGlobalNames` : an action that adds no name to the globals.
* `Run.Declares` : an action that binds a name if it succeeds.

## Main statements

* `Expr.keepsGlobalNames_eval`, `keepsGlobalNames_callAt`, `Stmt.keepsGlobalNames_exec` : what adds
  no name to the globals.
* `globalNames_run` : the names of the globals after a run.
-/

namespace LexScript

open Run

/-- The names that are bound in the globals. -/
def Heap.globalNames (h : Heap) : Set Name := {x | h.frames.binds Frames.globals x = true}

/-- The names that a program declares at its top level. -/
def namesDeclared (program : List Stmt) : Set Name :=
  {x | ∃ text ∈ declaredNames program, x = .ident text}

theorem mem_namesDeclared_iff {program : List Stmt} {x : Name} :
    x ∈ namesDeclared program ↔ ∃ s ∈ program, ∃ y ∈ s.declared?, x = y.name := by
  constructor
  · rintro ⟨text, htext, rfl⟩
    obtain ⟨s, hs, htext⟩ := List.mem_filterMap.1 htext
    obtain ⟨y, hy, rfl⟩ := Option.map_eq_some_iff.1 htext
    exact ⟨s, hs, y, hy, rfl⟩
  · rintro ⟨s, hs, y, hy, rfl⟩
    exact ⟨y.text, List.mem_filterMap.2 ⟨s, hs, Option.map_eq_some_iff.2 ⟨y, hy, rfl⟩⟩, rfl⟩

theorem Heap.GrowsTo.globalNames_subset {h h' : Heap} (hg : h.GrowsTo h') :
    h.globalNames ⊆ h'.globalNames := fun x hx ↦ hg.binds Frames.globals x hx

/-! ### What adds no name -/

/-- Code of any kind, and some names. -/
def Additions.naming (names : Set Name) : Additions := ⟨fun _ ↦ True, (· ∈ names)⟩

variable {names : Set Name} {turns : Nat} {m : Machine}

theorem Additions.admits_naming (parts : List Occurrence) :
    (Additions.naming names).Admits parts := fun _ _ ↦ trivial

theorem Closure.isMadeOf_naming (c : Closure) : c.IsMadeOf (.naming names) := by
  refine ⟨.method "init" false, [], fun _ ↦ ⟨false, rfl⟩, Additions.admits_naming _⟩

theorem Heap.isMadeOf_naming (h : Heap) : h.IsMadeOf (.naming names) :=
  ⟨fun _ c _ ↦ c.isMadeOf_naming, fun _ _ _ _ method _ ↦ method.isMadeOf_naming⟩

namespace Run

variable {α β : Type} {p : Run α}

/-- However an action ends that is run on a machine, the names of the globals are those from
before. -/
def KeepsGlobalNames (p : Run α) (m : Machine) : Prop :=
  (machineOf (p m)).heap.globalNames = m.heap.globalNames

/-- Only the names that may be added are new. -/
theorem AddsOnly.globalNames_subset {P : α → Prop}
    (hp : AddsOnly (.naming names) m.current P p) (hglobals : Frames.globals < m.heap.frames.size) :
    (machineOf (p m)).heap.globalNames ⊆ m.heap.globalNames ∪ names :=
  fun _ hx ↦ (hp.addsTo_machineOf ⟨hglobals, m.heap.isMadeOf_naming, rfl⟩).heap.binds_globals hx

/-- An action that adds no name and takes none away. -/
theorem AddsOnly.keepsGlobalNames {P : α → Prop} (hp : AddsOnly (.naming ∅) m.current P p)
    (hsettles : p.Settles) (hglobals : Frames.globals < m.heap.frames.size) :
    p.KeepsGlobalNames m := by
  have hsubset := hp.globalNames_subset hglobals
  rw [Set.union_empty] at hsubset
  exact hsubset.antisymm (hsettles.machineOf m).heap.globalNames_subset

end Run

section

variable (hglobals : Frames.globals < m.heap.frames.size) (level : Nat)
include hglobals

theorem Expr.keepsGlobalNames_eval (e : Expr) :
    (e.eval (callAt turns level) turns).KeepsGlobalNames m :=
  (e.adds_eval (adds_callAt turns level) (Additions.admits_naming (e.parts []))).keepsGlobalNames
    (e.settles_eval (settles_callAt turns level)) hglobals

theorem keepsGlobalNames_callAt (v : Value) (vs : List Value) (line : Nat) :
    (callAt turns level v vs line).KeepsGlobalNames m :=
  AddsOnly.keepsGlobalNames (adds_callAt turns level m.current v vs line)
    (settles_callAt turns level v vs line) hglobals

/-- Only names that it declares itself are new in the globals when a statement is executed, and
only if these are in scope. -/
theorem Stmt.globalNames_exec_subset {s : Stmt} (hs : m.current = Frames.globals → s.IsPlain)
    (hnames : m.current = Frames.globals → ∀ x ∈ s.declared?, x.name ∈ names) :
    (machineOf (s.exec (callAt turns level) turns m)).heap.globalNames ⊆
      m.heap.globalNames ∪ names := by
  have hdeclares : s.DeclaresIn (.naming names) m.current := fun h ↦ ⟨hs h, hnames h⟩
  exact (s.adds_exec (adds_callAt turns level) (Additions.admits_naming (s.parts [])) hdeclares
    ).globalNames_subset hglobals

/-- A statement that declares nothing adds no name to the globals, and neither does one inside of a
block or a function. -/
theorem Stmt.keepsGlobalNames_exec {s : Stmt} (hs : m.current = Frames.globals → s.IsPlain)
    (hdeclares : m.current ≠ Frames.globals ∨ s.declared? = none) :
    (s.exec (callAt turns level) turns).KeepsGlobalNames m := by
  have hdeclaresIn : s.DeclaresIn (.naming ∅) m.current := by
    refine fun h ↦ ⟨hs h, fun x hx ↦ ?_⟩
    rw [hdeclares.resolve_left (not_not_intro h)] at hx
    cases hx
  exact (s.adds_exec (adds_callAt turns level) (Additions.admits_naming (s.parts []))
    hdeclaresIn).keepsGlobalNames (s.settles_exec (settles_callAt turns level)) hglobals

end

/-! ### What a run declares -/

namespace Run

variable {α β : Type}

/-- An action that binds a name in the frame in scope if it succeeds. -/
def Declares (x : Name) (p : Run α) : Prop :=
  ∀ m a m', m.current < m.heap.frames.size → p m = .ok a m' →
    m'.heap.frames.binds m.current x = true

theorem declares_define (x : Name) (v : Value) : (define x v).Declares x := by
  intro m a m' hcurrent h
  obtain ⟨-, rfl⟩ := EStateM.Result.ok.inj h
  rw [Frames.binds_iff]
  exact ⟨v, (m.heap.frames.find?_define m.current x v m.current x).trans
    (if_pos ⟨rfl, rfl, hcurrent⟩)⟩

/-- A name that is bound later. -/
theorem Declares.after {x : Name} {p : Run α} {q : α → Run β} (hp : p.Settles)
    (hq : ∀ a, (q a).Declares x) : (p >>= q).Declares x := by
  intro m b m' hcurrent h
  obtain ⟨a, m₁, hpm, hqm⟩ := eq_ok_of_bind h
  have hsettles := hp.of_eq_ok hpm
  rw [← hsettles.current] at hcurrent ⊢
  exact hq a m₁ b m' (Nat.lt_of_lt_of_le hcurrent hsettles.heap.frames) hqm

/-- A name that was bound before. -/
theorem Declares.before {x : Name} {p : Run α} {q : α → Run β} (hp : p.Declares x)
    (hq : ∀ a, (q a).Settles) : (p >>= q).Declares x := by
  intro m b m' hcurrent h
  obtain ⟨a, m₁, hpm, hqm⟩ := eq_ok_of_bind h
  exact ((hq a).of_eq_ok hqm).heap.binds _ _ (hp m a m₁ hcurrent hpm)

end Run

/-- A declaration that succeeds binds its name. -/
theorem Stmt.declares_exec {call : Call} (hcall : CallSettles call) {s : Stmt} {x : Ident}
    (hx : s.declared? = some x) : (s.exec call turns).Declares x.name := by
  have hnext (_ : Unit) : (pure Flow.next : Run Flow).Settles := settles_pure _
  cases s with
  | varDecl name value =>
    cases hx
    cases value with
    | none =>
      rw [Stmt.exec]
      exact (declares_define _ _).before hnext
    | some value =>
      rw [Stmt.exec]
      exact .after (value.settles_eval hcall) fun v ↦ (declares_define _ v).before hnext
  | funDecl decl =>
    cases hx
    rw [Stmt.exec]
    have hdecl : (declareFunction decl).Declares decl.name.name :=
      .after settles_currentFrame fun _ ↦ .after (settles_newFunction _) (declares_define _)
    exact hdecl.before hnext
  | classDecl name superclass methods =>
    cases hx
    rw [Stmt.exec]
    have hclass : (declareClass x superclass methods).Declares x.name :=
      .after settles_currentFrame fun outer ↦ .after (settles_classRecord outer _ _ _) fun record ↦
        .after (settles_change fun heap ↦ heap.growsTo_newClass record) (declares_define _)
    exact hclass.before hnext
  | _ => cases hx

/-- Executing a program to its end binds all names that it declares. -/
theorem namesDeclared_subset_executeProgram {program : List Stmt} {m m' : Machine}
    (hcurrent : m.current = Frames.globals) (hglobals : Frames.globals < m.heap.frames.size)
    (h : executeProgram turns program m = .ok () m') :
    namesDeclared program ⊆ m'.heap.globalNames := by
  induction program generalizing m with
  | nil =>
    rintro x ⟨text, htext, -⟩
    cases htext
  | cons first rest ih =>
    obtain ⟨flow, m₁, hfirst, hrest⟩ := eq_ok_of_bind h
    have hcall := settles_callAt turns enoughLevels
    have hsettles := (first.settles_exec hcall).of_eq_ok hfirst
    intro x hx
    obtain ⟨s, hs, y, hy, rfl⟩ := mem_namesDeclared_iff.1 hx
    rcases List.mem_cons.1 hs with rfl | hmem
    · have hbinds := Stmt.declares_exec hcall hy m flow m₁ (hcurrent ▸ hglobals) hfirst
      rw [hcurrent] at hbinds
      exact ((settles_executeProgram turns rest).of_eq_ok hrest).heap.binds _ _ hbinds
    · exact ih (hsettles.current.trans hcurrent)
        (Nat.lt_of_lt_of_le hglobals hsettles.heap.frames) hrest
        (mem_namesDeclared_iff.2 ⟨s, hmem, y, hy, rfl⟩)

/-! ### The names of the globals after a run -/

variable {s : Session} {source : String}

section

variable (hs : s.Reachable) (hread : (readSource s.nextId source).errors = [])
  (hresolve : (resolveProgram (readSource s.nextId source).program).errors = []) (turns : Nat)
include hs hread hresolve

/-- New names of globals are declared in the source that is run. -/
theorem Session.Reachable.globalNames_run_subset :
    (s.run turns source).2.machine.heap.globalNames ⊆
      s.machine.heap.globalNames ∪ namesDeclared (readSource s.nextId source).program := by
  have hheap : s.machine.heap.IsMadeOf
      (.naming (namesDeclared (readSource s.nextId source).program)) := Heap.isMadeOf_naming _
  have hadds := hs.addsTo_run hheap hread hresolve (Additions.admits_naming _)
    (fun st hst y hy ↦ mem_namesDeclared_iff.2 ⟨st, hst, y, hy, rfl⟩) turns
  exact fun x hx ↦ hadds.heap.binds_globals hx

/-- The names of the globals stay, and those that the source declares are there if it succeeds. -/
theorem Session.Reachable.subset_globalNames_run :
    s.machine.heap.globalNames ⊆ (s.run turns source).2.machine.heap.globalNames ∧
      ((s.run turns source).1 = .finished →
        namesDeclared (readSource s.nextId source).program ⊆
          (s.run turns source).2.machine.heap.globalNames) := by
  have hm := hs.isMadeOf (A := .naming ∅) (Heap.isMadeOf_naming _)
  cases h : readSource s.nextId source with
  | mk errors program n =>
    rw [h] at hread hresolve
    subst hread
    rw [run_eq h hresolve]
    refine ⟨?_, fun hfinished ↦ ?_⟩
    · exact ((settles_executeProgram turns program).machineOf
        (s.machineFor program)).heap.globalNames_subset
    · cases hend : executeProgram turns program (s.machineFor program) with
      | ok u m' =>
        exact namesDeclared_subset_executeProgram (m := s.machineFor program) hm.current hm.globals
          hend
      | error e m' =>
        rw [hend] at hfinished
        cases e <;> cases hfinished

end

/-- Only declarations at the top level create globals. A run of an accepted source takes no name
from the globals and adds only names that the source declares there, all of them if it succeeds. At
each moment of the run, however it goes on from there, evaluating an expression, calling a value or
executing a statement adds no name to the globals, unless the statement is a declaration and the
globals are in scope; and a declaration adds its own name at most. -/
theorem globalNames_run (hs : s.Reachable) (hread : (readSource s.nextId source).errors = [])
    (hresolve : (resolveProgram (readSource s.nextId source).program).errors = []) (turns : Nat) :
    let declared := namesDeclared (readSource s.nextId source).program
    let after := s.run turns source
    s.machine.heap.globalNames ⊆ after.2.machine.heap.globalNames ∧
    after.2.machine.heap.globalNames ⊆ s.machine.heap.globalNames ∪ declared ∧
    (after.1 = .finished →
      after.2.machine.heap.globalNames = s.machine.heap.globalNames ∪ declared) ∧
    ∀ moment : Moment, moment.OccursIn s turns source →
      moment.machine.heap.globalNames ⊆ s.machine.heap.globalNames ∪ declared ∧
      ∀ level,
        (∀ e, moment.task = .expr e →
          (e.eval (callAt turns level) turns).KeepsGlobalNames moment.machine) ∧
        (∀ v vs line, moment.task = .call v vs line →
          (callAt turns level v vs line).KeepsGlobalNames moment.machine) ∧
        (∀ st, moment.task = .stmt st →
          moment.machine.current ≠ Frames.globals ∨ st.declared? = none →
          (st.exec (callAt turns level) turns).KeepsGlobalNames moment.machine) ∧
        ∀ st x, moment.task = .stmt st → st.declared? = some x →
          (machineOf (st.exec (callAt turns level) turns moment.machine)).heap.globalNames ⊆
            moment.machine.heap.globalNames ∪ {x.name} := by
  intro declared after
  have hsubset := hs.globalNames_run_subset hread hresolve turns
  obtain ⟨hkept, hall⟩ := hs.subset_globalNames_run hread hresolve turns
  refine ⟨hkept, hsubset, fun hfinished ↦ hsubset.antisymm (Set.union_subset hkept
    (hall hfinished)), fun moment h ↦ ⟨h.growsTo.globalNames_subset.trans hsubset, fun level ↦ ?_⟩⟩
  have hglobals := h.isInOrder.inOrder.tells.globals
  have hplain {st : Stmt} (htask : moment.task = .stmt st) : st.IsPlain := by
    have hlies := h.isInOrder.liesIn
    rw [htask] at hlies
    exact hlies.1
  refine ⟨fun e _ ↦ e.keepsGlobalNames_eval hglobals level, fun v vs line _ ↦
    keepsGlobalNames_callAt hglobals level v vs line, fun st htask hst ↦
    Stmt.keepsGlobalNames_exec hglobals level (fun _ ↦ hplain htask) hst,
    fun st x htask hx ↦ Stmt.globalNames_exec_subset hglobals level (fun _ ↦ hplain htask) ?_⟩
  rintro - y hy
  rw [hx] at hy
  cases hy
  rfl

/-- A variable of a block is not one of the globals. -/
theorem globalNames_run_block :
    let s := Session.start .unlimited (.running 0)
    let source := "var a = 1; { var b = 2; }"
    (s.run 1 source).1 = .finished ∧
      (s.run 1 source).2.machine.heap.globalNames = s.machine.heap.globalNames ∪ {.ident "a"} := by
  intro s source
  have hread : (readSource s.nextId source).errors = [] := by decide +kernel
  have hresolve : (resolveProgram (readSource s.nextId source).program).errors = [] := by
    decide +kernel
  have hfinished : (s.run 1 source).1 = .finished := by decide +kernel
  have hnames : declaredNames (readSource s.nextId source).program = ["a"] := by decide +kernel
  have hdeclared : namesDeclared (readSource s.nextId source).program = {.ident "a"} := by
    ext x
    simp [namesDeclared, hnames]
  have hrun := (globalNames_run (.start _ _) hread hresolve 1).2.2.1 hfinished
  rw [hdeclared] at hrun
  exact ⟨hfinished, hrun⟩

end LexScript
