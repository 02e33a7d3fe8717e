import LexScript.Proofs.Renaming.Resolution
import LexScript.Proofs.Renaming.Runs
import LexScript.Proofs.Renaming.Sources
import LexScript.Proofs.Watching.Calls

/-!
# Running a source with a renamed variable

Scoping is lexical: a local variable may be renamed, together with the uses that name resolution has
bound to it, as long as its new name is not in the source. What was run before does not matter,
since no frame that it has left behind is marked. The renamed source is accepted, does the same and
ends in the same way, except that an error at a renamed use has the new name. The use at which an
error arises is the last one that was looked up, which a watched run tells.

## Main definitions

* `Session.Renames` : a source with a renamed variable.
* `Outcome.RenamesTo` : how a run of the renamed source ends.

## Main statements

* `WatchedSession.Reachable.renamesTo_machineFor` : a session is itself a renamed one before the
  run.
* `WatchedSession.Reachable.run_of_renames` : the renamed source is accepted and does the same.
-/

namespace LexScript

variable {ρ : Renaming}

/-! ### What was run before -/

theorem hasMarks_of_areOpen {h : Heap} {H : History} {display : List Activation}
    (hopen : AreOpen h H display) :
    h.frames.HasMarks (fun _ ↦ false) (display.map fun _ ↦ false) (innermostFrame display) := by
  induction display with
  | nil => rfl
  | cons a outer ih => exact ⟨rfl, _, hopen.1.encloses, ih hopen.2⟩

/-- Code that was created before, inside frames that are not marked, is renamed to itself. -/
theorem Closure.LiesIn.renamesIn_self {h : Heap} {H : History} {display : List Activation}
    {c : Closure} (hc : c.LiesIn h H display) (huses : ∀ l ∈ H.lookups, l.id ∉ ρ.uses) :
    c.RenamesIn ρ h.frames (fun _ ↦ false) [] c := by
  refine ⟨display.map fun _ ↦ false, hc.frame ▸ hasMarks_of_areOpen hc.isOpen, rfl, rfl, rfl, false,
    (Renaming.map_ident_false _).symm, ?_⟩
  exact renamesProgramTo_self _ (forall_cons_eq_false (by simp)) fun l hl ↦
    huses l (hc.accepted l hl)

theorem History.Tells.renamesTo_self {h : Heap} {H : History} (ht : H.Tells h)
    (houtermost : h.frames.enclosing? Frames.globals = none)
    (huses : ∀ l ∈ H.lookups, l.id ∉ ρ.uses) : h.RenamesTo ρ (fun _ ↦ false) h where
  globals_lt := ht.globals
  globals := rfl
  outermost := houtermost
  size_frames := rfl
  enclosing _ := rfl
  find f x := by rw [ρ.name_false]
  size_functions := rfl
  functions k := by
    cases hc : h.functions[k]? with
    | none => exact .none
    | some c =>
      have hk : k < H.functions.size := by
        rw [ht.size_functions]
        exact (Array.getElem?_eq_some_iff.1 hc).1
      have hlies := (ht.functions k c _ hc (Array.getElem?_eq_getElem hk)).liesIn
      exact .some (hlies.renamesIn_self huses)
  size_classes := rfl
  classes k := by
    cases hc : h.classes[k]? with
    | none => exact .none
    | some record =>
      have hk : k < H.classes.size := by
        rw [ht.size_classes]
        exact (Array.getElem?_eq_some_iff.1 hc).1
      have hcomes := ht.classes k record _ hc (Array.getElem?_eq_getElem hk)
      refine .some ⟨rfl, rfl, fun name ↦ ?_⟩
      rw [hcomes.methods]
      refine Run.rel_find?_methodTable (hasMarks_of_areOpen hcomes.isOpen) ?_ name
      exact renamesMethodsTo_self _ (forall_cons_eq_false (by simp)) fun l hl ↦
        huses l (hcomes.accepted l hl)
  instances := rfl

/-- Before a program is run of which some uses are renamed, nothing in a session is renamed. -/
theorem WatchedSession.Reachable.renamesTo_machineFor {w : WatchedSession} (hw : w.Reachable)
    (huses : ∀ id ∈ ρ.uses, w.session.nextId ≤ id) {program : List Stmt}
    (hdistances : (w.session.machineFor program).distances = ρ.distances) :
    (w.session.machineFor program).RenamesTo ρ (fun _ ↦ false) (w.session.machineFor program) := by
  have houtermost := hw.session.outermost.2
  have hearlier (l : Lookup) (hl : l ∈ w.history.lookups) : l.id ∉ ρ.uses := fun hid ↦
    absurd (hw.isInOrder.lookups l hl) (Nat.not_lt.2 (huses l.id hid))
  exact ⟨hw.isInOrder.inOrder.tells.renamesTo_self houtermost hearlier, rfl, rfl, hdistances,
    hdistances, rfl, rfl⟩

/-! ### The renamed source -/

/-- The same findings of name resolution are recorded alike. -/
theorem Distances.recordAll_congr {uses uses' : List NameUse}
    (h : uses'.map NameUse.finding = uses.map NameUse.finding) (d : Distances) :
    d.recordAll uses' = d.recordAll uses := by
  induction uses generalizing uses' d with
  | nil => rw [List.map_eq_nil_iff.1 h]
  | cons use uses ih =>
    obtain ⟨use', uses', rfl, hfirst, hothers⟩ := List.map_eq_cons_iff.1 h
    injection hfirst with hid hdistance
    rw [recordAll_cons, recordAll_cons, hid, hdistance]
    exact ih hothers _

/-- What name resolution has found about an accepted program is recorded for it. -/
theorem Session.Reachable.find?_machineFor {s : Session} (hs : s.Reachable) {source : String}
    {program : List Stmt} {m : Nat} (hread : readSource s.nextId source = ⟨[], program, m⟩)
    (hresolve : (resolveProgram program).errors = []) :
    ∀ use ∈ (resolveProgram program).uses,
      (s.machineFor program).distances.find? use.id = use.distance := by
  obtain ⟨hplain, hfresh⟩ := WatchedSession.plain_fresh_of_readSource hread
  intro use huse
  rw [Session.machineFor]
  dsimp only
  rw [(uses_resolveProgram hplain hresolve).1] at huse ⊢
  obtain ⟨l, hl, rfl⟩ := List.mem_map.1 huse
  exact WatchedSession.find?_recordAll_lookups hfresh.nodup
    (fun l' hl' ↦ hs.isTidy.distances _ (hfresh.within l' hl').1) hl

/-- A session accepts a source if it finds no error without running it. -/
def Session.Accepts (s : Session) (source : String) : Prop :=
  (readSource s.nextId source).errors = [] ∧
    (resolveProgram (readSource s.nextId source).program).errors = []

instance (s : Session) (source : String) : Decidable (s.Accepts source) :=
  inferInstanceAs (Decidable (_ ∧ _))

/-- What renames `x` to `y` in a source, which becomes another one: with the distances that a
session records for its uses, and with those uses that are of `y` in the other source. -/
def Session.renaming (s : Session) (x y source source' : String) : Renaming where
  old := x
  new := y
  distances := (s.machineFor (readSource s.nextId source).program).distances
  uses := ((resolveProgram (readSource s.nextId source').program).uses.filter
    (·.name = .ident y)).map NameUse.id

/-- In a source that a session accepts, a local variable `x` gets the name `y`, which is not in the
source. -/
structure Session.Renames (s : Session) (x y source source' : String) : Prop where
  accepts : s.Accepts source
  isNew : ∀ item ∈ scan source, item.name? ≠ some y
  items : List.Forall₂ (Item.RenamesTo x y) (scan source) (scan source')
  programs : RenamesProgramTo (s.renaming x y source source') []
    (readSource s.nextId source).program
    (readSource s.nextId source').program

/-- How the run of a renamed source ends, by what was looked up last. -/
inductive Outcome.RenamesTo (ρ : Renaming) (use : Option Nat) : Outcome → Outcome → Prop where
  | finished : Outcome.RenamesTo ρ use .finished .finished
  | stopped {e e' : RuntimeError} (h : e.RenamesTo ρ use e') :
      Outcome.RenamesTo ρ use (.stopped e) (.stopped e')
  | exhausted : Outcome.RenamesTo ρ use .exhausted .exhausted

variable {use : Option Nat}

theorem Outcome.RenamesTo.exitCode {outcome outcome' : Outcome}
    (h : outcome.RenamesTo ρ use outcome') : outcome'.exitCode = outcome.exitCode := by
  cases h <;> rfl

theorem Run.EndAlike.outcome {α : Type} {σ : Nat → Bool} {m : Machine}
    {r r' : EStateM.Result Stop Machine α} (h : Run.EndAlike ρ use σ m r r') :
    (Run.outcomeOf r).RenamesTo ρ use (Run.outcomeOf r') ∧
      (Run.machineOf r').sink = (Run.machineOf r).sink := by
  cases h with
  | ok h =>
    obtain ⟨-, σ₁, -, hr⟩ := h
    exact ⟨.finished, hr.sink⟩
  | error he h =>
    obtain ⟨-, σ₁, -, hr⟩ := h
    cases he with
    | fault he => exact ⟨.stopped he, hr.sink⟩
    | exhausted => exact ⟨.exhausted, hr.sink⟩

/-- The uses of the new name in the renamed source are those of the source that is read next. -/
theorem Session.nextId_le_of_mem_uses {s : Session} {x y source source' : String}
    {program' : List Stmt} {m : Nat} (hread' : readSource s.nextId source' = ⟨[], program', m⟩) :
    ∀ id ∈ (s.renaming x y source source').uses, s.nextId ≤ id := by
  have hderives' := @derives_of_readSource s.nextId source'
  rw [hread'] at hderives'
  intro id hid
  obtain ⟨use, huse, rfl⟩ := List.mem_map.1 hid
  rw [hread'] at huse
  exact (ids_of_uses (hderives' rfl) (List.mem_filter.1 huse).1).1

variable {w : WatchedSession} {x y source source' : String}

/-- A local variable of an accepted source may be renamed, with the uses that name resolution has
bound to it, to what the source has no name of. The source is accepted again, writes the same and
ends in the same way, except that an error about the name has the new name if it arises at a renamed
use, which is the one that was looked up last. -/
theorem WatchedSession.Reachable.run_of_renames (hw : w.Reachable)
    (h : w.session.Renames x y source source') (turns : Nat) :
    w.session.Accepts source' ∧
      (w.session.run turns source').2.machine.sink = (w.session.run turns source).2.machine.sink ∧
      (w.session.run turns source').1.exitCode = (w.session.run turns source).1.exitCode ∧
      (w.session.run turns source).1.RenamesTo (w.session.renaming x y source source')
        (lastLookup? (w.run turns source).2.moments) (w.session.run turns source').1 := by
  obtain ⟨⟨herrors, hresolve⟩, hnew, hitems, hprograms⟩ := h
  have hρ : (w.session.machineFor (readSource w.session.nextId source).program).distances =
    (w.session.renaming x y source source').distances := rfl
  cases hread : readSource w.session.nextId source with
  | mk errors program m =>
  rw [hread] at herrors hresolve hprograms hρ
  dsimp only at herrors hresolve hprograms hρ
  subst herrors
  obtain ⟨program', hread'⟩ := readSource_of_renamesTo hread hitems
  have huses : ∀ id ∈ (w.session.renaming x y source source').uses, w.session.nextId ≤ id :=
    Session.nextId_le_of_mem_uses hread'
  rw [hread'] at hprograms
  have hvariables := ne_of_mem_variables hread hnew
  obtain ⟨hresolve', hfindings⟩ := resolveProgram_of_renames hprograms hvariables hresolve
    fun use huse ↦ hρ ▸ hw.session.find?_machineFor hread hresolve use huse
  have hmachine : w.session.machineFor program' = w.session.machineFor program := by
    rw [Session.machineFor, Distances.recordAll_congr hfindings, Session.machineFor]
  have hend := (hprograms.alike_watchProgram turns) _ (w.watchFor program) _
    (hw.renamesTo_machineFor huses hρ) hw.session.current_eq_globals.1
  obtain ⟨houtcome, hsink⟩ := Run.EndAlike.outcome hend
  rw [erases_watchProgram] at houtcome hsink
  rw [Session.run_eq hread hresolve, Session.run_eq hread' hresolve', hmachine, Session.Accepts,
    hread', WatchedSession.run_eq hread hresolve]
  exact ⟨⟨rfl, hresolve'⟩, hsink, houtcome.exitCode, houtcome⟩

open Grammar in
/-- A block with a variable that its own initializer reads in a function. -/
theorem derives_ownInitializer (x : Ident) :
    Derives .nearest .declarations
      [sym .leftBrace 1, word .varWord 1, named x, sym .equal 1,
        word .funWord 1, sym .leftParen 1, sym .rightParen 1, sym .leftBrace 1,
        word .returnWord 1, named x, sym .semicolon 1, sym .rightBrace 1,
        sym .leftParen 1, sym .rightParen 1, sym .semicolon 1, sym .rightBrace 1] 0
      (.stmts [.block [.varDecl x (some (.call 2 (.lambda 1 1 [] [.returns 1 (some (.read 0 x))])
        1 []))]]) 3 := by
  have hbody : Derives .nearest .declarations
      (word .returnWord 1 :: ([named x] ++ [sym .semicolon 1]) ++ []) 0
      (.stmts [.returns 1 (some (.read 0 x))]) 1 :=
    .declarations (.statement (.returns (.someExpression (.value
      (Derives.operand .name).toLevels)))) .noDeclarations
  have hlambda : Derives .nearest .call
      (word .funWord 1 :: sym .leftParen 1 :: ([] ++ sym .rightParen 1 :: sym .leftBrace 1 ::
        ([word .returnWord 1, named x, sym .semicolon 1] ++ [sym .rightBrace 1]))) 0
      (.expr (.lambda 1 1 [] [.returns 1 (some (.read 0 x))])) 2 :=
    .operand (.lambda .noParameters (.block hbody))
  have hvalue : Derives .nearest .call
      ([word .funWord 1, sym .leftParen 1, sym .rightParen 1, sym .leftBrace 1,
        word .returnWord 1, named x, sym .semicolon 1, sym .rightBrace 1] ++
        sym .leftParen 1 :: ([] ++ [sym .rightParen 1])) 0
      (.expr (.call 2 (.lambda 1 1 [] [.returns 1 (some (.read 0 x))]) 1 [])) 3 :=
    .call hlambda .noArguments
  exact .declarations (.statement (.blockStmt (.block (.declarations
    (.varDecl (.varValue (.value hvalue.toLevels))) .noDeclarations)))) .noDeclarations

/-- A variable is renamed that its own initializer reads in a function, before it has a value. The
program is accepted, and its error has the new name. -/
theorem run_of_renames_own_initializer :
    let w := WatchedSession.start .unlimited (.running 0)
    let source := "{var a = fun () {return a;}();}"
    let source' := "{var b = fun () {return b;}();}"
    w.Reachable ∧ w.session.Renames "a" "b" source source' ∧
      (w.session.run 1 source).1 = .stopped ⟨.undefinedVariable "a", ⟨"a", 1⟩⟩ ∧
      (w.session.run 1 source').1 = .stopped ⟨.undefinedVariable "b", ⟨"b", 1⟩⟩ ∧
      w.session.Accepts source' ∧
      (w.session.run 1 source').2.machine.sink = (w.session.run 1 source).2.machine.sink ∧
      (w.session.run 1 source').1.exitCode = (w.session.run 1 source).1.exitCode ∧
      (w.session.run 1 source).1.RenamesTo (w.session.renaming "a" "b" source source')
        (lastLookup? (w.run 1 source).2.moments) (w.session.run 1 source').1 := by
  intro w source source'
  have hw : w.Reachable := .start _ _
  have hread : readSource w.session.nextId source = _ :=
    readSource_of_derives (by decide +kernel : scan _ = (_ ++ [⟨.endOfFile, 1⟩]).map .token)
      (derives_ownInitializer ⟨"a", 1⟩)
  have hread' : readSource w.session.nextId source' = _ :=
    readSource_of_derives (by decide +kernel : scan _ = (_ ++ [⟨.endOfFile, 1⟩]).map .token)
      (derives_ownInitializer ⟨"b", 1⟩)
  have hdistances : (w.session.machineFor (readSource w.session.nextId source).program).distances =
      ⟨#[some 1]⟩ := by
    rw [hread]
    rfl
  have h : w.session.Renames "a" "b" source source' := by
    refine ⟨by decide +kernel, by decide +kernel, by decide +kernel, ?_⟩
    rw [Session.renaming, hdistances, hread, hread']
    -- The block is marked, the body of the function is not.
    refine .cons (.block true (.cons (.varValue (.call (.lambda false ?_) .nil)) .nil)) .nil
    exact .cons (.returnValue (.read ⟨by decide, by decide +kernel⟩)) .nil
  exact ⟨hw, h, by decide +kernel, by decide +kernel, hw.run_of_renames h 1⟩

open Grammar in
/-- A block with a class whose superclass is a variable. -/
theorem derives_variableSuperclass (x : Ident) :
    Derives .nearest .declarations
      [sym .leftBrace 1, word .varWord 1, named x, sym .semicolon 1,
        word .classWord 1, named ⟨"A", 1⟩, sym .less 1, named x,
        sym .leftBrace 1, sym .rightBrace 1, sym .rightBrace 1] 0
      (.stmts [.block [.varDecl x none, .classDecl ⟨"A", 1⟩ (some ⟨0, x⟩) []]]) 1 :=
  .declarations (.statement (.blockStmt (.block (.declarations (.varDecl .varNil)
    (.declarations (.subclassDecl .noFunctions) .noDeclarations))))) .noDeclarations

/-- The error at the name of a superclass that is no class has the new name. -/
theorem invalidSuperclass_of_renames :
    let s := Session.start .unlimited (.running 0)
    let source := "{var x; class A < x {}}"
    let source' := "{var y; class A < y {}}"
    s.Renames "x" "y" source source' ∧
      (s.run 1 source).1 = .stopped ⟨.invalidSuperclass, ⟨"x", 1⟩⟩ ∧
      (s.run 1 source').1 = .stopped ⟨.invalidSuperclass, ⟨"y", 1⟩⟩ := by
  intro s source source'
  have hread : readSource s.nextId source = _ :=
    readSource_of_derives (by decide +kernel : scan _ = (_ ++ [⟨.endOfFile, 1⟩]).map .token)
      (derives_variableSuperclass ⟨"x", 1⟩)
  have hread' : readSource s.nextId source' = _ :=
    readSource_of_derives (by decide +kernel : scan _ = (_ ++ [⟨.endOfFile, 1⟩]).map .token)
      (derives_variableSuperclass ⟨"y", 1⟩)
  have hdistances : (s.machineFor (readSource s.nextId source).program).distances =
      ⟨#[some 0]⟩ := by
    rw [hread]
    rfl
  refine ⟨⟨by decide +kernel, by decide +kernel, by decide +kernel, ?_⟩, by decide +kernel,
    by decide +kernel⟩
  rw [Session.renaming, hdistances, hread, hread']
  refine .cons (.block true (.cons .varNil (.cons ?_ .nil))) .nil
  exact .subclassDecl rfl ⟨by decide, by decide +kernel⟩ .nil

end LexScript
