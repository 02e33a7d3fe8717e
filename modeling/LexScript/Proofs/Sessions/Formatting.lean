import LexScript.Proofs.Printing.RoundTrip
import LexScript.Proofs.Relabelling.Alike
import LexScript.Proofs.Sessions.Numbering

/-!
# Running what is printed for a program

The text that is printed for a program is read as a program that is the same when it is blank,
unless a literal is infinite. Both programs get new ids from a session, so that they do the same in
it. Only the lines in errors, and the ids and lines of functions in the heap, may differ.

## Main definitions

* `AgreeWhenBlank` : two ends that differ in ids and lines at most.

## Main statements

* `relabelProgram_blank_printProgram` : what is read again is the same when it is blank.
* `printing_preserves_runs` : the printed text does in a session what the source does.
-/

namespace LexScript

open Grammar Run

/-! ### Ends that are alike -/

/-- Two runs end in the same way and have written the same, with errors that differ in their lines
at most and machines that differ at most in ids, lines and distances. -/
structure AgreeWhenBlank (o o' : Outcome) (m m' : Machine) : Prop where
  outcome : o.relabel .blank = o'.relabel .blank
  exitCode : o.exitCode = o'.exitCode
  sink : m.sink = m'.sink
  machine : m.relabel .blank .empty = m'.relabel .blank .empty

@[simp] theorem Outcome.exitCode_relabel {ρ : Relabelling} (o : Outcome) :
    (o.relabel ρ).exitCode = o.exitCode := by
  cases o <;> rfl

/-- Outcomes and machines decide whether ends are alike. -/
theorem AgreeWhenBlank.of_eq {o o' : Outcome} {m m' : Machine}
    (h : o.relabel .blank = o'.relabel .blank)
    (h' : m.relabel .blank .empty = m'.relabel .blank .empty) : AgreeWhenBlank o o' m m' where
  outcome := h
  exitCode := by rw [← o.exitCode_relabel, h, Outcome.exitCode_relabel]
  sink := by
    have hsink : (m.relabel .blank .empty).sink = (m'.relabel .blank .empty).sink :=
      congrArg Machine.sink h'
    exact hsink
  machine := h'

/-- Programs that are the same when they are blank end alike in a session that knows the ids of
neither. -/
theorem Session.HasNewIds.agreeWhenBlank {s : Session} {p q : List Stmt} (hp : s.HasNewIds p)
    (hq : s.HasNewIds q) (hs : s.IsTidy) (h : relabelProgram .blank p = relabelProgram .blank q)
    (turns : Nat) :
    AgreeWhenBlank (outcomeOf (executeProgram turns p (s.machineFor p)))
      (outcomeOf (executeProgram turns q (s.machineFor q)))
      (machineOf (executeProgram turns p (s.machineFor p)))
      (machineOf (executeProgram turns q (s.machineFor q))) := by
  have hend := hp.end_eq hq hs h turns
  refine .of_eq ?_ ?_
  · rw [← outcomeOf_relabelEnd .blank .empty, hend, outcomeOf_relabelEnd]
  · rw [← machineOf_relabelEnd, hend, machineOf_relabelEnd]

/-! ### Programs that are read -/

/-- A program that a session reads gets new ids. -/
theorem Session.hasNewIds_of_readSource {s : Session} {source : String}
    (h : (readSource s.nextId source).errors = []) :
    s.HasNewIds (readSource s.nextId source).program :=
  ⟨(derives_of_readSource h).areDerived.nodup, (derives_of_readSource h).areDerived.le_of_mem⟩

theorem areUnsigned_of_readSource {firstId : Nat} {source : String}
    (h : (readSource firstId source).errors = []) :
    AreUnsigned (nodesOfProgram (readSource firstId source).program) :=
  (derives_of_readSource h).areDerived.unsigned

/-- A program that is read with other ids is the same when it is blank. -/
theorem relabelProgram_blank_readSource {firstId : Nat} {source : String}
    (h : (readSource firstId source).errors = []) (firstId' : Nat) :
    relabelProgram .blank (readSource firstId source).program =
      relabelProgram .blank (readSource firstId' source).program := by
  have hzero (n : Nat) : relabelProgram .blank (readSource n source).program =
      relabelProgram .blank (readSource 0 source).program := by
    rw [readSource_eq (errors_readSource h 0) n, relabelProgram_relabelProgram]
    rfl
  exact (hzero firstId).trans (hzero firstId').symm

/-- What is printed for a program without infinite literals is read without an error as a program
that is the same when it is blank. -/
theorem relabelProgram_blank_printProgram {firstId : Nat} {source : String}
    (h : (readSource firstId source).errors = [])
    (hfinite : isFiniteProgram (readSource firstId source).program = true) (firstId' : Nat) :
    let again := readSource firstId' (printProgram (readSource firstId source).program)
    again.errors = [] ∧ relabelProgram .blank again.program =
      relabelProgram .blank (readSource firstId source).program := by
  intro again
  have derives := derives_of_readSource h
  have spelled : AllSpelled (programKinds (readSource firstId source).program) := by
    refine derives.allSpelled (List.forall_mem_map.2 fun t ht ↦ ?_)
    exact isSpelled_of_scan ((List.takeWhile_sublist _).subset ht)
  obtain ⟨ts, line, hts, hscan⟩ := scan_printProgram spelled
  obtain ⟨program, m, derives', echoes⟩ := derives.rereads ts firstId' hts
  have hagain : again = ⟨[], program, m⟩ := readSource_of_derives hscan derives'
  rw [hagain]
  refine ⟨rfl, relabelProgram_blank _ _ ?_ derives'.areDerived.unsigned ?_⟩
  · rw [echoes.alike, hfinite]
  · exact areUnsigned_of_readSource h

/-! ### Sources that are run -/

/-- Two sources that are read as programs that are the same when they are blank end alike. -/
theorem Session.run_agreeWhenBlank {s : Session} (hs : s.IsTidy) {source source' : String}
    (hread : (readSource s.nextId source).errors = [])
    (hread' : (readSource s.nextId source').errors = [])
    (h : relabelProgram .blank (readSource s.nextId source).program =
      relabelProgram .blank (readSource s.nextId source').program) (turns : Nat) :
    AgreeWhenBlank (s.run turns source).1 (s.run turns source').1 (s.run turns source).2.machine
      (s.run turns source').2.machine := by
  have herrors := (resolveProgram_of_blank h).1
  by_cases hlegal : (resolveProgram (readSource s.nextId source).program).errors = []
  · have hlegal' : (resolveProgram (readSource s.nextId source').program).errors = [] := by
      rwa [hlegal, List.map_nil, eq_comm, List.map_eq_nil_iff] at herrors
    rw [run_eq (by rw [← hread]) hlegal, run_eq (by rw [← hread']) hlegal']
    exact (hasNewIds_of_readSource hread).agreeWhenBlank (hasNewIds_of_readSource hread') hs h turns
  · have hlegal' : (resolveProgram (readSource s.nextId source').program).errors ≠ [] := by
      intro hlegal'
      rw [hlegal', List.map_nil, List.map_eq_nil_iff] at herrors
      exact hlegal herrors
    rw [run_of_scopeErrors hread hlegal, run_of_scopeErrors hread' hlegal']
    -- The machines differ in the distances only, which name resolution has recorded.
    refine .of_eq ?_ rfl
    have hcomm : Diagnostic.relabel .blank ∘ Diagnostic.resolve =
        Diagnostic.resolve ∘ ScopeError.relabel .blank := rfl
    simp only [Outcome.relabel, List.map_map, hcomm]
    simp only [← List.map_map, herrors]

/-- In any session, a source that is read without an error and has no infinite literal ends as the
text does that is printed for it: with the same output, the same exit code, and the same errors
apart from their lines. It does not matter with which ids the source was read to be printed.

This is so as nothing that a session does depends on ids and lines, except that ids are told apart
and that lines are reported: two programs that differ only in these are resolved alike and end
alike, provided that the ids of each differ from one another and from those of earlier programs. -/
theorem printing_preserves_runs {s : Session} (hs : s.Reachable) (turns : Nat) :
    (∀ firstId source, (readSource firstId source).errors = [] →
      isFiniteProgram (readSource firstId source).program = true →
      let printed := printProgram (readSource firstId source).program
      AgreeWhenBlank (s.run turns printed).1 (s.run turns source).1 (s.run turns printed).2.machine
        (s.run turns source).2.machine) ∧
    ∀ p q, s.HasNewIds p → s.HasNewIds q → relabelProgram .blank p = relabelProgram .blank q →
      (resolveProgram p).errors.map (ScopeError.relabel .blank) =
        (resolveProgram q).errors.map (ScopeError.relabel .blank) ∧
      (resolveProgram p).uses.map (NameUse.relabel .blank) =
        (resolveProgram q).uses.map (NameUse.relabel .blank) ∧
      AgreeWhenBlank (outcomeOf (executeProgram turns p (s.machineFor p)))
        (outcomeOf (executeProgram turns q (s.machineFor q)))
        (machineOf (executeProgram turns p (s.machineFor p)))
        (machineOf (executeProgram turns q (s.machineFor q))) := by
  refine ⟨fun firstId source hread hfinite ↦ ?_, fun p q hp hq h ↦ ?_⟩
  · obtain ⟨hread', hblank⟩ := relabelProgram_blank_printProgram hread hfinite s.nextId
    rw [relabelProgram_blank_readSource hread s.nextId] at hblank
    exact s.run_agreeWhenBlank hs.isTidy hread' (errors_readSource hread _) hblank turns
  · obtain ⟨herrors, huses⟩ := resolveProgram_of_blank h
    exact ⟨herrors, huses, hp.agreeWhenBlank hq hs.isTidy h turns⟩

/-- A negation that fails, on another line after the function around it was printed; and a sum of
two variables, which have different ids in either program. -/
theorem printing_preserves_runs_negation :
    let s := Session.start .unlimited (.running 0)
    let source := "fun f(n) { return -n; } print f(nil);"
    let printed := printProgram (readSource 8 source).program
    let p := [Stmt.print 1 (.binary 2 .add 1 (.read 0 ⟨"a", 1⟩) (.read 1 ⟨"a", 1⟩))]
    let q := [Stmt.print 3 (.binary 7 .add 4 (.read 9 ⟨"a", 4⟩) (.read 5 ⟨"a", 6⟩))]
    (readSource 8 source).errors = [] ∧ isFiniteProgram (readSource 8 source).program = true ∧
      s.HasNewIds p ∧ s.HasNewIds q ∧ relabelProgram .blank p = relabelProgram .blank q ∧
      (s.run 1 source).1 = .stopped ⟨.operandMustBeNumber, ⟨"-", 1⟩⟩ ∧
      AgreeWhenBlank (s.run 1 printed).1 (s.run 1 source).1 (s.run 1 printed).2.machine
        (s.run 1 source).2.machine ∧
      AgreeWhenBlank (outcomeOf (executeProgram 1 p (s.machineFor p)))
        (outcomeOf (executeProgram 1 q (s.machineFor q)))
        (machineOf (executeProgram 1 p (s.machineFor p)))
        (machineOf (executeProgram 1 q (s.machineFor q))) := by
  intro s source printed p q
  have hscan : scan source =
      [.keyword .funWord, .identifier "f", .symbol .leftParen, .identifier "n",
        .symbol .rightParen, .symbol .leftBrace, .keyword .returnWord, .symbol .minus,
        .identifier "n", .symbol .semicolon, .symbol .rightBrace, .keyword .printWord,
        .identifier "f", .symbol .leftParen, .keyword .nilWord, .symbol .rightParen,
        .symbol .semicolon, .endOfFile].map fun kind ↦ .token ⟨kind, 1⟩ := by
    decide +kernel
  have hread : (readSource 8 source).errors = [] := by
    rw [readSource, hscan]
    decide +kernel
  have hfinite : isFiniteProgram (readSource 8 source).program = true := by
    rw [readSource, hscan]
    decide +kernel
  have hrun : (s.run 1 source).1 = .stopped ⟨.operandMustBeNumber, ⟨"-", 1⟩⟩ := by
    rw [Session.run, readSource, hscan]
    decide +kernel
  have hp : s.HasNewIds p := ⟨by decide, fun _ _ ↦ Nat.zero_le _⟩
  have hq : s.HasNewIds q := ⟨by decide, fun _ _ ↦ Nat.zero_le _⟩
  obtain ⟨hprinted, hprograms⟩ := printing_preserves_runs (.start .unlimited (.running 0)) 1
  exact ⟨hread, hfinite, hp, hq, rfl, hrun, hprinted 8 source hread hfinite,
    (hprograms p q hp hq rfl).2.2⟩

end LexScript
