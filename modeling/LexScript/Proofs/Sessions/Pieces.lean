import LexScript.Proofs.Sessions.Reachable
import LexScript.Proofs.Sessions.Reading

/-!
# Running a source in pieces

Two sources with a newline between them do together what they do one after the other. The second
one is read with the same ids in both cases, but further down if it is read together with the
first. Its lines show in errors and in what it leaves in the heap, where lines of earlier sources
show as well. To tell them apart the second source is placed so far down that its lines occur
nowhere else; from there its lines are moved to where they are in either case.

## Main definitions

* `IsLegal` : a source has no static errors.
* `moveLines` : lines from some on, moved as a whole.

## Main statements

* `run_append` : running in pieces and as a whole.
-/

namespace LexScript

open Grammar Run

/-! ### Sources without static errors -/

/-- Neither reading a source nor resolving its names yields an error. -/
structure IsLegal (source : String) : Prop where
  read : (readSource 0 source).errors = []
  resolve : (resolveProgram (readSource 0 source).program).errors = []

theorem behindLines_zero (source : String) : behindLines 0 source = source := by
  simp [behindLines]

/-- A source that is read without an error is read in the same way wherever it is. -/
theorem readSource_behindLines_eq {source : String} (h : (readSource 0 source).errors = [])
    (firstId down : Nat) : readSource firstId (behindLines down source) =
      ⟨[], relabelProgram (.shift firstId down) (readSource 0 source).program,
        (readSource 0 source).nextId + firstId⟩ := by
  refine readSource_behindLines ?_ firstId down
  rw [← h]

theorem readSource_eq {source : String} (h : (readSource 0 source).errors = [])
    (firstId : Nat) : readSource firstId source =
      ⟨[], relabelProgram (.shift firstId 0) (readSource 0 source).program,
        (readSource 0 source).nextId + firstId⟩ := by
  have := readSource_behindLines_eq h firstId 0
  rwa [behindLines_zero] at this

theorem IsLegal.resolve_relabel {source : String} (h : IsLegal source) (ρ : Relabelling) :
    (resolveProgram (relabelProgram ρ (readSource 0 source).program)).errors = [] := by
  rw [resolveProgram_relabel, h.resolve, List.map_nil]

/-- Two sources without static errors have none together. -/
theorem IsLegal.append {source later : String} (h : IsLegal source) (h' : IsLegal later) :
    IsLegal (source ++ "\n" ++ later) := by
  have hread := readSource_append (readSource_eq h.read 0) (readSource_behindLines_eq h'.read _ _)
  refine ⟨by rw [hread], ?_⟩
  rw [hread, resolveProgram_append_relabel, h.resolve_relabel, h'.resolve, List.map_nil,
    List.append_nil]

/-! ### Distances that are not needed yet -/

/-- How a run ends, with other distances. -/
def Run.endWith {α : Type} (d : Distances) :
    EStateM.Result Stop Machine α → EStateM.Result Stop Machine α
  | .ok a m => .ok a { m with distances := d }
  | .error e m => .error e { m with distances := d }

/-- Distances for ids that occur neither in a program nor on its machine make no difference. -/
theorem executeProgram_distances {n k bound : Nat} {program : List Stmt} {m : Machine}
    {d : Distances}
    (hprogram : ∀ ρ : Relabelling, ρ.Keeps n bound → relabelProgram ρ program = program)
    (hheap : m.heap.IsBelow n bound) (hdist : m.distances.IsBelow n)
    (hagree : ∀ i < n, d.find? i = m.distances.find? i) (hd : d.IsBelow k) (turns : Nat) :
    executeProgram turns program { m with distances := d } =
      endWith d (executeProgram turns program m) := by
  -- Ids that do not occur are replaced by ones that have no distance in either table.
  let ρ : Relabelling := ⟨fun i ↦ if i < n then i else i + k, id⟩
  have hρ : ρ.Keeps n bound := by
    refine ⟨fun i hi ↦ if_pos hi, fun i hi ↦ ?_, fun _ _ ↦ rfl⟩
    have : ρ.ids i = i + k := if_neg (Nat.not_lt.2 hi)
    omega
  have hd' : m.distances.AgreeOn ρ d := by
    intro i
    by_cases hi : i < n
    · rw [hρ.ids i hi, hagree i hi]
    · have : ρ.ids i = i + k := if_neg hi
      rw [this, hd _ (Nat.le_add_left k i), hdist i (Nat.not_lt.1 hi)]
  have hend := (follows_executeProgram turns program m hd').1
  have hstart : m.relabel ρ d = { m with distances := d } := by rw [Machine.relabel, hheap ρ hρ]
  have hlast := heap_isBelow_executeProgram hprogram hheap hdist turns ρ hρ
  rw [hprogram ρ hρ, hstart] at hend
  rw [hend]
  cases h : executeProgram turns program m with
  | ok a m' =>
    rw [h, machineOf] at hlast
    rw [relabelEnd, Machine.relabel, hlast, endWith, id]
  | error e m' =>
    have he : e.relabel ρ = e := by cases e <;> rfl
    rw [h, machineOf] at hlast
    rw [relabelEnd, Machine.relabel, hlast, endWith, he]

theorem executeProgram_append (turns : Nat) (program later : List Stmt) (m : Machine) :
    executeProgram turns (program ++ later) m =
      match executeProgram turns program m with
      | .ok _ m' => executeProgram turns later m'
      | .error e m' => .error e m' := by
  induction program generalizing m with
  | nil => rfl
  | cons s program ih =>
    rw [List.cons_append, executeProgram, executeProgram, bind_apply, bind_apply]
    cases execute turns s m with
    | ok _ m' => exact ih m'
    | error e m' => rfl

/-! ### Lines of the later source -/

/-- The lines from a number on, moved so that this one becomes `first`. -/
def moveLines (bound first line : Nat) : Nat :=
  if line < bound then line else line - bound + first

/-- An error of any phase, on another line. -/
def Diagnostic.relabel (ρ : Relabelling) : Diagnostic → Diagnostic
  | lex e => lex ⟨e.fault, ρ.lines e.line⟩
  | parse e => parse ⟨e.fault, e.token.relabel ρ⟩
  | resolve e => resolve (e.relabel ρ)
  | runtime e => runtime (e.relabel ρ)

/-- How a run ends, with the errors on other lines. -/
def Outcome.relabel (ρ : Relabelling) : Outcome → Outcome
  | finished => finished
  | rejected errors => rejected (errors.map (Diagnostic.relabel ρ))
  | stopped e => stopped (e.relabel ρ)
  | exhausted => exhausted

/-- How a run ends and the session behind it, with lines that are moved. -/
def moveRun (bound first : Nat) : Outcome × Session → Outcome × Session
  | (outcome, s) =>
    (outcome.relabel ⟨id, moveLines bound first⟩,
      { s with machine := s.machine.relabel ⟨id, moveLines bound first⟩ s.machine.distances })

/-- A source that is read further down has the same program with its lines moved. -/
theorem relabelProgram_moveLines {source : String} (h : (readSource 0 source).errors = [])
    (firstId bound down : Nat) :
    relabelProgram ⟨id, moveLines bound down⟩
        (relabelProgram (.shift firstId bound) (readSource 0 source).program) =
      relabelProgram (.shift firstId down) (readSource 0 source).program := by
  have hderives := derives_of_readSource h
  generalize (Item.tokens (scan source)).takeWhile (!Cursor.isEnd ·) = ts at hderives
  have hdown (down : Nat) := hderives.relabel (ρ := .shift firstId down) (d := firstId)
    fun _ _ _ ↦ rfl
  have hmoved := (hdown bound).relabel (ρ := ⟨id, moveLines bound down⟩) (d := 0) fun _ _ _ ↦ rfl
  have htokens : (ts.map (Token.relabel (.shift firstId bound))).map
      (Token.relabel ⟨id, moveLines bound down⟩) =
        ts.map (Token.relabel (.shift firstId down)) := by
    rw [List.map_map]
    refine List.map_congr_left fun t _ ↦ ?_
    have hline : ¬ t.line + bound < bound := by omega
    simp [Token.relabel, Relabelling.shift, moveLines, hline]
  rw [htokens] at hmoved
  exact (hmoved.unique (hdown down)).1

theorem outcomeOf_relabelEnd {α : Type} (ρ : Relabelling) (d : Distances)
    (r : EStateM.Result Stop Machine α) :
    outcomeOf (relabelEnd ρ d id r) = (outcomeOf r).relabel ρ := by
  rcases r with _ | ⟨_ | _, _⟩ <;> rfl

theorem machineOf_relabelEnd {α : Type} (ρ : Relabelling) (d : Distances)
    (r : EStateM.Result Stop Machine α) :
    machineOf (relabelEnd ρ d id r) = (machineOf r).relabel ρ d := by
  cases r <;> rfl

/-- A source that is run further down does the same with its lines moved. -/
theorem run_behindLines {s : Session} {source : String} {bound : Nat} (h : IsLegal source)
    (hheap : s.machine.heap.IsBelow s.nextId bound) (turns down : Nat) :
    s.run turns (behindLines down source) =
      moveRun bound down (s.run turns (behindLines bound source)) := by
  let ρ : Relabelling := ⟨id, moveLines bound down⟩
  have hρ : ρ.Keeps s.nextId bound := ⟨fun _ _ ↦ rfl, fun _ hi ↦ hi, fun _ hl ↦ if_pos hl⟩
  have hrun (down : Nat) :=
    Session.run_eq (readSource_behindLines_eq h.read s.nextId down) (h.resolve_relabel _) turns
  have hprogram : relabelProgram (.shift s.nextId down) (readSource 0 source).program =
      relabelProgram ρ (relabelProgram (.shift s.nextId bound) (readSource 0 source).program) :=
    (relabelProgram_moveLines h.read _ _ _).symm
  -- Uses do not have lines.
  have hmachine :
      s.machineFor (relabelProgram (.shift s.nextId down) (readSource 0 source).program) =
        s.machineFor (relabelProgram (.shift s.nextId bound) (readSource 0 source).program) := by
    rw [Session.machineFor, Session.machineFor, resolveProgram_relabel, resolveProgram_relabel]
    rfl
  rw [hrun, hrun, hmachine, hprogram]
  generalize relabelProgram (.shift s.nextId bound) (readSource 0 source).program = program
  generalize hM : s.machineFor program = M
  have hstart : M.relabel ρ M.distances = M := by
    subst hM
    rw [Machine.relabel, Session.machineFor, hheap ρ hρ]
  have hend := (follows_executeProgram (ρ := ρ) turns program M fun _ ↦ rfl).1
  rw [hstart] at hend
  have hdist := distances_executeProgram turns program M
  rw [hend, outcomeOf_relabelEnd, machineOf_relabelEnd, moveRun, hdist]

/-- Running two programs together goes on behind the first one if that one finishes, and ends as
that one does otherwise. -/
theorem run_append_of_readSource {s : Session} (hs : s.IsTidy) {source later both : String}
    {p q : List Stmt} {m k : Nat} (hp : readSource s.nextId source = ⟨[], p, m⟩)
    (hq : readSource m later = ⟨[], q, k⟩) (hboth : readSource s.nextId both = ⟨[], p ++ q, k⟩)
    (hp' : (resolveProgram p).errors = []) (hq' : (resolveProgram q).errors = [])
    (hboth' : (resolveProgram (p ++ q)).errors = [])
    (huses : (resolveProgram (p ++ q)).uses = (resolveProgram p).uses ++ (resolveProgram q).uses)
    (turns : Nat) :
    let first := s.run turns source
    let whole := s.run turns both
    (first.1 = .finished → whole = first.2.run turns later) ∧
    (first.1 ≠ .finished → whole.1 = first.1 ∧
      whole.2.machine = { first.2.machine with distances := whole.2.machine.distances }) := by
  obtain ⟨hdist, bound, hheap⟩ := hs
  have hderives := derives_of_readSource (by rw [hp] : (readSource s.nextId source).errors = [])
  have hderives' := derives_of_readSource (by rw [hq] : (readSource m later).errors = [])
  rw [hp] at hderives
  rw [hq] at hderives'
  have hle : s.nextId ≤ m := hderives.le
  have hle' : m ≤ k := hderives'.le
  obtain ⟨bound', hbound'⟩ := exists_bound_of_derives hderives
  have hprogram (ρ : Relabelling) (hρ : ρ.Keeps m (max bound bound')) : relabelProgram ρ p = p :=
    hbound' ρ (hρ.mono (Nat.le_refl _) (Nat.le_max_right ..))
  have hheap' : (s.machineFor p).heap.IsBelow m (max bound bound') :=
    hheap.mono hle (Nat.le_max_left ..)
  -- The machine that the programs start on together has further distances only.
  obtain ⟨d, hd⟩ : ∃ d, d = (s.machineFor (p ++ q)).distances := ⟨_, rfl⟩
  have hstart : s.machineFor (p ++ q) = { s.machineFor p with distances := d } := by
    rw [hd]
    rfl
  have hd' : d = (s.machineFor p).distances.recordAll (resolveProgram q).uses := by
    rw [hd, Session.machineFor, huses, Distances.recordAll_append]
    rfl
  have hdistp : (s.machineFor p).distances.IsBelow m :=
    (hdist.mono hle).recordAll fun use huse ↦ (ids_of_uses hderives huse).2
  have hexec : executeProgram turns p { s.machineFor p with distances := d } =
      endWith d (executeProgram turns p (s.machineFor p)) := by
    refine executeProgram_distances (k := k) hprogram hheap' hdistp (fun i hi ↦ ?_) ?_ turns
    · rw [hd', Distances.find?_recordAll fun use huse ↦ ?_]
      have := (ids_of_uses hderives' huse).1
      omega
    · rw [hd']
      exact (hdistp.mono hle').recordAll fun use huse ↦ (ids_of_uses hderives' huse).2
  intro first whole
  have hfirst : first = _ := Session.run_eq hp hp' turns
  have hwhole : whole = _ := Session.run_eq hboth hboth' turns
  rw [hstart, executeProgram_append, hexec] at hwhole
  have hdistances := distances_executeProgram turns p (s.machineFor p)
  cases hend : executeProgram turns p (s.machineFor p) with
  | ok a m' =>
    rw [hend] at hfirst hwhole hdistances
    rw [hfirst, hwhole]
    refine ⟨fun _ ↦ ?_, fun h ↦ absurd rfl h⟩
    have hlater := Session.run_eq (s := ⟨m', m⟩) hq hq' turns
    have hmachine : (⟨m', m⟩ : Session).machineFor q = { m' with distances := d } := by
      rw [Session.machineFor, hd', ← hdistances]
      rfl
    rw [hmachine] at hlater
    exact hlater.symm
  | error e m' =>
    rw [hend] at hfirst hwhole
    rw [hfirst, hwhole]
    refine ⟨fun h ↦ ?_, fun _ ↦ ⟨?_, rfl⟩⟩
    · cases e <;> cases h
    · cases e <;> rfl

/-- Running two sources together goes on behind the first one if that one finishes, and ends as
that one does otherwise. -/
theorem run_append_cases {s : Session} (hs : s.IsTidy) {source later : String}
    (h : IsLegal source) (h' : IsLegal later) (turns : Nat) :
    let first := s.run turns source
    let whole := s.run turns (source ++ "\n" ++ later)
    (first.1 = .finished → whole = first.2.run turns (behindLines (linesOf source) later)) ∧
    (first.1 ≠ .finished → whole.1 = first.1 ∧
      whole.2.machine = { first.2.machine with distances := whole.2.machine.distances }) := by
  have hread := readSource_eq h.read s.nextId
  have hread' := readSource_behindLines_eq h'.read ((readSource 0 source).nextId + s.nextId)
    (linesOf source)
  have hboth := fun ρ ↦ resolveProgram_append_relabel ρ
    (relabelProgram (.shift s.nextId 0) (readSource 0 source).program) (readSource 0 later).program
  refine run_append_of_readSource hs hread hread' (readSource_append hread hread')
    (h.resolve_relabel _) (h'.resolve_relabel _) ?_ ?_ turns
  · rw [hboth, h.resolve_relabel, h'.resolve, List.map_nil, List.append_nil]
  · rw [hboth, resolveProgram_relabel (.shift _ (linesOf source))]

/-- Two sources run in pieces and as a whole. The later source is placed on lines that do not
occur in the heap behind the first one, so that the lines of its tokens can be told from others;
run on its own and run together with the first source, it does the same with these lines moved
to where they are then. The first source alone decides if it does not finish. -/
theorem run_append {s : Session} (hs : s.Reachable) {source later : String}
    (h : IsLegal source) (h' : IsLegal later) (turns : Nat) :
    let first := s.run turns source
    let whole := s.run turns (source ++ "\n" ++ later)
    IsLegal (source ++ "\n" ++ later) ∧
    (first.1 = .finished → ∃ bound, first.2.machine.heap.IsBelow first.2.nextId bound ∧
      let placed := first.2.run turns (behindLines bound later)
      first.2.run turns later = moveRun bound 0 placed ∧
        whole = moveRun bound (linesOf source) placed) ∧
    (first.1 ≠ .finished → whole.1 = first.1 ∧
      whole.2.machine = { first.2.machine with distances := whole.2.machine.distances }) := by
  intro first whole
  obtain ⟨hfinished, hstopped⟩ := run_append_cases hs.isTidy h h' turns
  refine ⟨h.append h', fun hfirst ↦ ?_, hstopped⟩
  obtain ⟨-, bound, hbound⟩ := hs.isTidy.run turns source
  have hlater := run_behindLines h' hbound turns 0
  rw [behindLines_zero] at hlater
  exact ⟨bound, hbound, hlater, (hfinished hfirst).trans (run_behindLines h' hbound turns _)⟩

/-- A negation that fails on the second line of a whole, and on the first line of a piece. -/
theorem run_append_negation :
    let s := Session.start .unlimited (.running 0)
    let first := s.run 1 "var a;"
    IsLegal "var a;" ∧ IsLegal "print -a;" ∧ first.1 = .finished ∧
      ∃ bound, first.2.machine.heap.IsBelow first.2.nextId bound ∧
        let placed := first.2.run 1 (behindLines bound "print -a;")
        first.2.run 1 "print -a;" = moveRun bound 0 placed ∧
          s.run 1 ("var a;" ++ "\n" ++ "print -a;") = moveRun bound (linesOf "var a;") placed := by
  have hscan : scan "var a;" =
      [.keyword .varWord, .identifier "a", .symbol .semicolon, .endOfFile].map
        fun kind ↦ .token ⟨kind, 1⟩ := by
    decide +kernel
  have hscan' : scan "print -a;" =
      [.keyword .printWord, .symbol .minus, .identifier "a", .symbol .semicolon, .endOfFile].map
        fun kind ↦ .token ⟨kind, 1⟩ := by
    decide +kernel
  have h : IsLegal "var a;" := by
    constructor <;> rw [readSource, hscan] <;> decide +kernel
  have h' : IsLegal "print -a;" := by
    constructor <;> rw [readSource, hscan'] <;> decide +kernel
  have hfirst : ((Session.start .unlimited (.running 0)).run 1 "var a;").1 = .finished := by
    rw [Session.run, readSource, hscan]
    decide +kernel
  exact ⟨h, h', hfirst, (run_append (.start .unlimited (.running 0)) h h' 1).2.1 hfirst⟩

end LexScript
