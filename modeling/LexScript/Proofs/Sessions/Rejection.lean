import LexScript.Proofs.Sessions.FirstIds
import LexScript.Proofs.Sessions.Pieces

/-!
# Rejected sources

A source with an error that shows without running it is rejected for these errors and leaves
nothing behind but used-up ids and, if name resolution had to reject it, recorded distances for
them. A session that has used up further ids in this way goes on as one that has not: whatever it
is given then, the ids of its programs differ by a fixed distance from those of the other session,
and evaluation only compares ids.

## Main definitions

* `staticErrors` : the errors of a source that show without running it.
* `Session.transcript` : what a session shows while it runs sources.
* `Session.Skips` : a session that has used up further ids.

## Main statements

* `Session.Skips.run` : ids that are used up make no difference to a run.
* `run_rejected` : a rejected source leaves no trace.
-/

namespace LexScript

open Grammar Run

/-- The errors of a source that show without running it: those of scanning and of parsing, or, if
there are none of these, those of name resolution. -/
def staticErrors (source : String) : List Diagnostic :=
  let items := scan source
  let parsed := parse 0 (Item.tokens items)
  let errors := (Item.errors items).map .lex ++ parsed.errors.map .parse
  if errors.isEmpty then (resolveProgram parsed.statements).errors.map .resolve else errors

/-- What a session shows while it runs sources one after the other, each with a number of turns for
its loops: how each run ends and what it has written. -/
def Session.transcript : List (Nat × String) → Session → List (Outcome × String)
  | [], _ => []
  | (turns, source) :: later, s =>
    let (outcome, s) := s.run turns source
    let (text, s) := s.takeOutput
    (outcome, text) :: s.transcript later

/-! ### Used-up ids -/

/-- Ids from some number on are moved, and all lines are kept. -/
def Relabelling.skipping (n d : Nat) : Relabelling := ⟨fun i ↦ if i < n then i else i + d, id⟩

/-- The second session is as the first one, but a number of ids from some id on are used up. -/
structure Session.Skips (n d : Nat) (s s' : Session) : Prop where
  le : n ≤ s.nextId
  nextId : s'.nextId = s.nextId + d
  machine : s'.machine = s.machine.relabel (.skipping n d) s'.machine.distances
  distances : s.machine.distances.AgreeOn (.skipping n d) s'.machine.distances

/-- Whatever the source, only ids depend on the first id. -/
theorem readSource_add (firstId d : Nat) (source : String) :
    readSource (firstId + d) source =
      ⟨(readSource firstId source).errors,
        relabelProgram (.later d) (readSource firstId source).program,
        (readSource firstId source).nextId + d⟩ := by
  simp only [readSource, parse_add]

/-- The ids of a program that is read from some id on are all moved. -/
theorem relabelProgram_skipping {n firstId : Nat} {source : String} (hn : n ≤ firstId)
    (h : (readSource firstId source).errors = []) (d : Nat) :
    relabelProgram (.skipping n d) (readSource firstId source).program =
      relabelProgram (.later d) (readSource firstId source).program := by
  have hderives := derives_of_readSource h
  have hskipping := hderives.relabel (ρ := .skipping n d) (d := d) fun i hi _ ↦
    if_neg (Nat.not_lt.2 (Nat.le_trans hn hi))
  have hlater := hderives.relabel (ρ := .later d) (d := d) fun _ _ _ ↦ rfl
  exact (hskipping.unique hlater).1

theorem ScopeError.map_relabel {ρ : Relabelling} (hρ : ρ.lines = id) (errors : List ScopeError) :
    errors.map (ScopeError.relabel ρ) = errors := by
  refine (List.map_congr_left fun e _ ↦ ?_).trans (List.map_id errors)
  simp only [ScopeError.relabel, Mark.relabel, hρ, id]

/-- Distances that agree go on to do so if the ids of uses are told from all others. -/
theorem Distances.AgreeOn.recordAll {d d' : Distances} {ρ : Relabelling} (h : d.AgreeOn ρ d')
    {uses : List NameUse} (hρ : ∀ use ∈ uses, ∀ i, ρ.ids i = ρ.ids use.id ↔ i = use.id) :
    (d.recordAll uses).AgreeOn ρ (d'.recordAll (uses.map (NameUse.relabel ρ))) := by
  induction uses generalizing d d' with
  | nil => exact h
  | cons use uses ih =>
    rw [List.forall_mem_cons] at hρ
    rw [List.map_cons, recordAll_cons, recordAll_cons]
    refine ih ?_ hρ.2
    have hdistance : (use.relabel ρ).distance = use.distance := rfl
    rw [hdistance]
    cases use.distance with
    | none => exact h
    | some distance =>
      intro i
      have hid : (use.relabel ρ).id = ρ.ids use.id := rfl
      simp only [find?_record, hid, hρ.1 i, h i]

theorem Relabelling.skipping_injective (n d : Nat) :
    Function.Injective (Relabelling.skipping n d).ids := by
  intro i j h
  simp only [skipping] at h
  split at h <;> split at h <;> omega

/-- The machines of two sessions that differ in used-up ids do the same with a program that is read
next. -/
theorem Session.Skips.machineFor {n d : Nat} {s s' : Session} (h : s.Skips n d s')
    (program : List Stmt) :
    s'.machineFor (relabelProgram (.skipping n d) program) =
        (s.machineFor program).relabel (.skipping n d)
          (s'.machineFor (relabelProgram (.skipping n d) program)).distances ∧
      (s.machineFor program).distances.AgreeOn (.skipping n d)
        (s'.machineFor (relabelProgram (.skipping n d) program)).distances := by
  refine ⟨?_, ?_⟩
  · simp only [Session.machineFor]
    rw [h.machine]
    rfl
  · simp only [Session.machineFor, resolveProgram_relabel]
    exact h.distances.recordAll fun _ _ _ ↦ (Relabelling.skipping_injective n d).eq_iff

theorem Session.run_of_errors {s : Session} {source : String}
    (h : (readSource s.nextId source).errors ≠ []) (turns : Nat) :
    s.run turns source = (.rejected (readSource s.nextId source).errors,
      { s with nextId := (readSource s.nextId source).nextId }) := by
  simp [Session.run, h]

theorem Session.run_of_scopeErrors {s : Session} {source : String}
    (h : (readSource s.nextId source).errors = [])
    (h' : (resolveProgram (readSource s.nextId source).program).errors ≠ []) (turns : Nat) :
    s.run turns source =
      (.rejected ((resolveProgram (readSource s.nextId source).program).errors.map .resolve),
        ⟨s.machineFor (readSource s.nextId source).program,
          (readSource s.nextId source).nextId⟩) := by
  simp only [Session.run, h, List.isEmpty_nil, Bool.not_true, Bool.false_eq_true, if_false,
    List.isEmpty_eq_false_iff.2 h', Bool.not_false, if_true]
  rfl

/-- A rejected source changes nothing on the machine but recorded distances. -/
theorem Session.exists_machine_of_rejected {s : Session} {source : String}
    (h : ¬((readSource s.nextId source).errors = [] ∧
      (resolveProgram (readSource s.nextId source).program).errors = [])) (turns : Nat) :
    ∃ d, (s.run turns source).2.machine = { s.machine with distances := d } := by
  by_cases hread : (readSource s.nextId source).errors = []
  · rw [run_of_scopeErrors hread fun hresolve ↦ h ⟨hread, hresolve⟩]
    exact ⟨_, rfl⟩
  · rw [run_of_errors hread]
    exact ⟨s.machine.distances, rfl⟩

/-- Ids that are used up make no difference to how a run ends and stay the only difference. -/
theorem Session.Skips.run {n d : Nat} {s s' : Session} (h : s.Skips n d s') (turns : Nat)
    (source : String) :
    (s'.run turns source).1 = (s.run turns source).1 ∧
      (s.run turns source).2.Skips n d (s'.run turns source).2 := by
  have hread := readSource_add s.nextId d source
  rw [← h.nextId] at hread
  have hle : n ≤ (readSource s.nextId source).nextId := Nat.le_trans h.le (firstId_le_nextId _ _)
  by_cases herrors : (readSource s.nextId source).errors = []
  · rw [← relabelProgram_skipping h.le herrors] at hread
    obtain ⟨hmachine, hdistances⟩ := h.machineFor (readSource s.nextId source).program
    have hresolve := resolveProgram_relabel (.skipping n d) (readSource s.nextId source).program
    rw [ScopeError.map_relabel rfl] at hresolve
    by_cases hscope : (resolveProgram (readSource s.nextId source).program).errors = []
    · have hfollows :=
        follows_executeProgram turns (readSource s.nextId source).program _ hdistances
      rw [← hmachine] at hfollows
      have hrun : s.run turns source = _ := Session.run_eq (by rw [← herrors]) hscope turns
      have hrun' := Session.run_eq (hread.trans (by rw [herrors])) (by rw [hresolve, hscope]) turns
      have hdist := distances_executeProgram turns
        (relabelProgram (.skipping n d) (readSource s.nextId source).program)
        (s'.machineFor (relabelProgram (.skipping n d) (readSource s.nextId source).program))
      rw [hrun, hrun']
      rw [hfollows.1] at hdist ⊢
      refine ⟨?_, hle, rfl, ?_, ?_⟩
      · rcases executeProgram turns _ _ with _ | ⟨_ | _, _⟩ <;> rfl
      · rw [hdist, machineOf_relabelEnd]
      · rw [hdist, hfollows.2]
        exact hdistances
    · have herrors' : (readSource s'.nextId source).errors = [] := by rw [hread, herrors]
      have hscope' : (resolveProgram (readSource s'.nextId source).program).errors ≠ [] := by
        rwa [hread, hresolve]
      rw [run_of_scopeErrors herrors hscope, run_of_scopeErrors herrors' hscope', hread, hresolve]
      exact ⟨rfl, hle, rfl, hmachine, hdistances⟩
  · have herrors' : (readSource s'.nextId source).errors ≠ [] := by rwa [hread]
    rw [run_of_errors herrors, run_of_errors herrors', hread]
    exact ⟨rfl, hle, rfl, h.machine, h.distances⟩

theorem Session.Skips.takeOutput {n d : Nat} {s s' : Session} (h : s.Skips n d s') :
    s'.takeOutput.1 = s.takeOutput.1 ∧ s.takeOutput.2.Skips n d s'.takeOutput.2 := by
  have hsink : s'.machine.sink = s.machine.sink := by
    rw [h.machine]
    rfl
  have htaken : s'.takeOutput.2.machine = { s'.machine with sink := s'.machine.sink.take.2 } := rfl
  refine ⟨by rw [Session.takeOutput, Session.takeOutput, hsink], h.le, h.nextId, ?_, h.distances⟩
  rw [htaken, h.machine]
  rfl

/-- A session shows nothing of ids that are used up. -/
theorem Session.Skips.transcript {n d : Nat} {s s' : Session} (h : s.Skips n d s')
    (steps : List (Nat × String)) : s'.transcript steps = s.transcript steps := by
  induction steps generalizing s s' with
  | nil => rfl
  | cons step later ih =>
    obtain ⟨turns, source⟩ := step
    obtain ⟨houtcome, hrun⟩ := h.run turns source
    obtain ⟨htext, htaken⟩ := hrun.takeOutput
    simp only [Session.transcript, houtcome, htext, ih htaken]

/-! ### Rejected runs -/

/-- The errors for which a session rejects a source are its static errors. -/
theorem errors_eq_staticErrors (firstId : Nat) (source : String) :
    (if (readSource firstId source).errors = [] then
        (resolveProgram (readSource firstId source).program).errors.map Diagnostic.resolve
      else (readSource firstId source).errors) = staticErrors source := by
  have hread := readSource_add 0 firstId source
  rw [Nat.zero_add] at hread
  have hstatic : staticErrors source =
      if (readSource 0 source).errors.isEmpty then
        (resolveProgram (readSource 0 source).program).errors.map .resolve
      else (readSource 0 source).errors := rfl
  rw [hstatic, hread, resolveProgram_relabel, ScopeError.map_relabel rfl]
  simp only [List.isEmpty_iff]

/-- A session in which ids and distances for them were used up in vain. -/
theorem Session.Reachable.skips {s s' : Session} (hs : s.Reachable) (hle : s.nextId ≤ s'.nextId)
    (hmachine : s'.machine = { s.machine with distances := s'.machine.distances })
    (hkept : ∀ i < s.nextId, s'.machine.distances.find? i = s.machine.distances.find? i)
    (hbelow : s'.machine.distances.IsBelow s'.nextId) :
    s.Skips s.nextId (s'.nextId - s.nextId) s' := by
  obtain ⟨hdist, bound, hheap⟩ := hs.isTidy
  have hkeeps : (Relabelling.skipping s.nextId (s'.nextId - s.nextId)).Keeps s.nextId bound :=
    ⟨fun i hi ↦ if_pos hi, fun i hi ↦ by
      simp only [Relabelling.skipping, if_neg (Nat.not_lt.2 hi)]
      omega, fun _ _ ↦ rfl⟩
  refine ⟨Nat.le_refl _, by omega, ?_, fun i ↦ ?_⟩
  · rw [Machine.relabel, hheap _ hkeeps]
    exact hmachine
  · rcases Nat.lt_or_ge i s.nextId with hi | hi
    · rw [hkeeps.ids i hi, hkept i hi]
    · have hmoved : (Relabelling.skipping s.nextId (s'.nextId - s.nextId)).ids i =
          i + (s'.nextId - s.nextId) := if_neg (Nat.not_lt.2 hi)
      rw [hmoved, hbelow _ (by omega), hdist i hi]

/-- A source with static errors is rejected for them and leaves no trace: the machine is as before
but for distances, and whatever the session is given afterwards, it shows what it would have shown
otherwise. -/
theorem run_rejected {s : Session} (hs : s.Reachable) {source : String}
    (h : staticErrors source ≠ []) (turns : Nat) :
    let rejected := s.run turns source
    rejected.1 = .rejected (staticErrors source) ∧
      rejected.2.machine = { s.machine with distances := rejected.2.machine.distances } ∧
      ∀ steps, rejected.2.transcript steps = s.transcript steps := by
  intro rejected
  have hstatic := errors_eq_staticErrors s.nextId source
  have hnext : s.nextId ≤ (readSource s.nextId source).nextId := firstId_le_nextId _ _
  by_cases herrors : (readSource s.nextId source).errors = []
  · rw [if_pos herrors] at hstatic
    have hscope : (resolveProgram (readSource s.nextId source).program).errors ≠ [] := by
      intro hscope
      rw [hscope] at hstatic
      exact h hstatic.symm
    have hrun : rejected = _ := Session.run_of_scopeErrors herrors hscope turns
    rw [hrun, hstatic]
    have hids := fun use ↦ @ids_of_uses _ _ _ _ (derives_of_readSource herrors) use
    have hkept (i : Nat) (hi : i < s.nextId) :
        (s.machineFor (readSource s.nextId source).program).distances.find? i =
          s.machine.distances.find? i := by
      refine Distances.find?_recordAll (fun use huse ↦ ?_) _
      have := (hids use huse).1
      omega
    have hbelow := (hs.isTidy.distances.mono hnext).recordAll fun use huse ↦ (hids use huse).2
    have hskips : s.Skips s.nextId _ ⟨s.machineFor _, _⟩ := hs.skips hnext rfl hkept hbelow
    exact ⟨rfl, rfl, hskips.transcript⟩
  · rw [if_neg herrors] at hstatic
    have hrun : rejected = _ := Session.run_of_errors herrors turns
    rw [hrun, hstatic]
    have hskips : s.Skips s.nextId _ { s with nextId := (readSource s.nextId source).nextId } :=
      hs.skips hnext rfl (fun _ _ ↦ rfl) (hs.isTidy.distances.mono hnext)
    exact ⟨rfl, rfl, hskips.transcript⟩

/-- A variable that is declared twice in a block, behind uses that have distances. -/
theorem run_rejected_redeclaration :
    let source := "{var a; a = a; var a;}"
    let s := Session.start .unlimited (.running 0)
    let rejected := s.run 1 source
    staticErrors source ≠ [] ∧ rejected.1 = .rejected (staticErrors source) ∧
      rejected.2.machine = { s.machine with distances := rejected.2.machine.distances } ∧
      ∀ steps, rejected.2.transcript steps = s.transcript steps := by
  intro source s rejected
  have hscan : scan source =
      [.symbol .leftBrace, .keyword .varWord, .identifier "a", .symbol .semicolon,
        .identifier "a", .symbol .equal, .identifier "a", .symbol .semicolon,
        .keyword .varWord, .identifier "a", .symbol .semicolon, .symbol .rightBrace,
        .endOfFile].map fun kind ↦ .token ⟨kind, 1⟩ := by
    decide +kernel
  have h : staticErrors source ≠ [] := by
    rw [staticErrors, hscan]
    decide +kernel
  exact ⟨h, run_rejected (.start .unlimited (.running 0)) h 1⟩

end LexScript
