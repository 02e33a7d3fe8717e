import LexScript.Proofs.Identity.Issuing
import LexScript.Proofs.Identity.Uses
import LexScript.Proofs.Watching.Sessions
import Mathlib.Data.List.Nodup

/-!
# Ids over a whole session

One parse goes on where the one before has stopped giving out ids. So over any number of parses, of
programs and of single expressions, with or without errors, each node of what is returned has an id
of its own, and later trees have greater ids than earlier ones.

In a session, name resolution records at most one distance for an id, and whenever a name is looked
up while a program runs, the distance that is read is the one that was recorded for the node at
which the name stands.

## Main definitions

* `Request`, `answers` : parses one after the other.
* `WatchedSession.HasRead` : what a session has asked of the parser, and the uses it has recorded.

## Main statements

* `areIssued_answers`, `pairwise_answers` : ids of successive parses.
* `WatchedSession.HasRead.exists_use` : the distance of a lookup is that of its occurrence.
* `ids_tell_nodes_apart` : ids of parses and of sessions.
-/

namespace LexScript

open scoped List

/-! ### Successive parses -/

/-- Tokens that are to be parsed as a program or as a single expression. -/
inductive Request where
  | program (tokens : List Token)
  | expression (tokens : List Token)

/-- The nodes of what is returned for a request, and the next unused id. -/
def Request.answer (firstId : Nat) : Request → List Expr × Nat
  | program tokens =>
    (nodesOfProgram (parse firstId tokens).statements, (parse firstId tokens).nextId)
  | expression tokens =>
    ((parseExpression firstId tokens).outcome.toOption.elim [] Expr.nodes,
      (parseExpression firstId tokens).nextId)

/-- The nodes of what is returned for each of some requests, one parse after the other, and the next
unused id. -/
def answers (firstId : Nat) : List Request → List (List Expr) × Nat
  | [] => ([], firstId)
  | request :: requests =>
    let answer := request.answer firstId
    let others := answers answer.2 requests
    (answer.1 :: others.1, others.2)

theorem areIssued_answer (firstId : Nat) (request : Request) :
    AreIssued firstId (request.answer firstId).2 (request.answer firstId).1 := by
  cases request with
  | program tokens => exact areIssued_parse firstId tokens
  | expression tokens => exact areIssued_parseExpression firstId tokens

/-- The nodes of all trees have different ids, which are greater than those below them. -/
theorem areIssued_answers (firstId : Nat) (requests : List Request) :
    AreIssued firstId (answers firstId requests).2 (answers firstId requests).1.flatten := by
  induction requests generalizing firstId with
  | nil => exact .nil (Nat.le_refl _)
  | cons request requests ih => exact (areIssued_answer firstId request).append (ih _)

/-- Later trees have greater ids. -/
theorem pairwise_answers (firstId : Nat) (requests : List Request) :
    (answers firstId requests).1.Pairwise
      fun earlier later ↦ ∀ e ∈ earlier, ∀ e' ∈ later, e.id < e'.id := by
  induction requests generalizing firstId with
  | nil => exact .nil
  | cons request requests ih =>
    refine List.pairwise_cons.2 ⟨fun later hlater e he e' he' ↦ ?_, ih _⟩
    have hothers := areIssued_answers (request.answer firstId).2 requests
    exact Nat.lt_of_lt_of_le ((areIssued_answer firstId request).within e he).2
      (hothers.within e' (List.mem_flatten.2 ⟨later, hlater, he'⟩)).1

theorem answers_append (firstId : Nat) (requests later : List Request) :
    answers firstId (requests ++ later) =
      ((answers firstId requests).1 ++ (answers (answers firstId requests).2 later).1,
        (answers (answers firstId requests).2 later).2) := by
  induction requests generalizing firstId with
  | nil => rfl
  | cons request requests ih =>
    rw [List.cons_append, answers, ih]
    rfl

/-! ### What a session has read -/

/-- What a source asks of the parser. -/
def requestOf (source : String) : Request := .program (Item.tokens (scan source))

theorem answer_requestOf (firstId : Nat) (source : String) :
    (requestOf source).answer firstId =
      (nodesOfProgram (readSource firstId source).program, (readSource firstId source).nextId) :=
  rfl

/-- The uses that are recorded when a session runs a source. Names are resolved only if the source
can be read without errors. -/
def Session.usesOf (s : Session) (source : String) : List NameUse :=
  if (readSource s.nextId source).errors = [] then
    (resolveProgram (readSource s.nextId source).program).uses
  else []

variable {s : Session}

theorem Session.run_state (s : Session) (turns : Nat) (source : String) :
    (s.run turns source).2.nextId = (readSource s.nextId source).nextId ∧
      (s.run turns source).2.machine.distances =
        s.machine.distances.recordAll (s.usesOf source) := by
  rw [usesOf]
  cases hread : readSource s.nextId source with
  | mk errors program m =>
    by_cases herrors : errors = []
    · subst herrors
      rw [if_pos rfl]
      by_cases hresolve : (resolveProgram program).errors = []
      · rw [Session.run_eq hread hresolve]
        exact ⟨rfl, distances_executeProgram turns program (s.machineFor program)⟩
      · simp [Session.run, Session.recordUses, hread, hresolve]
    · rw [if_neg herrors]
      simp [Session.run, hread, herrors, Distances.recordAll]

/-- The uses stand at nodes of the program. -/
theorem Session.usesOf_subperm (s : Session) (source : String) :
    (s.usesOf source).map NameUse.occurrence <+~
      occurrencesOf ((requestOf source).answer s.nextId).1 := by
  rw [answer_requestOf, usesOf]
  split
  · exact uses_subperm_occurrences _
  · exact List.nil_subperm

namespace WatchedSession

/-- A session has come about by runs of sources, each of which has asked the parser for a program
and has recorded the uses of names in it. -/
inductive HasRead : WatchedSession → List Request → List NameUse → Prop where
  | start (sink : Sink) (clock : Clock) : HasRead (.start sink clock) [] []
  | run (turns : Nat) (source : String) {w : WatchedSession} {requests : List Request}
      {uses : List NameUse} (h : HasRead w requests uses) :
      HasRead (w.run turns source).2 (requests ++ [requestOf source])
        (uses ++ w.session.usesOf source)
  | takeOutput {w : WatchedSession} {requests : List Request} {uses : List NameUse}
      (h : HasRead w requests uses) : HasRead w.takeOutput.2 requests uses

variable {w : WatchedSession} {turns : Nat} {source : String} {requests : List Request}
  {uses : List NameUse}

theorem HasRead.reachable (h : w.HasRead requests uses) : w.Reachable := by
  induction h with
  | start sink clock => exact .start sink clock
  | run turns source _ ih => exact ih.run turns source
  | takeOutput _ ih => exact ih.takeOutput

/-- In a run there are the lookups from before and those of the program, whose uses are recorded. -/
theorem IsInOrder.lookups_run (hw : w.IsInOrder) (htidy : w.session.IsTidy) (turns : Nat)
    (source : String) :
    (∀ l ∈ (w.run turns source).2.history.lookups,
      l ∈ w.history.lookups ∨ l.use ∈ w.session.usesOf source) ∧
    ∀ moment ∈ (w.run turns source).2.moments,
      moment.history.lookups = (w.run turns source).2.history.lookups := by
  unfold WatchedSession.run Session.usesOf
  dsimp only
  split
  · next h =>
    cases hread : readSource w.session.nextId source with
    | mk errors program m =>
      rw [hread] at h
      obtain ⟨rfl, hresolve⟩ := h
      have hl := hw.leadsTo htidy hread hresolve turns
      obtain ⟨hplain, -⟩ := plain_fresh_of_readSource hread
      rw [if_pos rfl, (uses_resolveProgram hplain hresolve).1]
      refine ⟨fun l hmem ↦ ?_, fun moment hmoment ↦ ?_⟩
      · change l ∈ (Watch.atEnd (watchProgram turns program (w.watchFor program))).history.lookups
          at hmem
        rw [hl.resumes.lookups] at hmem
        rcases List.mem_append.1 hmem with hbefore | hnew
        · exact .inl hbefore
        · exact .inr (List.mem_map.2 ⟨l, hnew, rfl⟩)
      · rcases hl.since moment hmoment with hbefore | hlookups
        · cases hbefore
        · exact hlookups.trans hl.resumes.lookups.symm
  · exact ⟨fun _ ↦ .inl, List.forall_mem_nil _⟩

/-- What is known of a session that has read some programs and has recorded some uses. -/
structure Accounts (w : WatchedSession) (requests : List Request) (uses : List NameUse) :
    Prop where
  nextId : w.session.nextId = (answers 0 requests).2
  stand : uses.map NameUse.occurrence <+~ occurrencesOf (answers 0 requests).1.flatten
  distances : w.session.machine.distances = Distances.empty.recordAll uses
  lookups : ∀ l ∈ w.history.lookups, l.use ∈ uses
  moments : ∀ moment ∈ w.moments, ∀ l ∈ moment.history.lookups, l.use ∈ uses

theorem HasRead.accounts (h : w.HasRead requests uses) : w.Accounts requests uses := by
  induction h with
  | start sink clock =>
    exact ⟨rfl, List.Subperm.refl _, rfl, List.forall_mem_nil _, List.forall_mem_nil _⟩
  | @run turns source w requests uses h ih =>
    obtain ⟨hnextId, hdistances⟩ := w.session.run_state turns source
    obtain ⟨hlookups, hmoments⟩ :=
      h.reachable.isInOrder.lookups_run h.reachable.session.isTidy turns source
    have hsession := (run_session w turns source).2
    have hanswers := answers_append 0 requests [requestOf source]
    rw [← ih.nextId] at hanswers
    have hmem : ∀ l ∈ (w.run turns source).2.history.lookups,
        l.use ∈ uses ++ w.session.usesOf source := by
      intro l hl
      rcases hlookups l hl with hbefore | hnew
      · exact List.mem_append_left _ (ih.lookups l hbefore)
      · exact List.mem_append_right _ hnew
    refine ⟨?_, ?_, ?_, hmem, fun moment hmoment l hl ↦ hmem l (hmoments moment hmoment ▸ hl)⟩
    · rw [hsession, hnextId, hanswers]
      rfl
    · rw [hanswers, List.map_append, List.flatten_append, occurrencesOf_append]
      refine ih.stand.append ?_
      have hanswer : (answers w.session.nextId [requestOf source]).1.flatten =
          ((requestOf source).answer w.session.nextId).1 := List.append_nil _
      rw [hanswer]
      exact w.session.usesOf_subperm source
    · rw [hsession, hdistances, ih.distances, Distances.recordAll_append]
  | takeOutput _ ih => exact ⟨ih.nextId, ih.stand, ih.distances, ih.lookups, ih.moments⟩

/-- No id is recorded twice. -/
theorem Accounts.nodup (h : w.Accounts requests uses) : (uses.map NameUse.id).Nodup := by
  have hids := (areIssued_answers 0 requests).nodup
  have hmap : uses.map NameUse.id = (uses.map NameUse.occurrence).map Prod.fst := by
    rw [List.map_map]
    rfl
  rw [hmap]
  obtain ⟨occurrences, hperm, hsub⟩ := h.stand
  exact (hperm.map Prod.fst).nodup_iff.1
    (hids.sublist ((hsub.map Prod.fst).trans (map_fst_occurrencesOf _)))

/-- When a name is looked up, the distance that is read is that of the use which was recorded for
the node at which the name stands. -/
theorem HasRead.exists_use (h : w.HasRead requests uses) {moment : Moment}
    (hmoment : moment ∈ w.moments) {id : Nat} {x : Name} (htask : moment.task = .lookup id x) :
    ∃ e ∈ (answers 0 requests).1.flatten, ∃ use ∈ uses,
      e.occurrence? = some (id, x) ∧ use.occurrence = (id, x) ∧
      moment.machine.distances.find? id = use.distance := by
  have horder := h.reachable.isInOrder.moments moment hmoment
  have hlies := horder.liesIn
  rw [htask, Task.LiesIn] at hlies
  have huse := h.accounts.moments moment hmoment _ hlies
  have hoccurrence := h.accounts.stand.subset (List.mem_map_of_mem huse)
  obtain ⟨e, he, hat⟩ := List.mem_filterMap.1 hoccurrence
  exact ⟨e, he, _, huse, hat, rfl, (horder.inOrder.lookups _ hlies).1⟩

end WatchedSession

/-- Ids tell expressions apart. Over any number of successive parses, with or without errors, all
nodes of what is returned have different ids, the id of a node is greater than those of the nodes
below it, and later parses give out greater ids. So over a whole session a distance is recorded at
most once for an id; and whenever a name is looked up, it is at one node alone and the distance that
is read for it is the one that was recorded for this occurrence, the only one with its id. -/
theorem ids_tell_nodes_apart :
    (∀ (firstId : Nat) (requests : List Request),
      (idsOf (answers firstId requests).1.flatten).Nodup ∧
      (∀ e ∈ (answers firstId requests).1.flatten, ∀ below ∈ e.nodes.tail, below.id < e.id) ∧
      (answers firstId requests).1.Pairwise
        fun earlier later ↦ ∀ e ∈ earlier, ∀ e' ∈ later, e.id < e'.id) ∧
    ∀ (w : WatchedSession) (requests : List Request) (uses : List NameUse),
      w.HasRead requests uses →
      (uses.map NameUse.id).Nodup ∧
      w.session.machine.distances = Distances.empty.recordAll uses ∧
      ∀ moment ∈ w.moments, ∀ id x, moment.task = .lookup id x →
        ∃ e ∈ (answers 0 requests).1.flatten, ∃ use ∈ uses,
          e.occurrence? = some (id, x) ∧
          (∀ e' ∈ (answers 0 requests).1.flatten, e'.id = id → e' = e) ∧
          use.occurrence = (id, x) ∧ (∀ use' ∈ uses, use'.id = id → use' = use) ∧
          moment.machine.distances.find? id = use.distance := by
  refine ⟨fun firstId requests ↦ ?parses, fun w requests uses h ↦ ⟨h.accounts.nodup,
    h.accounts.distances, fun moment hmoment id x htask ↦ ?lookups⟩⟩
  case parses =>
    have hissued := areIssued_answers firstId requests
    exact ⟨hissued.nodup, hissued.ordered, pairwise_answers firstId requests⟩
  case lookups =>
    obtain ⟨e, he, use, huse, hat, hoccurrence, hdistance⟩ := h.exists_use hmoment htask
    have hids := (areIssued_answers 0 requests).nodup
    refine ⟨e, he, use, huse, hat, fun e' he' hid ↦ ?_, hoccurrence, fun use' huse' hid ↦ ?_,
      hdistance⟩
    · exact List.inj_on_of_nodup_map hids he' he (hid.trans (e.id_of_occurrence? hat).symm)
    · exact List.inj_on_of_nodup_map h.accounts.nodup huse' huse
        (hid.trans (congrArg Prod.fst hoccurrence).symm)

/-- A variable of a block is looked up in a function: its node is the only one with the id `0`, and
so is the use for which the distance was recorded. -/
theorem ids_tell_nodes_apart_block_variable :
    let source := "{var a; fun f() {a;} f();}"
    let w := ((WatchedSession.start .unlimited (.running 0)).run 1 source).2
    let x : Name := .ident "a"
    ∃ requests uses, w.HasRead requests uses ∧ (uses.map NameUse.id).Nodup ∧
      ∃ moment ∈ w.moments, moment.task = .lookup 0 x ∧
        ∃ e ∈ (answers 0 requests).1.flatten, ∃ use ∈ uses,
          e.occurrence? = some (0, x) ∧
          (∀ e' ∈ (answers 0 requests).1.flatten, e'.id = 0 → e' = e) ∧
          use.occurrence = (0, x) ∧ (∀ use' ∈ uses, use'.id = 0 → use' = use) ∧
          moment.machine.distances.find? 0 = use.distance := by
  intro source w x
  have hread : w.HasRead _ _ := .run 1 source (.start .unlimited (.running 0))
  have hany : w.moments.any (fun moment ↦ moment.task.lookup? == some (0, x)) = true := by
    decide +kernel
  obtain ⟨moment, hmem, hmoment⟩ := List.any_eq_true.1 hany
  have htask := Task.eq_lookup_of_lookup? (beq_iff_eq.1 hmoment)
  obtain ⟨hnodup, -, hlookups⟩ := ids_tell_nodes_apart.2 w _ _ hread
  exact ⟨_, _, hread, hnodup, moment, hmem, htask, hlookups moment hmem 0 x htask⟩

end LexScript
