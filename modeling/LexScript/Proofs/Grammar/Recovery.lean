import LexScript.Proofs.Grammar.Progress

/-!
# Parsing from one token to the next

The tokens of a list are numbered, with an end behind a list that does not end with one. While a
list is parsed the cursor is in front of one of these tokens, never goes back, and never gets
behind the first end. After a failed declaration parsing goes on where the failure was if that is
the end, and otherwise in front of the next token at which a program can be taken up again.

## Main definitions

* `Cursor.withEnd` : the tokens as they are numbered.
* `Cursor.IsAt` : a cursor in front of the token with a number.
* `Cursor.IsBoundary`, `Cursor.ResumesAt` : where parsing goes on after a failure.

## Main statements

* `parsing_goes_forward` : parsing ends, goes forward and resumes at the next boundary.
-/

namespace LexScript

namespace Cursor

variable {tokens : List Token} {c c' : Cursor} {i j k : Nat}

/-- The tokens as they are numbered, with an end behind a list that does not end with one. -/
def withEnd (tokens : List Token) : List Token :=
  if tokens.getLast?.any isEnd then tokens
  else tokens ++ [⟨.endOfFile, (tokens.getLast?.map Token.line).getD 1⟩]

/-- The number of the first end. -/
def endIndex (tokens : List Token) : Nat := (withEnd tokens).findIdx isEnd

/-- A cursor is in front of the token with a number: the tokens ahead are those from this one up to
the first end. -/
structure IsAt (tokens : List Token) (k : Nat) (c : Cursor) : Prop where
  le : k ≤ endIndex tokens
  rest : c.rest = ((withEnd tokens).take (endIndex tokens)).drop k
  stop : (withEnd tokens)[endIndex tokens]? = some ⟨.endOfFile, c.endLine⟩

/-- A token in front of which a program can be taken up again: an end, one behind a semicolon, or
a keyword that starts a declaration or statement. -/
def IsBoundary (tokens : List Token) (j : Nat) : Prop :=
  (withEnd tokens)[j]?.any isEnd ∨
    (withEnd tokens)[j - 1]?.any (fun t ↦ t.kind == .symbol .semicolon) ∨
      (withEnd tokens)[j]?.any startsStatement

instance (tokens : List Token) (j : Nat) : Decidable (IsBoundary tokens j) :=
  inferInstanceAs (Decidable (_ ∨ _))

/-- After a failure in front of token `k` parsing goes on there if this is the end, and otherwise
in front of the first boundary further on. -/
def ResumesAt (tokens : List Token) (k j : Nat) : Prop :=
  (k = endIndex tokens → j = k) ∧
    (k ≠ endIndex tokens →
      k < j ∧ IsBoundary tokens j ∧ ∀ i, k < i → i < j → ¬ IsBoundary tokens i)

/-! ### The first end -/

theorem isEnd_eq_true {t : Token} (h : isEnd t = true) : t = ⟨.endOfFile, t.line⟩ := by
  obtain ⟨kind, line⟩ := t
  obtain rfl : kind = .endOfFile := beq_iff_eq.1 h
  rfl

/-- An end behind the list matters only if there is none in it. -/
theorem find?_withEnd (firstId : Nat) (tokens : List Token) :
    (withEnd tokens).find? isEnd = some ⟨.endOfFile, (start firstId tokens).endLine⟩ := by
  unfold withEnd
  cases hfind : tokens.find? isEnd with
  | some t =>
    have ht := isEnd_eq_true (List.find?_some hfind)
    split <;> simp [start, hfind, ← ht]
  | none =>
    have hlast : ¬ tokens.getLast?.any isEnd := by
      rw [List.find?_eq_none] at hfind
      cases hlast : tokens.getLast? with
      | none => nofun
      | some t => exact hfind t (List.mem_of_getLast? hlast)
    simp [hlast, start, hfind]
    rfl

theorem takeWhile_withEnd (tokens : List Token) :
    (withEnd tokens).takeWhile (!isEnd ·) = tokens.takeWhile (!isEnd ·) := by
  unfold withEnd
  split
  · rfl
  · rw [List.takeWhile_append]
    split
    · next h =>
      have hwhole := (List.takeWhile_prefix (!isEnd ·)).eq_of_length h
      rw [hwhole, List.takeWhile_cons_of_neg (by simp [isEnd]), List.append_nil]
    · rfl

/-- A parser starts in front of the first token. -/
theorem isAt_start (firstId : Nat) (tokens : List Token) :
    (start firstId tokens).IsAt tokens 0 := by
  refine ⟨Nat.zero_le _, ?_, ?_⟩
  · have := takeWhile_withEnd tokens
    rw [List.takeWhile_eq_take_findIdx_not] at this
    simpa [start, endIndex] using this.symm
  · rw [endIndex, ← List.find?_eq_getElem?_findIdx, find?_withEnd firstId]

/-! ### Cursors in front of a token -/

theorem endIndex_lt_length (tokens : List Token) :
    endIndex tokens < (withEnd tokens).length := by
  have hfind := List.find?_eq_some_iff_append.1 (find?_withEnd 0 tokens)
  rw [endIndex, List.findIdx_lt_length]
  obtain ⟨hend, before, behind, happend, -⟩ := hfind
  exact ⟨_, by simp [happend], hend⟩

/-- In front of the first end there is a token to take. -/
theorem drop_eq_cons (hk : k < endIndex tokens) :
    ∃ t, (withEnd tokens)[k]? = some t ∧ isEnd t = false ∧
      ((withEnd tokens).take (endIndex tokens)).drop k =
        t :: ((withEnd tokens).take (endIndex tokens)).drop (k + 1) := by
  have hlen := endIndex_lt_length tokens
  refine ⟨(withEnd tokens)[k], List.getElem?_eq_getElem _, List.not_of_lt_findIdx hk, ?_⟩
  rw [List.drop_eq_getElem_cons (by rw [List.length_take]; omega), List.getElem_take]

theorem IsAt.length_rest (h : c.IsAt tokens k) : c.rest.length + k = endIndex tokens := by
  have hlen := endIndex_lt_length tokens
  have hle := h.le
  rw [h.rest, List.length_drop, List.length_take]
  omega

/-- What a parser looks at is a token of the list, and the first end only in front of this. -/
theorem IsAt.token (h : c.IsAt tokens k) :
    (withEnd tokens)[k]? = some c.token ∧ (isEnd c.token = true ↔ k = endIndex tokens) := by
  rcases Nat.lt_or_eq_of_le h.le with hlt | rfl
  · obtain ⟨t, hget, hend, hrest⟩ := drop_eq_cons hlt
    have htoken : c.token = t := by rw [Cursor.token, h.rest, hrest]
    rw [htoken]
    exact ⟨hget, by simp [hend, Nat.ne_of_lt hlt]⟩
  · have hrest : c.rest = [] := List.length_eq_zero_iff.1 (by have := h.length_rest; omega)
    have htoken : c.token = ⟨.endOfFile, c.endLine⟩ := by rw [Cursor.token, hrest]
    rw [htoken]
    exact ⟨h.stop, by simp [isEnd]⟩

/-- A cursor further on is in front of a later token. -/
theorem IsAt.leadsTo {room : Nat} (h : c.IsAt tokens k) (hto : c.LeadsTo room c') :
    c'.IsAt tokens (k + (c.rest.length - c'.rest.length)) where
  le := by
    have := h.length_rest
    omega
  rest := by
    rw [List.suffix_iff_eq_drop.1 hto.rest, ← List.drop_drop, ← h.rest, List.length_drop]
    congr 1
    omega
  stop := by
    rw [hto.endLine]
    exact h.stop

/-! ### Going on after a failure -/

theorem isBoundary_endIndex (tokens : List Token) : IsBoundary tokens (endIndex tokens) := by
  refine .inl ?_
  rw [endIndex, ← List.find?_eq_getElem?_findIdx, find?_withEnd 0]
  rfl

/-- Behind a token there is a boundary if the token is a semicolon or a keyword follows. -/
theorem isBoundary_succ_iff {t : Token} (hk : k + 1 < endIndex tokens)
    (ht : (withEnd tokens)[k]? = some t) :
    IsBoundary tokens (k + 1) ↔ (t.kind == .symbol .semicolon ||
      (((withEnd tokens).take (endIndex tokens)).drop (k + 1)).head?.any startsStatement) =
        true := by
  obtain ⟨t', ht', hend, hrest⟩ := drop_eq_cons hk
  simp [IsBoundary, ht, ht', hend, hrest]

/-- Parsing is resumed at the end or in front of the next boundary. -/
theorem exists_resumesAt (hk : k ≤ endIndex tokens) :
    ∃ j, ResumesAt tokens k j ∧ j ≤ endIndex tokens ∧
      resume (((withEnd tokens).take (endIndex tokens)).drop k) =
        ((withEnd tokens).take (endIndex tokens)).drop j := by
  obtain ⟨d, hd⟩ := Nat.exists_eq_add_of_le hk
  induction d generalizing k with
  | zero =>
    refine ⟨k, ⟨fun _ ↦ rfl, fun hne ↦ absurd hd.symm hne⟩, hk, ?_⟩
    rw [List.drop_eq_nil_of_le (by rw [List.length_take]; omega)]
    rfl
  | succ d ih =>
    obtain ⟨t, ht, -, hrest⟩ := drop_eq_cons (Nat.lt_of_le_of_ne hk (by omega))
    rw [hrest, resume]
    split
    · next hstop =>
      have hboundary : IsBoundary tokens (k + 1) := by
        rcases Nat.lt_or_eq_of_le (by omega : k + 1 ≤ endIndex tokens) with hlt | heq
        · exact (isBoundary_succ_iff hlt ht).2 hstop
        · exact heq ▸ isBoundary_endIndex tokens
      exact ⟨k + 1, ⟨by omega, fun _ ↦ ⟨by omega, hboundary, by omega⟩⟩, by omega, rfl⟩
    · next hstop =>
      obtain ⟨j, hj, hle, hresume⟩ := ih (k := k + 1) (by omega) (by omega)
      refine ⟨j, ⟨by omega, fun _ ↦ ?_⟩, hle, hresume⟩
      by_cases hlast : k + 1 = endIndex tokens
      · rw [hj.1 hlast]
        exact ⟨by omega, hlast ▸ isBoundary_endIndex tokens, by omega⟩
      · obtain ⟨hlt, hboundary, hleast⟩ := hj.2 hlast
        refine ⟨by omega, hboundary, fun i hki hij ↦ ?_⟩
        rcases Nat.lt_or_eq_of_le hki with hki | rfl
        · exact hleast i hki hij
        · exact fun h ↦ hstop ((isBoundary_succ_iff (by omega) ht).1 h)

end Cursor

namespace Parse

variable {α : Type} {p : Parse α} {c : Cursor} {least room : Nat}

/-- The cursor that a parser leaves behind, whether it succeeds or not. -/
def after (p : Parse α) (c : Cursor) : Cursor :=
  match p c with
  | .ok _ c' => c'
  | .error _ c' => c'

/-- The errors that have been recorded when a parser ends, and the one that it fails with. -/
def problems (p : Parse α) (c : Cursor) : List SyntaxError :=
  match p c with
  | .ok _ c' => c'.errors.toList
  | .error e c' => (c'.errors.push e).toList

theorem Advances.after (h : Advances p least room c) : c.LeadsTo room (p.after c) := by
  unfold Advances at h
  unfold Parse.after
  cases hpc : p c <;> (rw [hpc] at h; exact h.1)

/-- Where there is room no bound is reached, neither in an error that is recorded nor in the last
one. -/
theorem Advances.problems (h : Advances p least room c) (hroom : c.rest.length < room)
    (hc : c.errors = #[]) : ∀ e ∈ p.problems c, e.fault ≠ .tooDeep := by
  have hrecorded {c' : Cursor} (hto : c.LeadsTo room c') (e) (he : e ∈ c'.errors) :
      e.fault ≠ .tooDeep := by
    rcases hto.errors hroom e he with he | hdeep
    · simp [hc] at he
    · exact hdeep
  intro e he
  unfold Advances at h
  unfold Parse.problems at he
  cases hpc : p c with
  | ok a c' =>
    rw [hpc] at h he
    exact hrecorded h.1 e (by simpa using he)
  | error e' c' =>
    rw [hpc] at h he
    rcases Array.mem_push.1 (Array.mem_toList_iff.1 he) with he | rfl
    · exact hrecorded h.1 e he
    · exact h.2 hroom

/-- What goes on behind a parser adds its problems to those that are recorded by then. -/
theorem problems_bind {β : Type} {f : α → Parse β} {P : SyntaxError → Prop}
    (hp : ∀ e ∈ p.problems c, P e)
    (hf : ∀ a c', (∀ e ∈ c'.errors, P e) → ∀ e ∈ (f a).problems c', P e) :
    ∀ e ∈ (p >>= f).problems c, P e := by
  intro e he
  unfold Parse.problems at hp he
  rw [bind_apply] at he
  cases hpc : p c with
  | error e' c' =>
    rw [hpc] at hp he
    exact hp e he
  | ok a c' =>
    rw [hpc] at hp he
    exact hf a c' (fun e he ↦ hp e (Array.mem_toList_iff.2 he)) e he

theorem problems_cursor {α : Type} (f : Cursor → Parse α) (c : Cursor) :
    (cursor >>= f).problems c = (f c).problems c := rfl

end Parse

/-! ### Whole lists of tokens -/

open Cursor

theorem length_start_lt (firstId : Nat) (tokens : List Token) :
    (start firstId tokens).rest.length < enoughDepth tokens :=
  Nat.lt_succ_of_le (List.takeWhile_prefix (!isEnd ·)).length_le

theorem advance_forTokens (tokens : List Token) :
    (Rules.forTokens tokens).Advance (enoughDepth tokens) :=
  Rules.advance_atDepth (Nat.le_refl _)

/-- Parsing a program reaches no bound. -/
theorem errors_parse (firstId : Nat) (tokens : List Token) :
    ∀ e ∈ (parse firstId tokens).errors, e.fault ≠ .tooDeep := by
  have hitems := ((advance_forTokens tokens).declarations (Nat.le_refl _)
    (fun c (h : c.atEnd = false) ↦ h) (start firstId tokens)).problems
      (length_start_lt firstId tokens) rfl
  unfold Parse.problems at hitems
  unfold parse
  dsimp only
  split at hitems <;> next h => simpa only [h] using hitems

/-- Parsing an expression reaches no bound. -/
theorem problems_wholeExpression (firstId : Nat) (tokens : List Token) :
    ∀ e ∈ (wholeExpression tokens).problems (start firstId tokens), e.fault ≠ .tooDeep := by
  refine Parse.problems_bind (((advance_forTokens tokens).expression _).problems
    (length_start_lt firstId tokens) rfl) fun a c herrors e he ↦ ?_
  rw [Parse.problems_cursor] at he
  split at he
  · rcases Array.mem_push.1 (Array.mem_toList_iff.1 he) with he | rfl
    · exact herrors e he
    · intro h
      cases h
  · split at he
    · next first hfirst =>
      rcases Array.mem_push.1 (Array.mem_toList_iff.1 he) with he | rfl
      · exact herrors e he
      · exact herrors e (Array.mem_of_getElem? hfirst)
    · exact herrors e (Array.mem_toList_iff.1 he)

/-- A declaration that begins in front of the end yields something behind its first token. -/
theorem Rules.exists_declaration {r : Rules} {room bound k : Nat} {tokens : List Token} {c : Cursor}
    (hr : r.Advance room) (hb : room < bound) (hc : c.IsAt tokens k) (hk : k ≠ endIndex tokens) :
    ∃ item c' k', (r.outer bound).declaration c = .ok item c' ∧ k < k' ∧ c'.IsAt tokens k' := by
  have hdecl := (Advance.outer hr hb).declaration c
  have hlen := hc.length_rest
  unfold Parse.Advances at hdecl
  cases hout : (r.outer bound).declaration c with
  | error e c' =>
    simp only [outer, Parse.recover] at hout
    split at hout <;> cases hout
  | ok item c' =>
    rw [hout] at hdecl
    exact ⟨item, c', _, rfl, by omega, hc.leadsTo hdecl.1⟩

/-- A declaration that fails is left out, and parsing is resumed at the next boundary. -/
theorem Rules.declaration_resumes {r : Rules} {bound i : Nat} {tokens : List Token}
    {c c' : Cursor} {e : SyntaxError} (hfail : r.plainDeclaration bound c = .error e c')
    (hc' : c'.IsAt tokens i) :
    ∃ j c'', ResumesAt tokens i j ∧ (r.outer bound).declaration c = .ok none c'' ∧
      c''.IsAt tokens j ∧ c''.errors = c'.errors.push e := by
  obtain ⟨j, hj, hle, hresume⟩ := exists_resumesAt hc'.le
  refine ⟨j, { c' with rest := resume c'.rest, errors := c'.errors.push e }, hj, ?_,
    ⟨hle, ?_, hc'.stop⟩, rfl⟩
  · simp only [outer, Parse.recover, hfail]
  · rw [← hresume, ← hc'.rest]

/-- Whatever the tokens are, parsing them as a program or as an expression reaches no bound, so
that it comes to an end by itself. Its cursor starts in front of the first token and is always in
front of one, at most of the first end. No rule, however deep, leaves it further back. A
declaration takes a token unless it begins at the end, and when one fails, parsing is resumed at
the next boundary. -/
theorem parsing_goes_forward (firstId : Nat) (tokens : List Token) :
    (∀ e ∈ (parse firstId tokens).errors, e.fault ≠ .tooDeep) ∧
      (∀ e ∈ (wholeExpression tokens).problems (start firstId tokens), e.fault ≠ .tooDeep) ∧
      (start firstId tokens).IsAt tokens 0 ∧
      ∀ (k : Nat) (c : Cursor), c.IsAt tokens k →
        ((withEnd tokens)[k]? = some c.token ∧ (isEnd c.token = true ↔ k = endIndex tokens)) ∧
        ∀ depth < enoughDepth tokens,
          let r := Rules.atDepth (enoughDepth tokens) depth
          (∀ (α : Type) (p : Parse α), r.IsRule (enoughDepth tokens) p →
            ∃ k', k ≤ k' ∧ (p.after c).IsAt tokens k') ∧
          (k ≠ endIndex tokens →
            ∃ item c' k', (r.outer (enoughDepth tokens)).declaration c = .ok item c' ∧ k < k' ∧
              c'.IsAt tokens k') ∧
          ∀ e c', r.plainDeclaration (enoughDepth tokens) c = .error e c' →
            ∃ i j c'', c'.IsAt tokens i ∧ ResumesAt tokens i j ∧
              (r.outer (enoughDepth tokens)).declaration c = .ok none c'' ∧
              c''.IsAt tokens j ∧ c''.errors = c'.errors.push e := by
  refine ⟨errors_parse firstId tokens, problems_wholeExpression firstId tokens,
    isAt_start firstId tokens, fun k c hc ↦ ⟨hc.token, fun depth hdepth ↦ ?_⟩⟩
  intro r
  have hr : r.Advance depth := Rules.advance_atDepth (Nat.le_of_lt hdepth)
  refine ⟨fun α p hp ↦ ?_, Rules.exists_declaration hr hdepth hc, fun e c' hfail ↦ ?_⟩
  · exact ⟨_, Nat.le_add_right _ _, hc.leadsTo (hp.advances hr hdepth c).after⟩
  · have hto := (Rules.advances_plainDeclaration hr hdepth c).after
    unfold Parse.after at hto
    rw [hfail] at hto
    have hc' := hc.leadsTo hto
    obtain ⟨j, c'', hj⟩ := Rules.declaration_resumes hfail hc'
    exact ⟨_, j, c'', hc', hj⟩

/-- In `x + ; y` the operand that is missing makes the declaration fail in front of the semicolon,
and parsing is resumed behind it. -/
theorem parsing_goes_forward_missing_operand :
    let tokens : List Token :=
      [⟨.identifier "x", 1⟩, ⟨.symbol .plus, 1⟩, ⟨.symbol .semicolon, 1⟩, ⟨.identifier "y", 1⟩]
    ∃ c' c'', (Rules.atDepth 5 4).plainDeclaration 5 (start 0 tokens) =
        .error ⟨.noExpression, ⟨.symbol .semicolon, 1⟩⟩ c' ∧ c'.IsAt tokens 2 ∧
      ((Rules.atDepth 5 4).outer 5).declaration (start 0 tokens) = .ok none c'' ∧
        c''.IsAt tokens 3 := by
  intro tokens
  have hall := parsing_goes_forward 0 tokens
  obtain ⟨i, j, c'', hc', hj, hdecl, hc'', -⟩ :=
    ((hall.2.2.2 0 (start 0 tokens) hall.2.2.1).2 4 (by decide)).2.2
      ⟨.noExpression, ⟨.symbol .semicolon, 1⟩⟩ _ rfl
  have hi : 2 + i = 4 := hc'.length_rest
  obtain rfl : i = 2 := by omega
  obtain ⟨hlt, -, hleast⟩ := hj.2 (by decide)
  obtain rfl : j = 3 := by
    refine Nat.le_antisymm (Nat.not_lt.1 fun h ↦ ?_) hlt
    exact hleast 3 (by decide) h (by decide)
  exact ⟨_, c'', rfl, hc', hdecl, hc''⟩

end LexScript
