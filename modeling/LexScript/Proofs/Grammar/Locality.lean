import LexScript.Proofs.Grammar.Progress

/-!
# Parsing a piece inside a longer list of tokens

What a parser does depends on the tokens ahead only as far as it looks. So a parser that comes to
an end before the tokens of a piece do, with a result or with an error, does the same if there are
more tokens behind the piece and other errors were recorded before it. If it uses up the piece,
this holds of those rules that end with a token of their own: a semicolon, a brace, or a branch of
a conditional that no `else` follows.

The bounds that stand in for going on without an end may be larger around the piece, as long as
they are not reached in the piece itself.

## Main definitions

* `Surroundings`, `Cursor.within` : what stands around a piece, and a cursor with it.
* `Parse.Carries` : a parser that does the same with surroundings.

## Main statements

* `Rules.carry_atDepth` : the rules do the same with surroundings.
-/

namespace LexScript

/-- What stands around a piece of a list of tokens. -/
structure Surroundings where
  /-- The errors recorded before the piece. -/
  errors : Array SyntaxError
  /-- The tokens behind the piece. -/
  behind : List Token

/-- Whether a conditional that ends with the piece has no `else` behind it. -/
def Surroundings.NoElse (w : Surroundings) : Prop :=
  ∀ t ∈ w.behind.head?, t.kind ≠ .keyword .elseWord

namespace Cursor

/-- A cursor in a piece, in the list around the piece. -/
def within (w : Surroundings) (c : Cursor) : Cursor where
  rest := c.rest ++ w.behind
  endLine := (w.behind.getLast?.map Token.line).getD c.endLine
  nextId := c.nextId
  errors := w.errors ++ c.errors

/-- The second cursor is at the first one or further on, and no error has been dropped. -/
structure Reaches (c c' : Cursor) : Prop where
  rest : c'.rest <:+ c.rest
  errors : ∀ e ∈ c.errors, e ∈ c'.errors

/-- No bound has been reached. -/
def IsSound (c : Cursor) : Prop := ∀ e ∈ c.errors, e.fault ≠ .tooDeep

variable {w : Surroundings} {c c' c'' : Cursor}

theorem Reaches.refl (c : Cursor) : c.Reaches c := ⟨List.suffix_refl _, fun _ ↦ id⟩

theorem Reaches.trans (h : c.Reaches c') (h' : c'.Reaches c'') : c.Reaches c'' :=
  ⟨h'.rest.trans h.rest, fun e he ↦ h'.errors e (h.errors e he)⟩

theorem Reaches.isSound (h : c.Reaches c') (hc' : c'.IsSound) : c.IsSound :=
  fun e he ↦ hc' e (h.errors e he)

theorem Reaches.rest_eq_nil (h : c.Reaches c') (hc : c.rest = []) : c'.rest = [] :=
  List.suffix_nil.1 (hc ▸ h.rest)

/-- The token ahead is the same unless it stands behind the piece. -/
theorem token_within (h : c.rest = [] → w.behind = []) : (c.within w).token = c.token := by
  cases hrest : c.rest with
  | nil => simp [token, within, hrest, h hrest]
  | cons t ts => simp [token, within, hrest]

theorem sees_within (h : c.rest = [] → w.behind = []) (kind : TokenKind) :
    (c.within w).sees kind = c.sees kind := by
  rw [sees, sees, token_within h]

theorem atEnd_within (h : c.rest = [] → w.behind = []) : (c.within w).atEnd = c.atEnd := by
  cases hrest : c.rest with
  | nil => simp [atEnd, within, hrest, h hrest]
  | cons t ts => simp [atEnd, within, hrest]

theorem atBlockEnd_within (h : c.rest = [] → w.behind = []) :
    (c.within w).atBlockEnd = c.atBlockEnd := by
  rw [atBlockEnd, atBlockEnd, atEnd_within h, sees_within h]

/-- Whether a name follows is the same unless the token ahead is the last one of the piece. -/
theorem seesNameNext_within (h : c.rest.tail = [] → w.behind = []) :
    (c.within w).seesNameNext = c.seesNameNext := by
  unfold seesNameNext within
  rcases hrest : c.rest with _ | ⟨t, _ | ⟨u, ts⟩⟩
  · simp [h (by rw [hrest, List.tail_nil])]
  · simp [h (by rw [hrest, List.tail_cons])]
  · obtain ⟨kind, line⟩ := u
    cases kind <;> rfl

/-- If something is left to parse after a failure, the same and what stands behind is left. -/
theorem resume_append {ts : List Token} (h : resume ts ≠ []) (us : List Token) :
    resume (ts ++ us) = resume ts ++ us := by
  induction ts with
  | nil => exact absurd rfl h
  | cons t ts ih =>
    cases ts with
    | nil => simp [resume] at h
    | cons u ts =>
      rw [resume] at h ⊢
      rw [List.cons_append, resume, List.cons_append, List.head?_cons, List.head?_cons] at *
      split
      · rfl
      · next hstop =>
        rw [if_neg hstop] at h
        exact ih h

end Cursor

namespace Parse

variable {α β : Type} {p p' : Parse α} {f f' : α → Parse β} {w : Surroundings} {ends : Prop}
  {c : Cursor} {least least' : Nat}

/-- Unless a bound is reached, the second parser does around a piece what the first one does in
the piece: it fails in the same way if it fails in front of a token of the piece, and has the same
result if some token of the piece is left, or if none is and the condition on what stands behind
holds. A success takes at least some tokens. Without anything behind the piece there is no
condition. -/
def Carries (w : Surroundings) (ends : Prop) (least : Nat) (p p' : Parse α) (c : Cursor) : Prop :=
  match p c with
  | .ok a c' => c.Reaches c' ∧ c'.rest.length + least ≤ c.rest.length ∧
      (c'.IsSound → (c'.rest = [] → w.behind = [] ∨ ends) →
        p' (c.within w) = .ok a (c'.within w))
  | .error e c' => c.Reaches c' ∧
      (c'.IsSound → e.fault ≠ .tooDeep → (c'.rest = [] → w.behind = []) →
        p' (c.within w) = .error e (c'.within w))

/-! ### Composed parsers -/

theorem Carries.mono {ends' : Prop} (h : Carries w ends least p p' c) (hends : ends' → ends)
    (hleast : least' ≤ least) : Carries w ends' least' p p' c := by
  unfold Carries at h ⊢
  split at h
  · obtain ⟨hto, hlen, hok⟩ := h
    exact ⟨hto, by omega, fun hs hc' ↦ hok hs fun hrest ↦ (hc' hrest).imp_right hends⟩
  · exact h

theorem Carries.less (h : Carries w ends 1 p p' c) : Carries w ends 0 p p' c :=
  h.mono id (Nat.zero_le 1)

theorem carries_pure (a : α) : Carries w ends 0 (pure a) (pure a) c :=
  ⟨.refl c, Nat.le_refl _, fun _ _ ↦ rfl⟩

theorem carries_throw (e : SyntaxError) : Carries w ends least (throw e : Parse α) (throw e) c :=
  ⟨.refl c, fun _ _ _ ↦ rfl⟩

theorem carries_fail (fault : SyntaxFault) :
    Carries w ends least (fail fault : Parse α) (fail fault) c := by
  refine ⟨.refl c, fun _ _ hc ↦ ?_⟩
  rw [fail, Cursor.token_within hc]

/-- Nothing is said of a parser that has reached its bound. -/
theorem carries_tooDeep : Carries w ends least (fail .tooDeep : Parse α) p' c :=
  ⟨.refl c, fun _ hdeep ↦ absurd rfl hdeep⟩

/-- How composed parsers do the same around the piece, whatever makes the first one's result the
same. -/
theorem Carries.compose {first : Prop} {total : Nat} (hp : Carries w first least p p' c)
    (hf : ∀ a c', Carries w ends least' (f a) (f' a) c')
    (hfirst : ends → first ∨ 0 < least') (htotal : total ≤ least + least') :
    Carries w ends total (p >>= f) (p' >>= f') c := by
  unfold Carries at hp ⊢
  rw [bind_apply]
  cases hpc : p c with
  | error e c' =>
    rw [hpc] at hp
    refine ⟨hp.1, fun hs hdeep hc' ↦ ?_⟩
    rw [bind_apply, hp.2 hs hdeep hc']
  | ok a c' =>
    rw [hpc] at hp
    obtain ⟨hto, hlen, hok⟩ := hp
    have hfa := hf a c'
    unfold Carries at hfa
    dsimp only
    cases hfc : f a c' with
    | error e c'' =>
      rw [hfc] at hfa
      refine ⟨hto.trans hfa.1, fun hs hdeep hc'' ↦ ?_⟩
      rw [bind_apply, hok (hfa.1.isSound hs) fun hrest ↦ .inl (hc'' (hfa.1.rest_eq_nil hrest))]
      exact hfa.2 hs hdeep hc''
    | ok b c'' =>
      rw [hfc] at hfa
      obtain ⟨hto', hlen', hok'⟩ := hfa
      refine ⟨hto.trans hto', by omega, fun hs hc'' ↦ ?_⟩
      -- The first parser leaves a token if the second one takes some.
      have hc' (hrest : c'.rest = []) : w.behind = [] ∨ first := by
        rcases hc'' (hto'.rest_eq_nil hrest) with hnil | hends
        · exact .inl hnil
        · rw [hrest, List.length_nil] at hlen'
          exact .inr ((hfirst hends).resolve_right (by omega))
      rw [bind_apply, hok (hto'.isSound hs) hc']
      exact hok' hs hc''

theorem Carries.andThen (hp : Carries w ends least p p' c)
    (hf : ∀ a c', Carries w ends 0 (f a) (f' a) c') :
    Carries w ends least (p >>= f) (p' >>= f') c :=
  hp.compose hf .inl (Nat.le_refl _)

/-- What a parser in front of the last one does has only to be the same as long as tokens of the
piece are left. -/
theorem Carries.before (hp : Carries w False least p p' c)
    (hf : ∀ a c', Carries w ends 1 (f a) (f' a) c') :
    Carries w ends 1 (p >>= f) (p' >>= f') c :=
  hp.compose hf (fun _ ↦ .inr Nat.one_pos) (Nat.le_add_left _ _)

theorem Carries.map (hp : Carries w ends least p p' c) (g : α → β) :
    Carries w ends least (g <$> p) (g <$> p') c := by
  have hbind : Carries w ends least (p >>= fun a ↦ pure (g a)) (p' >>= fun a ↦ pure (g a)) c :=
    hp.andThen fun _ _ ↦ carries_pure _
  exact hbind

/-- What a parser does next may depend on what it sees of the piece. It has to take a token if it
goes on where it would see something behind the piece. -/
theorem carries_cursor {f f' : Cursor → Parse α} (hends : ends → 0 < least)
    (hf : (c.rest = [] → w.behind = []) → f' (c.within w) = f' c)
    (h : Carries w ends least (f c) (f' c) c) :
    Carries w ends least (cursor >>= f) (cursor >>= f') c := by
  unfold Carries at h ⊢
  simp only [bind_apply, cursor_apply]
  split at h
  · next hfc =>
    obtain ⟨hto, hlen, hok⟩ := h
    rw [hfc]
    refine ⟨hto, hlen, fun hs hc' ↦ ?_⟩
    rw [hf fun hrest ↦ ?_]
    · exact hok hs hc'
    · rw [hrest, List.length_nil] at hlen
      exact (hc' (hto.rest_eq_nil hrest)).resolve_right fun h ↦ by
        have := hends h
        omega
  · next hfc =>
    obtain ⟨hto, herror⟩ := h
    rw [hfc]
    refine ⟨hto, fun hs hdeep hc' ↦ ?_⟩
    rw [hf fun hrest ↦ hc' (hto.rest_eq_nil hrest)]
    exact herror hs hdeep hc'

theorem carries_cond {q q' : Parse α} (b : Bool) (hp : Carries w ends least p p' c)
    (hq : Carries w ends least q q' c) :
    Carries w ends least (if b then p else q) (if b then p' else q') c := by
  cases b
  · exact hq
  · exact hp

/-! ### Moving on -/

theorem carries_freshId : Carries w ends 0 freshId freshId c :=
  ⟨⟨List.suffix_refl _, fun _ ↦ id⟩, Nat.le_refl _, fun _ _ ↦ rfl⟩

theorem carries_record (fault : SyntaxFault) :
    Carries w False 0 (record fault) (record fault) c := by
  refine ⟨⟨List.suffix_refl _, fun e he ↦ Array.mem_push_of_mem _ he⟩, Nat.le_refl _,
    fun _ hc ↦ ?_⟩
  have htoken : (c.within w).token = c.token :=
    Cursor.token_within fun hrest ↦ (hc hrest).resolve_right id
  rw [record, htoken]
  simp only [Cursor.within, Array.append_push]

theorem carries_skip : Carries w False 0 skip skip c := by
  refine ⟨⟨List.tail_suffix _, fun _ ↦ id⟩, (List.tail_suffix c.rest).length_le, fun _ hc ↦ ?_⟩
  cases hrest : c.rest with
  | nil =>
    obtain hnil : w.behind = [] := (hc (by rw [hrest, List.tail_nil])).resolve_right id
    simp [Cursor.within, hrest, hnil]
  | cons t ts => simp [Cursor.within, hrest]

/-- A token that can be taken or left is the same unless it stands behind the piece. -/
theorem carries_accept {kind : TokenKind} (hkind : kind ≠ .endOfFile)
    (hends : ends → ∀ t ∈ w.behind.head?, t.kind ≠ kind) :
    Carries w ends 0 (accept kind) (accept kind) c := by
  unfold Carries
  rw [accept_apply]
  cases hrest : c.rest with
  | nil =>
    have hsees : c.sees kind = false := by simpa [Cursor.sees, Cursor.token, hrest] using hkind.symm
    rw [if_neg (by simp [hsees])]
    refine ⟨.refl c, by simp [hrest], fun _ hc ↦ ?_⟩
    have hbehind : (c.within w).sees kind = false := by
      cases hb : w.behind with
      | nil => simpa [Cursor.sees, Cursor.token, Cursor.within, hrest, hb] using hkind.symm
      | cons t ts =>
        have ht := hends ((hc hrest).resolve_left (by simp [hb])) t (by simp [hb])
        simpa [Cursor.sees, Cursor.token, Cursor.within, hrest, hb] using ht
    rw [accept_apply, if_neg (by simp [hbehind])]
  | cons t ts =>
    have hsees : (c.within w).sees kind = c.sees kind := Cursor.sees_within (by simp [hrest]) kind
    rw [← hrest]
    by_cases h : c.sees kind = true
    · rw [if_pos h]
      refine ⟨⟨List.tail_suffix _, fun _ ↦ id⟩, (List.tail_suffix c.rest).length_le,
        fun _ _ ↦ ?_⟩
      rw [accept_apply, hsees, if_pos h]
      simp [Cursor.within, hrest]
    · rw [if_neg h]
      refine ⟨.refl c, Nat.le_refl _, fun _ _ ↦ ?_⟩
      rw [accept_apply, hsees, if_neg h]

/-- A required token is one of the piece. -/
theorem carries_expectSymbol (s : Symbol) (spot : Spot) :
    Carries w ends 1 (expectSymbol s spot) (expectSymbol s spot) c := by
  refine carries_cursor (fun _ ↦ Nat.one_pos)
    (fun hc ↦ by simp only [Cursor.token_within hc]) ?_
  dsimp only
  split
  · next hs =>
    obtain ⟨t, ts, hrest⟩ := List.exists_cons_of_ne_nil
      (Cursor.rest_ne_nil_of_kind (beq_iff_eq.1 hs) nofun)
    refine ⟨⟨List.tail_suffix _, fun _ ↦ id⟩, by simp [hrest], fun _ _ ↦ ?_⟩
    simp [Cursor.within, hrest]
  · exact carries_fail _

theorem carries_expectName (role : NameRole) :
    Carries w False 0 (expectName role) (expectName role) c := by
  refine carries_cursor False.elim (fun hc ↦ by simp only [Cursor.token_within hc]) ?_
  split
  · exact carries_skip.andThen fun _ _ ↦ carries_pure _
  · exact carries_fail _

theorem carries_ifSees (kind : TokenKind) {q q' : Parse α} (hp : Carries w False 0 p p' c)
    (hq : Carries w False 0 q q' c) :
    Carries w False 0 (do if (← cursor).sees kind then p else q)
      (do if (← cursor).sees kind then p' else q') c :=
  carries_cursor False.elim
    (fun hc ↦ by simp only [Cursor.sees_within hc]) (carries_cond _ hp hq)

/-- After a failure in the piece parsing goes on at the same token, if this is one of the piece. -/
theorem Carries.recover (h : Carries w ends least p p' c) :
    Carries w False 0 (recover p) (recover p') c := by
  unfold Carries at h ⊢
  rw [Parse.recover]
  cases hpc : p c with
  | ok a c' =>
    rw [hpc] at h
    obtain ⟨hto, hlen, hok⟩ := h
    refine ⟨hto, by omega, fun hs hc' ↦ ?_⟩
    rw [Parse.recover, hok hs fun hrest ↦ (hc' hrest).imp_right False.elim]
  | error e c' =>
    rw [hpc] at h
    obtain ⟨hto, herror⟩ := h
    have hresume : Cursor.resume c'.rest <:+ c'.rest :=
      (Cursor.resume_suffix_tail c'.rest).trans (List.tail_suffix _)
    refine ⟨⟨hresume.trans hto.rest, fun e' he' ↦ Array.mem_push_of_mem _ (hto.errors e' he')⟩,
      (hresume.trans hto.rest).length_le, fun hs hc' ↦ ?_⟩
    have hnil (h : Cursor.resume c'.rest = []) : w.behind = [] := (hc' h).resolve_right id
    have hbehind : Cursor.resume (c'.rest ++ w.behind) = Cursor.resume c'.rest ++ w.behind := by
      by_cases h : Cursor.resume c'.rest = []
      · rw [hnil h, List.append_nil, List.append_nil]
      · exact Cursor.resume_append h _
    rw [Parse.recover, herror (fun e' he' ↦ hs e' (Array.mem_push_of_mem _ he'))
      (hs e Array.mem_push_self) fun hrest ↦ hnil (by rw [hrest]; rfl)]
    simp only [Cursor.within, hbehind, Array.append_push]

/-! ### Lists -/

theorem Carries.commaSeparated (h : ∀ c, Carries w False 0 p p' c) (excess : SyntaxFault)
    {bound bound' : Nat} (hb : bound ≤ bound') (count : Nat) (c : Cursor) :
    Carries w False 0 (commaSeparated excess p bound count)
      (commaSeparated excess p' bound' count) c := by
  induction bound generalizing bound' count c with
  | zero => exact carries_tooDeep
  | succ bound ih =>
    obtain ⟨bound', rfl⟩ := Nat.exists_eq_succ_of_ne_zero (Nat.ne_zero_of_lt hb)
    have hlist (c : Cursor) : Carries w False 0
        (do
          let first ← p
          if ← accept (.symbol .comma) then
            let others ← Parse.commaSeparated excess p bound (count + 1)
            pure (first :: others)
          else
            pure [first])
        (do
          let first ← p'
          if ← accept (.symbol .comma) then
            let others ← Parse.commaSeparated excess p' bound' (count + 1)
            pure (first :: others)
          else
            pure [first]) c :=
      (h c).andThen fun a _ ↦ (carries_accept (by nofun) False.elim).andThen fun b _ ↦
        carries_cond b
          ((ih (Nat.le_of_succ_le_succ hb) (count + 1) _).andThen fun as _ ↦ carries_pure (a :: as))
          (carries_pure [a])
    unfold Parse.commaSeparated
    split
    · exact (carries_record excess).andThen fun _ ↦ hlist
    · exact (carries_pure ()).andThen fun _ ↦ hlist

theorem Carries.itemsUntil {stop : Cursor → Bool}
    (hstop : ∀ c : Cursor, (c.rest = [] → w.behind = []) → stop (c.within w) = stop c)
    (h : ∀ c, Carries w False 0 p p' c) {bound bound' : Nat} (hb : bound ≤ bound') (c : Cursor) :
    Carries w False 0 (itemsUntil stop p bound) (itemsUntil stop p' bound') c := by
  induction bound generalizing bound' c with
  | zero => exact carries_tooDeep
  | succ bound ih =>
    obtain ⟨bound', rfl⟩ := Nat.exists_eq_succ_of_ne_zero (Nat.ne_zero_of_lt hb)
    refine carries_cursor False.elim (fun hc ↦ by simp only [hstop c hc]) (carries_cond _ ?_ ?_)
    · exact carries_pure []
    · exact (h c).andThen fun a c ↦
        (ih (Nat.le_of_succ_le_succ hb) c).andThen fun as _ ↦ carries_pure (a :: as)

end Parse

namespace Rules

open Parse

/-- The second rules do around a piece what the first ones do in the piece. A statement ends with
a token of its own, or with a branch that no `else` follows. -/
structure Carry (w : Surroundings) (r r' : Rules) : Prop where
  expression : ∀ c, Carries w False 0 r.expression r'.expression c
  unary : ∀ c, Carries w False 0 r.unary r'.unary c
  statement : ∀ c, Carries w w.NoElse 1 r.statement r'.statement c
  declaration : ∀ c, Carries w False 0 r.declaration r'.declaration c

variable {w : Surroundings} {r r' : Rules} {bound bound' : Nat} {ends : Prop}

/-! ### Expressions -/

theorem carries_fresh {α : Type} (make : Nat → α) (c : Cursor) :
    Carries w ends 0 (do pure (make (← freshId))) (do pure (make (← freshId))) c :=
  carries_freshId.andThen fun _ _ ↦ carries_pure _

theorem carries_leaf (make : Nat → Expr) (c : Cursor) :
    Carries w False 0 (leaf make) (leaf make) c :=
  carries_skip.andThen fun _ ↦ carries_fresh make

theorem carries_assignTo (target : Expr) (equals : Token) (value : Expr) (c : Cursor) :
    Carries w False 0 (assignTo target equals value) (assignTo target equals value) c := by
  unfold assignTo
  split
  · exact carries_fresh _ c
  · exact carries_fresh _ c
  · exact carries_throw _

variable (hr : r.Carry w r') (hb : bound ≤ bound')

include hr hb

theorem carries_block (c : Cursor) : Carries w ends 1 (r.block bound) (r'.block bound') c :=
  (Carries.itemsUntil (fun _ ↦ Cursor.atBlockEnd_within) hr.declaration hb c).before fun _ _ ↦
    (carries_expectSymbol _ _).andThen fun _ _ ↦ carries_pure _

theorem carries_behindParameters (form : FunctionForm) (params : List Ident) (c : Cursor) :
    Carries w ends 1 (r.behindParameters bound form params)
      (r'.behindParameters bound' form params) c :=
  (carries_expectSymbol _ _).before fun _ _ ↦ (carries_expectSymbol _ _).before fun _ c ↦
    (carries_block hr hb c).andThen fun _ _ ↦ carries_pure _

theorem carries_functionTail (form : FunctionForm) (c : Cursor) :
    Carries w ends 1 (r.functionTail bound form) (r'.functionTail bound' form) c := by
  have hparams := Carries.commaSeparated (fun c ↦ carries_expectName (w := w) (c := c) .parameter)
    .tooManyParameters hb 0 c
  exact carries_cursor (fun _ ↦ Nat.one_pos)
    (fun hc ↦ by simp only [Cursor.sees_within hc])
    (carries_cond _ (carries_behindParameters hr hb form [] c)
      (hparams.before (carries_behindParameters hr hb form)))

theorem carries_function (form : FunctionForm) (c : Cursor) :
    Carries w ends 1 (r.function bound form) (r'.function bound' form) c :=
  (carries_expectName _).before fun _ _ ↦ (carries_expectSymbol _ _).before fun _ c ↦
    (carries_functionTail hr hb form c).andThen fun _ _ ↦ carries_pure _

theorem carries_primary (c : Cursor) :
    Carries w False 0 (r.primary bound) (r'.primary bound') c := by
  refine carries_cursor False.elim (fun hc ↦ by simp only [Cursor.token_within hc]) ?_
  dsimp only
  split
  case h_8 =>
    exact carries_skip.andThen fun _ _ ↦
      (carries_expectSymbol _ _).less.andThen fun _ _ ↦
        (carries_expectName _).andThen fun _ ↦ carries_fresh _
  case h_9 =>
    exact carries_skip.andThen fun _ c ↦ (hr.expression c).andThen fun _ _ ↦
      (carries_expectSymbol _ _).less.andThen fun _ ↦ carries_fresh _
  case h_10 =>
    exact carries_skip.andThen fun _ _ ↦
      (carries_expectSymbol _ _).less.andThen fun _ c ↦
        (carries_functionTail hr hb .lambda c).less.andThen fun _ ↦
          carries_fresh _
  case h_11 => exact carries_fail _
  all_goals exact carries_leaf _ c

theorem carries_finishCall (callee : Expr) (c : Cursor) :
    Carries w False 0 (r.finishCall bound callee) (r'.finishCall bound' callee) c := by
  have harguments := Carries.commaSeparated hr.expression .tooManyArguments hb 0 c
  have hrest (es : List Expr) (c : Cursor) : Carries w False 0
      (do
        let line ← expectSymbol .rightParen .afterArguments
        pure (Expr.call (← freshId) callee line es))
      (do
        let line ← expectSymbol .rightParen .afterArguments
        pure (Expr.call (← freshId) callee line es)) c :=
    (carries_expectSymbol _ _).less.andThen fun line ↦
      carries_fresh (Expr.call · callee line es)
  exact carries_ifSees _ (hrest [] c) (harguments.andThen hrest)

theorem carries_callTail {turns turns' : Nat} (hturns : turns ≤ turns') (e : Expr) (c : Cursor) :
    Carries w False 0 (r.callTail bound turns e) (r'.callTail bound' turns' e) c := by
  induction turns generalizing turns' e c with
  | zero => exact carries_tooDeep
  | succ turns ih =>
    obtain ⟨turns', rfl⟩ := Nat.exists_eq_succ_of_ne_zero (Nat.ne_zero_of_lt hturns)
    have hturns := Nat.le_of_succ_le_succ hturns
    refine (carries_accept (by nofun) False.elim).andThen fun b c ↦ carries_cond b
      ((carries_finishCall hr hb e c).andThen (ih hturns)) ?_
    refine (carries_accept (by nofun) False.elim).andThen fun b c ↦
      carries_cond b ?_ (carries_pure e)
    exact (carries_expectName _).andThen fun _ _ ↦ carries_freshId.andThen fun _ ↦ ih hturns _

theorem carries_call (c : Cursor) : Carries w False 0 (r.call bound) (r'.call bound') c :=
  (carries_primary hr hb c).andThen (carries_callTail hr hb hb)

theorem carries_unaryLevel (c : Cursor) :
    Carries w False 0 (r.unaryLevel bound) (r'.unaryLevel bound') c := by
  refine carries_cursor False.elim (fun hc ↦ by simp only [Cursor.token_within hc]) ?_
  dsimp only
  split
  · exact carries_skip.andThen fun _ c ↦ (hr.unary c).andThen fun _ ↦ carries_fresh _
  · exact carries_call hr hb c

omit hr in
theorem carries_level {β : Type} (op? : TokenKind → Option β)
    (join : Nat → β → Nat → Expr → Expr → Expr) {operand operand' : Parse Expr}
    (h : ∀ c, Carries w False 0 operand operand' c) (c : Cursor) :
    Carries w False 0 (level bound op? join operand) (level bound' op? join operand') c := by
  suffices htail : ∀ turns turns' e c, turns ≤ turns' → Carries w False 0
      (operatorTail op? join operand turns e) (operatorTail op? join operand' turns' e) c from
    (h c).andThen fun e c ↦ htail bound bound' e c hb
  intro turns
  induction turns with
  | zero => exact fun _ _ _ _ ↦ carries_tooDeep
  | succ turns ih =>
    intro turns' e c hturns
    obtain ⟨turns', rfl⟩ := Nat.exists_eq_succ_of_ne_zero (Nat.ne_zero_of_lt hturns)
    refine carries_cursor False.elim (fun hc ↦ by simp only [Cursor.token_within hc]) ?_
    dsimp only
    split
    · exact carries_skip.andThen fun _ c ↦ (h c).andThen fun _ _ ↦ carries_freshId.andThen
        fun _ c ↦ ih turns' _ c (Nat.le_of_succ_le_succ hturns)
    · exact carries_pure e

theorem carries_logicOr (c : Cursor) :
    Carries w False 0 (r.logicOr bound) (r'.logicOr bound') c :=
  carries_level hb orOp? .logical (carries_level hb andOp? .logical <|
    carries_level hb equalityOp? .binary <| carries_level hb comparisonOp? .binary <|
      carries_level hb termOp? .binary <| carries_level hb factorOp? .binary <|
        carries_unaryLevel hr hb) c

theorem carries_assignment (c : Cursor) :
    Carries w False 0 (r.assignment bound) (r'.assignment bound') c := by
  refine (carries_logicOr hr hb c).andThen fun target c ↦ ?_
  refine carries_cursor False.elim (fun hc ↦ by simp only [Cursor.token_within hc]) ?_
  exact carries_cond _
    (carries_skip.andThen fun _ c ↦ (hr.expression c).andThen (carries_assignTo target _))
    (carries_pure target)

/-! ### Statements -/

theorem carries_expressionStatement (c : Cursor) :
    Carries w ends 1 (r.expressionStatement bound) (r'.expressionStatement bound') c :=
  (carries_assignment hr hb c).before fun _ _ ↦ (carries_expectSymbol _ _).andThen
    fun _ _ ↦ carries_pure _

theorem carries_varDeclaration (c : Cursor) :
    Carries w ends 1 (r.varDeclaration bound) (r'.varDeclaration bound') c := by
  have hrest (x : Ident) (value : Option Expr) (c : Cursor) : Carries w ends 1
      (do
        let _ ← expectSymbol .semicolon .afterVariableDeclaration
        pure (Stmt.varDecl x value))
      (do
        let _ ← expectSymbol .semicolon .afterVariableDeclaration
        pure (Stmt.varDecl x value)) c :=
    (carries_expectSymbol _ _).andThen fun _ _ ↦ carries_pure _
  exact (carries_expectName _).before fun x _ ↦ (carries_accept (by nofun) False.elim).before
    fun b c ↦ carries_cond b (((carries_assignment hr hb c).map some).before (hrest x))
      ((carries_pure none).before (hrest x))

theorem carries_optionalExpression (s : Symbol) (c : Cursor) :
    Carries w False 0 (r.optionalExpression bound s) (r'.optionalExpression bound' s) c :=
  carries_ifSees _ (carries_pure none) ((carries_assignment hr hb c).map some)

theorem carries_forInitializer (c : Cursor) :
    Carries w False 0 (r.forInitializer bound) (r'.forInitializer bound') c :=
  (carries_accept (by nofun) False.elim).andThen fun b _ ↦ carries_cond b (carries_pure none) <|
    (carries_accept (by nofun) False.elim).andThen fun b c ↦ carries_cond b
      ((carries_varDeclaration hr hb c).map some).less
      ((carries_expressionStatement hr hb c).map some).less

theorem carries_forStatement (c : Cursor) :
    Carries w w.NoElse 1 (r.forStatement bound) (r'.forStatement bound') c := by
  refine (carries_expectSymbol _ _).before fun _ c ↦ (carries_forInitializer hr hb c).before
    fun _ c ↦ (carries_optionalExpression hr hb _ c).before fun condition _ ↦
      (carries_expectSymbol _ _).before fun _ c ↦
        (carries_optionalExpression hr hb _ c).before fun _ _ ↦
          (carries_expectSymbol _ _).before fun _ c ↦ (hr.statement c).andThen fun _ _ ↦ ?_
  cases condition with
  | some e => exact carries_pure _
  | none => exact carries_freshId.andThen fun _ _ ↦ carries_pure _

theorem carries_ifStatement (c : Cursor) :
    Carries w w.NoElse 1 (r.ifStatement bound) (r'.ifStatement bound') c := by
  refine (carries_expectSymbol _ _).before fun _ c ↦ (carries_assignment hr hb c).before
    fun _ _ ↦ (carries_expectSymbol _ _).before fun _ c ↦ (hr.statement c).andThen fun _ _ ↦ ?_
  exact (carries_accept (by nofun) id).andThen fun b c ↦ carries_cond b
    (((hr.statement c).map some).less.andThen fun _ _ ↦ carries_pure _)
    ((carries_pure none).andThen fun _ _ ↦ carries_pure _)

theorem carries_whileStatement (c : Cursor) :
    Carries w w.NoElse 1 (r.whileStatement bound) (r'.whileStatement bound') c :=
  (carries_expectSymbol _ _).before fun _ c ↦ (carries_assignment hr hb c).before fun _ _ ↦
    (carries_expectSymbol _ _).before fun _ c ↦ (hr.statement c).andThen fun _ _ ↦ carries_pure _

theorem carries_printStatement (line : Nat) (c : Cursor) :
    Carries w ends 1 (r.printStatement bound line) (r'.printStatement bound' line) c :=
  (carries_assignment hr hb c).before fun _ _ ↦ (carries_expectSymbol _ _).andThen
    fun _ _ ↦ carries_pure _

theorem carries_returnStatement (line : Nat) (c : Cursor) :
    Carries w ends 1 (r.returnStatement bound line) (r'.returnStatement bound' line) c :=
  (carries_optionalExpression hr hb _ c).before fun _ _ ↦ (carries_expectSymbol _ _).andThen
    fun _ _ ↦ carries_pure _

theorem carries_plainStatement (c : Cursor) :
    Carries w w.NoElse 1 (r.plainStatement bound) (r'.plainStatement bound') c := by
  refine carries_cursor (fun _ ↦ Nat.one_pos)
    (fun hc ↦ by simp only [Cursor.token_within hc]) ?_
  dsimp only
  split
  · exact carries_skip.before fun _ ↦ carries_forStatement hr hb
  · exact carries_skip.before fun _ ↦ carries_ifStatement hr hb
  · exact carries_skip.before fun _ ↦ carries_whileStatement hr hb
  · exact carries_skip.before fun _ ↦ carries_returnStatement hr hb _
  · exact carries_skip.before fun _ c ↦ (carries_block hr hb c).map Stmt.block
  · exact carries_skip.before fun _ ↦ carries_printStatement hr hb _
  · exact carries_expressionStatement hr hb c

/-! ### Declarations -/

omit hr hb in
theorem carries_superclassClause (c : Cursor) :
    Carries w False 0 superclassClause superclassClause c :=
  (carries_accept (by nofun) False.elim).andThen fun b _ ↦ carries_cond b
    ((carries_expectName _).andThen fun _ _ ↦ carries_freshId.andThen fun _ _ ↦ carries_pure _)
    (carries_pure none)

theorem carries_classDeclaration (c : Cursor) :
    Carries w ends 1 (r.classDeclaration bound) (r'.classDeclaration bound') c := by
  have hmethods (c : Cursor) : Carries w False 0
      (itemsUntil Cursor.atBlockEnd (r.function bound .method) bound)
      (itemsUntil Cursor.atBlockEnd (r'.function bound' .method) bound') c :=
    Carries.itemsUntil (fun _ ↦ Cursor.atBlockEnd_within)
      (fun c ↦ (carries_function hr hb .method c).less) hb c
  exact (carries_expectName _).before fun _ c ↦ (carries_superclassClause c).before fun _ _ ↦
    (carries_expectSymbol _ _).before fun _ c ↦ (hmethods c).before fun _ _ ↦
      (carries_expectSymbol _ _).andThen fun _ _ ↦ carries_pure _

omit hr hb in
/-- A `fun` with nothing behind it is no statement. -/
theorem plainStatement_fun {c : Cursor} {line : Nat}
    (hc : c.rest = [⟨.keyword .funWord, line⟩]) :
    r.plainStatement bound c =
      .error ⟨.missingSymbol .leftParen .afterFun, ⟨.endOfFile, c.endLine⟩⟩
        { c with rest := [] } := by
  obtain ⟨_, _, _, _⟩ := c
  subst hc
  simp [plainStatement, expressionStatement, assignment, logicOr, logicAnd, equality, comparison,
    term, factor, level, unaryLevel, unaryOp?, call, primary, expectSymbol, fail, Cursor.token]

theorem carries_plainDeclaration (c : Cursor) :
    Carries w w.NoElse 1 (r.plainDeclaration bound) (r'.plainDeclaration bound') c := by
  by_cases hlast : (∃ line, c.rest = [⟨.keyword .funWord, line⟩]) ∧ w.behind ≠ []
  · -- The keyword alone is no declaration, whatever stands behind it.
    obtain ⟨⟨line, hrest⟩, hbehind⟩ := hlast
    have hplain : r.plainDeclaration bound c = r.plainStatement bound c := by
      simp [plainDeclaration, Cursor.token, Cursor.seesNameNext, hrest]
    unfold Carries
    rw [hplain, plainStatement_fun hrest]
    exact ⟨⟨List.nil_suffix, fun _ ↦ id⟩, fun _ _ h ↦ absurd (h rfl) hbehind⟩
  · have hnext (hkind : c.token.kind = .keyword .funWord) :
        (c.within w).seesNameNext = c.seesNameNext := by
      refine Cursor.seesNameNext_within fun htail ↦ ?_
      rcases hrest : c.rest with _ | ⟨⟨kind, line⟩, ts⟩
      · simp [Cursor.token, hrest] at hkind
      · rw [hrest, List.tail_cons] at htail
        subst htail
        rw [Cursor.token, hrest] at hkind
        subst hkind
        exact Classical.not_not.1 fun h ↦ hlast ⟨⟨line, hrest⟩, h⟩
    refine carries_cursor (fun _ ↦ Nat.one_pos) (fun hc ↦ ?_) ?_
    · rw [Cursor.token_within hc]
      split
      · rfl
      · rfl
      · next hkind => rw [hnext hkind]
      · rfl
    split
    · exact carries_skip.before fun _ ↦ carries_classDeclaration hr hb
    · exact carries_skip.before fun _ ↦ carries_varDeclaration hr hb
    · exact carries_cond _
        (carries_skip.before fun _ c ↦ (carries_function hr hb .function c).map Stmt.funDecl)
        (carries_plainStatement hr hb c)
    · exact carries_plainStatement hr hb c

/-! ### All rules -/

theorem Carry.outer : (r.outer bound).Carry w (r'.outer bound') where
  expression := carries_assignment hr hb
  unary := carries_unaryLevel hr hb
  statement := carries_plainStatement hr hb
  declaration c := (carries_plainDeclaration hr hb c).recover

omit hr in
/-- Rules that go deeper and take more turns do the same around a piece. -/
theorem carry_atDepth {depth depth' : Nat} (hd : depth ≤ depth') :
    (atDepth bound depth).Carry w (atDepth bound' depth') := by
  induction depth generalizing depth' with
  | zero =>
    exact ⟨fun _ ↦ carries_tooDeep, fun _ ↦ carries_tooDeep, fun _ ↦ carries_tooDeep,
      fun _ ↦ carries_tooDeep⟩
  | succ depth ih =>
    obtain ⟨depth', rfl⟩ := Nat.exists_eq_succ_of_ne_zero (Nat.ne_zero_of_lt hd)
    exact (ih (Nat.le_of_succ_le_succ hd)).outer hb

end Rules

end LexScript
