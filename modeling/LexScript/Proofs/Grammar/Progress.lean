import LexScript.Proofs.Grammar.Completeness

/-!
# Parsing moves forward

Whatever the tokens are, a parser leaves its cursor at a later token or at the same one, and one
that succeeds has moved over a token, unless what it looks for can be empty. So parsing comes to an
end: the rules come back to each other only behind a token, and a loop takes a token in each of its
turns. The depth and the number of turns that stand in for going on without an end are never used
up while fewer tokens than these are ahead.

## Main definitions

* `Cursor.LeadsTo` : a cursor that parsing can come to.
* `Parse.Advances` : a parser that moves forward.
* `Rules.Advance` : rules that move forward.
* `Rules.IsRule` : everything that a grammar consists of.

## Main statements

* `Rules.advance_atDepth` : the rules move forward at every depth.
* `Rules.IsRule.advances` : nothing in the grammar goes back.
-/

namespace LexScript

/-- The second cursor is at the first one or further on. If fewer tokens than `room` were ahead, no
bound has been reached on the way. -/
structure Cursor.LeadsTo (room : Nat) (c c' : Cursor) : Prop where
  rest : c'.rest <:+ c.rest
  endLine : c'.endLine = c.endLine
  errors : c.rest.length < room → ∀ e ∈ c'.errors, e ∈ c.errors ∨ e.fault ≠ .tooDeep

namespace Cursor

variable {room room' least : Nat} {c c' c'' : Cursor}

theorem LeadsTo.refl (c : Cursor) : c.LeadsTo room c := ⟨List.suffix_refl _, rfl, fun _ _ ↦ .inl⟩

theorem LeadsTo.mono (h : c.LeadsTo room c') (hroom : room' ≤ room) : c.LeadsTo room' c' :=
  ⟨h.rest, h.endLine, fun hlt ↦ h.errors (by omega)⟩

theorem LeadsTo.trans (h : c.LeadsTo room c') (h' : c'.LeadsTo room' c'')
    (hlt : c.rest.length < room → c'.rest.length < room') : c.LeadsTo room c'' := by
  refine ⟨h'.rest.trans h.rest, h'.endLine.trans h.endLine, fun hroom e he ↦ ?_⟩
  rcases h'.errors (hlt hroom) e he with he | hdeep
  · exact h.errors hroom e he
  · exact .inr hdeep

/-- A token that is no end is one of those ahead. -/
theorem rest_ne_nil_of_kind {kind : TokenKind} (h : c.token.kind = kind)
    (hkind : kind ≠ .endOfFile) : c.rest ≠ [] := by
  intro hrest
  rw [token, hrest] at h
  exact hkind h.symm

end Cursor

namespace Parse

variable {α β : Type} {p : Parse α} {c : Cursor} {least least' room room' : Nat}

/-- However a parser ends, it has moved forward, by at least some tokens if it succeeds, and where
fewer tokens than `room` are ahead it reaches no bound. -/
def Advances (p : Parse α) (least room : Nat) (c : Cursor) : Prop :=
  match p c with
  | .ok _ c' => c.LeadsTo room c' ∧ c'.rest.length + least ≤ c.rest.length
  | .error e c' => c.LeadsTo room c' ∧ (c.rest.length < room → e.fault ≠ .tooDeep)

/-! ### Composed parsers -/

theorem Advances.mono (h : Advances p least room c) (hleast : least' ≤ least)
    (hroom : room' ≤ room) : Advances p least' room' c := by
  unfold Advances at h ⊢
  split at h
  · exact ⟨h.1.mono hroom, by omega⟩
  · exact ⟨h.1.mono hroom, fun hlt ↦ h.2 (by omega)⟩

theorem Advances.less (h : Advances p least (room + 1) c) : Advances p least room c :=
  h.mono (Nat.le_refl _) (Nat.le_succ _)

theorem advances_pure (a : α) : Advances (pure a) 0 room c := ⟨.refl c, Nat.le_refl _⟩

theorem advances_throw {e : SyntaxError} (he : e.fault ≠ .tooDeep) :
    Advances (throw e : Parse α) least room c := ⟨.refl c, fun _ ↦ he⟩

theorem advances_fail {fault : SyntaxFault} (hfault : fault ≠ .tooDeep) :
    Advances (fail fault : Parse α) least room c := ⟨.refl c, fun _ ↦ hfault⟩

/-- A parser that goes no further says nothing where there is no room. -/
theorem advances_tooDeep : Advances (fail .tooDeep : Parse α) least 0 c :=
  ⟨.refl c, fun hlt ↦ absurd hlt (Nat.not_lt_zero _)⟩

/-- A parser goes on behind the tokens that another one has moved over, with as much less room. -/
theorem Advances.bind {f : α → Parse β} {total : Nat} (hp : Advances p least room c)
    (hf : ∀ a c', Advances (f a) least' room' c') (hroom : room ≤ room' + least)
    (htotal : total ≤ least + least') : Advances (p >>= f) total room c := by
  unfold Advances at hp ⊢
  rw [bind_apply]
  cases hpc : p c with
  | error e c' =>
    rw [hpc] at hp
    exact hp
  | ok a c' =>
    rw [hpc] at hp
    obtain ⟨hto, hleast⟩ := hp
    have hfa := hf a c'
    unfold Advances at hfa
    have hlt : c.rest.length < room → c'.rest.length < room' := by omega
    dsimp only
    cases hfc : f a c' with
    | error e c'' =>
      rw [hfc] at hfa
      exact ⟨hto.trans hfa.1 hlt, fun h ↦ hfa.2 (hlt h)⟩
    | ok b c'' =>
      rw [hfc] at hfa
      exact ⟨hto.trans hfa.1 hlt, by omega⟩

/-- Parsers one behind the other move over a token if the first one does. -/
theorem Advances.andThen {f : α → Parse β} (hp : Advances p least room c)
    (hf : ∀ a c', Advances (f a) least' room c') : Advances (p >>= f) least room c :=
  hp.bind hf (Nat.le_add_right _ _) (Nat.le_add_right _ _)

/-- Parsers one behind the other move over a token if the second one does. -/
theorem Advances.before {f : α → Parse β} (hp : Advances p least room c)
    (hf : ∀ a c', Advances (f a) least' room c') : Advances (p >>= f) least' room c :=
  hp.bind hf (Nat.le_add_right _ _) (Nat.le_add_left _ _)

theorem Advances.map (hp : Advances p least room c) (f : α → β) :
    Advances (f <$> p) least room c := by
  unfold Advances at hp ⊢
  rw [map_apply]
  cases hpc : p c with
  | error e c' => simpa only [hpc] using hp
  | ok a c' => simpa only [hpc] using hp

theorem advances_cursor {f : Cursor → Parse α} (h : Advances (f c) least room c) :
    Advances (cursor >>= f) least room c := h

theorem advances_cond {q : Parse α} (b : Bool) (hp : b = true → Advances p least room c)
    (hq : b = false → Advances q least room c) :
    Advances (if b then p else q) least room c := by
  cases b
  · exact hq rfl
  · exact hp rfl

/-! ### Moving on -/

theorem advances_freshId : Advances freshId 0 room c :=
  ⟨⟨List.suffix_refl _, rfl, fun _ _ ↦ .inl⟩, Nat.le_refl _⟩

theorem advances_record {fault : SyntaxFault} (hfault : fault ≠ .tooDeep) :
    Advances (record fault) 0 room c := by
  refine ⟨⟨List.suffix_refl _, rfl, fun _ e he ↦ ?_⟩, Nat.le_refl _⟩
  rcases Array.mem_push.1 he with he | rfl
  · exact .inl he
  · exact .inr hfault

theorem advances_skip (hc : c.rest ≠ []) : Advances skip 1 room c := by
  refine ⟨⟨List.tail_suffix _, rfl, fun _ _ ↦ .inl⟩, ?_⟩
  have := List.length_pos_iff.2 hc
  rw [List.length_tail]
  omega

/-- A parser goes on behind the token ahead, which is no end. -/
theorem advances_skip_bind {f : Unit → Parse α} {kind : TokenKind} (hc : c.token.kind = kind)
    (hkind : kind ≠ .endOfFile) (hf : ∀ c', Advances (f ()) least room c') :
    Advances (skip >>= f) 1 (room + 1) c :=
  (advances_skip (Cursor.rest_ne_nil_of_kind hc hkind)).bind (fun _ ↦ hf) (Nat.le_refl _)
    (Nat.le_add_right _ _)

/-- A parser goes on behind a token of a kind, if this is ahead, and otherwise in another way. -/
theorem advances_accept_bind {kind : TokenKind} (hkind : kind ≠ .endOfFile) {f : Bool → Parse α}
    (hfound : ∀ c', Advances (f true) least (room - 1) c')
    (hmissed : Advances (f false) least' room c) : Advances (accept kind >>= f) 0 room c := by
  by_cases hsees : c.sees kind = true
  · have heq : (accept kind >>= f) c = (skip >>= fun _ ↦ f true) c := by
      simp [bind_apply, hsees]
    unfold Advances
    rw [heq]
    exact (advances_skip_bind (beq_iff_eq.1 hsees) hkind hfound).mono (Nat.zero_le _) (by omega)
  · have heq : (accept kind >>= f) c = f false c := by
      simp [bind_apply, hsees]
    unfold Advances
    rw [heq]
    exact hmissed.mono (Nat.zero_le _) (Nat.le_refl _)

theorem advances_expectSymbol (s : Symbol) (spot : Spot) :
    Advances (expectSymbol s spot) 1 room c := by
  refine advances_cursor (advances_cond _ (fun hs ↦ ?_) fun _ ↦ advances_fail nofun)
  have hc : c.rest ≠ [] := Cursor.rest_ne_nil_of_kind (beq_iff_eq.1 hs) nofun
  exact (advances_skip hc).andThen fun _ _ ↦ advances_pure _

theorem advances_expectName (role : NameRole) : Advances (expectName role) 1 room c := by
  refine advances_cursor ?_
  split
  · next htoken =>
    have hc : c.rest ≠ [] := Cursor.rest_ne_nil_of_kind (congrArg Token.kind htoken) nofun
    exact (advances_skip hc).andThen fun _ _ ↦ advances_pure _
  · exact advances_fail nofun

/-! ### Lists -/

/-- Items with commas between them take a token in each turn, so that the turns are not used up
where not more than this number of tokens is ahead. -/
theorem advances_commaSeparated {excess : SyntaxFault} (hexcess : excess ≠ .tooDeep)
    {item : Parse α} (hitem : ∀ c, Advances item 1 room c) {bound : Nat} (hbound : room ≤ bound)
    (count : Nat) (c : Cursor) : Advances (commaSeparated excess item bound count) 1 room c := by
  induction bound generalizing room count c with
  | zero =>
    obtain rfl := Nat.le_zero.1 hbound
    exact advances_tooDeep
  | succ bound ih =>
    have hlist (c : Cursor) : Advances
        (do
          let first ← item
          if ← accept (.symbol .comma) then
            let others ← commaSeparated excess item bound (count + 1)
            pure (first :: others)
          else
            pure [first]) 1 room c := by
      have hothers := ih (fun c ↦ (hitem c).mono (Nat.le_refl _) (Nat.sub_le _ 1)) (by omega)
        (count + 1)
      exact (hitem c).andThen fun first c ↦ advances_accept_bind (by nofun)
        (fun c ↦ (hothers c).andThen fun _ _ ↦ advances_pure _) (advances_pure _)
    unfold commaSeparated
    split
    · exact (advances_record hexcess).before fun _ ↦ hlist
    · exact hlist c

/-- Items take a token in each turn as long as there are any to come. -/
theorem advances_itemsUntil {stop : Cursor → Bool} {item : Parse α}
    (hitem : ∀ c, stop c = false → Advances item 1 room c) {bound : Nat} (hbound : room ≤ bound)
    (c : Cursor) : Advances (itemsUntil stop item bound) 0 room c := by
  induction bound generalizing room c with
  | zero =>
    obtain rfl := Nat.le_zero.1 hbound
    exact advances_tooDeep
  | succ bound ih =>
    refine advances_cursor (advances_cond _ (fun _ ↦ advances_pure _) fun hstop ↦ ?_)
    have hothers (first : α) (c : Cursor) : Advances
        (do
          let others ← itemsUntil stop item bound
          pure (first :: others)) 0 (room - 1) c :=
      (ih (fun c hc ↦ (hitem c hc).mono (Nat.le_refl _) (by omega)) (by omega) c).andThen
        fun _ _ ↦ advances_pure _
    exact (hitem c hstop).bind hothers (by omega) (by omega)

/-! ### Going on after a failure -/

end Parse

/-- What is left after a failure begins behind the token that the failure is anchored at. -/
theorem Cursor.resume_suffix_tail (ts : List Token) : resume ts <:+ ts.tail := by
  induction ts with
  | nil => exact List.suffix_refl _
  | cons t ts ih =>
    rw [resume, List.tail_cons]
    split
    · exact List.suffix_refl _
    · exact ih.trans (List.tail_suffix ts)

namespace Parse

variable {α β : Type} {p : Parse α} {c : Cursor} {least room : Nat}

/-- A parser that resumes after a failure moves over a token, unless none is ahead. -/
theorem Advances.recover (hp : Advances p 1 room c) :
    Advances (recover p) (min 1 c.rest.length) room c := by
  unfold Advances at hp ⊢
  rw [Parse.recover]
  cases hpc : p c with
  | ok a c' =>
    rw [hpc] at hp
    exact ⟨hp.1, by have := hp.2; omega⟩
  | error e c' =>
    rw [hpc] at hp
    obtain ⟨hto, hfault⟩ := hp
    have hresume := Cursor.resume_suffix_tail c'.rest
    refine ⟨⟨(hresume.trans (List.tail_suffix _)).trans hto.rest, hto.endLine,
      fun hlt e' he' ↦ ?_⟩, ?_⟩
    · rcases Array.mem_push.1 he' with he' | rfl
      · exact hto.errors hlt e' he'
      · exact .inr (hfault hlt)
    · have hlen := hresume.length_le
      have hto := hto.rest.length_le
      rw [List.length_tail] at hlen
      dsimp only
      omega

end Parse

namespace Rules

open Parse

/-- The rules move over a token. A declaration also does so after a failure, if one is ahead. -/
structure Advance (r : Rules) (room : Nat) : Prop where
  expression : ∀ c, Advances r.expression 1 room c
  unary : ∀ c, Advances r.unary 1 room c
  statement : ∀ c, Advances r.statement 1 room c
  declaration : ∀ c : Cursor, Advances r.declaration (min 1 c.rest.length) room c

variable {r : Rules} {room bound : Nat}

/-- Declarations are looked for as long as tokens are ahead. -/
theorem Advance.declarations (hr : r.Advance room) (hb : room ≤ bound) {stop : Cursor → Bool}
    (hstop : ∀ c : Cursor, stop c = false → c.atEnd = false) (c : Cursor) :
    Advances (itemsUntil stop r.declaration bound) 0 room c := by
  refine advances_itemsUntil (fun c hc ↦ (hr.declaration c).mono ?_ (Nat.le_refl _)) hb c
  have hlen : 0 < c.rest.length := by simpa [Cursor.atEnd, List.length_pos_iff] using hstop c hc
  omega

section Behind

variable (hr : r.Advance room) (hb : room ≤ bound)

include hr hb

/-! ### Rules behind a token -/

theorem advances_block (c : Cursor) : Advances (r.block bound) 1 room c := by
  have hitems : Advances (itemsUntil Cursor.atBlockEnd r.declaration bound) 0 room c :=
    hr.declarations hb (fun _ hc ↦ (Bool.or_eq_false_iff.1 hc).1) c
  exact hitems.before fun _ _ ↦ (advances_expectSymbol _ _).andThen fun _ _ ↦ advances_pure _

theorem advances_behindParameters (form : FunctionForm) (params : List Ident) (c : Cursor) :
    Advances (r.behindParameters bound form params) 1 room c :=
  (advances_expectSymbol _ _).andThen fun _ _ ↦ (advances_expectSymbol _ _).andThen fun _ c ↦
    (advances_block hr hb c).andThen fun _ _ ↦ advances_pure _

theorem advances_functionTail (form : FunctionForm) (c : Cursor) :
    Advances (r.functionTail bound form) 1 room c := by
  have hrest := advances_behindParameters hr hb form
  have hparams : Advances (commaSeparated .tooManyParameters (expectName .parameter) bound 0) 1
      room c := advances_commaSeparated (by nofun) (fun _ ↦ advances_expectName _) hb 0 c
  exact advances_cursor (advances_cond _ (fun _ ↦ hrest [] c) fun _ ↦ hparams.before hrest)

theorem advances_function (form : FunctionForm) (c : Cursor) :
    Advances (r.function bound form) 1 room c :=
  (advances_expectName _).andThen fun _ _ ↦ (advances_expectSymbol _ _).andThen fun _ c ↦
    (advances_functionTail hr hb form c).andThen fun _ _ ↦ advances_pure _

theorem advances_finishCall (callee : Expr) (c : Cursor) :
    Advances (r.finishCall bound callee) 1 room c := by
  have hrest (arguments : List Expr) (c : Cursor) : Advances
      (do
        let line ← expectSymbol .rightParen .afterArguments
        pure (Expr.call (← freshId) callee line arguments)) 1 room c :=
    (advances_expectSymbol _ _).andThen fun _ _ ↦ advances_freshId.andThen fun _ _ ↦
      advances_pure _
  have harguments : Advances (commaSeparated .tooManyArguments r.expression bound 0) 1 room c :=
    advances_commaSeparated (by nofun) hr.expression hb 0 c
  exact advances_cursor (advances_cond _ (fun _ ↦ hrest [] c) fun _ ↦ harguments.before hrest)

end Behind

/-! ### Expressions -/

theorem advances_fresh {make : Nat → Expr} (c : Cursor) :
    Advances (do pure (make (← freshId))) 0 room c :=
  advances_freshId.andThen fun _ _ ↦ advances_pure _

section Outer

variable (hr : r.Advance room) (hb : room < bound)

include hr hb

theorem advances_primary (c : Cursor) : Advances (r.primary bound) 1 (room + 1) c := by
  refine advances_cursor ?_
  dsimp only
  split
  case h_8 kind hkind =>
    exact advances_skip_bind hkind nofun fun _ ↦
      (advances_expectSymbol _ _).andThen fun _ _ ↦ (advances_expectName _).andThen
        fun _ ↦ advances_fresh
  case h_9 kind hkind =>
    exact advances_skip_bind hkind nofun fun _ ↦
      (hr.expression _).andThen fun _ _ ↦ (advances_expectSymbol _ _).andThen
        fun _ ↦ advances_fresh
  case h_10 kind hkind =>
    exact advances_skip_bind hkind nofun fun _ ↦
      (advances_expectSymbol _ _).andThen fun _ _ ↦
        (advances_functionTail hr (Nat.le_of_lt hb) .lambda _).andThen fun _ ↦ advances_fresh
  case h_11 => exact advances_fail nofun
  all_goals
    next hkind =>
      exact advances_skip_bind hkind nofun fun _ ↦ advances_fresh _

/-- Each call or property takes a token, so that the turns are not used up. -/
theorem advances_callTail {ρ turns : Nat} (hroom : ρ ≤ room + 1) (hturns : ρ ≤ turns) (e : Expr)
    (c : Cursor) : Advances (r.callTail bound turns e) 0 ρ c := by
  induction turns generalizing ρ e c with
  | zero =>
    obtain rfl := Nat.le_zero.1 hturns
    exact advances_tooDeep
  | succ turns ih =>
    have htail (e : Expr) (c : Cursor) : Advances (r.callTail bound turns e) 0 (ρ - 1) c :=
      ih (by omega) (by omega) e c
    have hcall (c : Cursor) : Advances (do callTail r bound turns (← r.finishCall bound e)) 1
        (ρ - 1) c :=
      ((advances_finishCall hr (Nat.le_of_lt hb) e c).mono (Nat.le_refl _) (by omega)).andThen htail
    exact advances_accept_bind (by nofun) hcall <| advances_accept_bind (by nofun)
      (fun _ ↦ (advances_expectName _).andThen fun _ _ ↦ advances_freshId.andThen fun _ ↦ htail _)
      (advances_pure e)

theorem advances_call (c : Cursor) : Advances (r.call bound) 1 (room + 1) c :=
  (advances_primary hr hb c).andThen (advances_callTail hr hb (Nat.le_refl _) hb)

theorem advances_unaryLevel (c : Cursor) : Advances (r.unaryLevel bound) 1 (room + 1) c := by
  refine advances_cursor ?_
  dsimp only
  split
  · next hop =>
    have hkind : c.token.kind ≠ .endOfFile := fun h ↦ by simp [h, unaryOp?] at hop
    exact advances_skip_bind rfl hkind fun c ↦ (hr.unary c).andThen fun _ ↦ advances_fresh
  · exact advances_call hr hb c

omit hr in
/-- The end of a program stands for no operator, so each turn takes a token. -/
theorem advances_level {β : Type} {op? : TokenKind → Option β} (hop? : op? .endOfFile = none)
    (join : Nat → β → Nat → Expr → Expr → Expr) {operand : Parse Expr}
    (h : ∀ c, Advances operand 1 (room + 1) c) (c : Cursor) :
    Advances (level bound op? join operand) 1 (room + 1) c := by
  suffices htail : ∀ turns ρ, ρ ≤ room + 1 → ρ ≤ turns → ∀ left c,
      Advances (operatorTail op? join operand turns left) 0 ρ c from
    (h c).andThen (htail bound (room + 1) (Nat.le_refl _) hb)
  intro turns
  induction turns with
  | zero =>
    intro ρ _ hturns _ _
    obtain rfl := Nat.le_zero.1 hturns
    exact advances_tooDeep
  | succ turns ih =>
    refine fun ρ hroom hturns left c ↦ advances_cursor ?_
    dsimp only
    split
    · next op hop =>
      have hkind : c.token.kind ≠ .endOfFile := fun h ↦ by simp [h, hop?] at hop
      have hturn (c' : Cursor) : Advances
          (do
            let right ← operand
            operatorTail op? join operand turns (join (← freshId) op c.token.line left right)) 1
          (ρ - 1) c' :=
        ((h c').mono (Nat.le_refl 1) (by omega)).andThen fun _ _ ↦ advances_freshId.andThen
          fun _ ↦ ih (ρ - 1) (by omega) (by omega) _
      exact (advances_skip_bind rfl hkind hturn).mono (Nat.zero_le _) (by omega)
    · exact advances_pure left

theorem advances_factor (c : Cursor) : Advances (r.factor bound) 1 (room + 1) c :=
  advances_level hb rfl _ (advances_unaryLevel hr hb) c

theorem advances_term (c : Cursor) : Advances (r.term bound) 1 (room + 1) c :=
  advances_level hb rfl _ (advances_factor hr hb) c

theorem advances_comparison (c : Cursor) : Advances (r.comparison bound) 1 (room + 1) c :=
  advances_level hb rfl _ (advances_term hr hb) c

theorem advances_equality (c : Cursor) : Advances (r.equality bound) 1 (room + 1) c :=
  advances_level hb rfl _ (advances_comparison hr hb) c

theorem advances_logicAnd (c : Cursor) : Advances (r.logicAnd bound) 1 (room + 1) c :=
  advances_level hb rfl _ (advances_equality hr hb) c

theorem advances_logicOr (c : Cursor) : Advances (r.logicOr bound) 1 (room + 1) c :=
  advances_level hb rfl _ (advances_logicAnd hr hb) c

omit hr hb in
theorem advances_assignTo (target : Expr) (equals : Token) (value : Expr) (c : Cursor) :
    Advances (assignTo target equals value) 0 room c := by
  unfold assignTo
  split
  · exact advances_fresh c
  · exact advances_fresh c
  · exact advances_throw nofun

theorem advances_assignment (c : Cursor) : Advances (r.assignment bound) 1 (room + 1) c := by
  have hrest (target : Expr) (c : Cursor) : Advances
      (do
        let t := (← cursor).token
        if t.kind == .symbol .equal then
          skip
          let value ← r.expression
          assignTo target t value
        else
          pure target) 0 (room + 1) c := by
    refine advances_cursor (advances_cond _ (fun hequals ↦ ?_) fun _ ↦ advances_pure target)
    have hvalue (c' : Cursor) := (hr.expression c').andThen fun value c' ↦
      advances_assignTo target c.token value c'
    exact (advances_skip_bind (beq_iff_eq.1 hequals) nofun hvalue).mono (Nat.zero_le _)
      (Nat.le_refl _)
  exact (advances_logicOr hr hb c).andThen hrest

/-! ### Statements -/

theorem advances_expressionStatement (c : Cursor) :
    Advances (r.expressionStatement bound) 1 (room + 1) c :=
  (advances_assignment hr hb c).andThen fun _ _ ↦ (advances_expectSymbol _ _).andThen
    fun _ _ ↦ advances_pure _

theorem advances_varDeclaration (c : Cursor) :
    Advances (r.varDeclaration bound) 1 (room + 1) c := by
  have hrest (x : Ident) (value : Option Expr) (room : Nat) (c : Cursor) : Advances
      (do
        let _ ← expectSymbol .semicolon .afterVariableDeclaration
        pure (Stmt.varDecl x value)) 1 room c :=
    (advances_expectSymbol _ _).andThen fun _ _ ↦ advances_pure _
  exact (advances_expectName _).andThen fun x c ↦ advances_accept_bind (by nofun)
    (fun c ↦ ((advances_assignment hr hb c).map some).less.andThen fun value ↦ hrest x value room)
    ((advances_pure none).andThen (hrest x · (room + 1)))

theorem advances_optionalExpression (s : Symbol) (c : Cursor) :
    Advances (r.optionalExpression bound s) 0 (room + 1) c :=
  advances_cursor (advances_cond _ (fun _ ↦ advances_pure none) fun _ ↦
    ((advances_assignment hr hb c).map some).mono (Nat.zero_le _) (Nat.le_refl _))

theorem advances_forInitializer (c : Cursor) :
    Advances (r.forInitializer bound) 0 (room + 1) c :=
  advances_accept_bind (by nofun) (fun _ ↦ advances_pure none) <|
    advances_accept_bind (by nofun) (fun c ↦ ((advances_varDeclaration hr hb c).map some).less)
      ((advances_expressionStatement hr hb c).map some)

theorem advances_forStatement (c : Cursor) : Advances (r.forStatement bound) 1 room c := by
  refine (advances_expectSymbol _ _).andThen fun _ c ↦
    (advances_forInitializer hr hb c).less.andThen fun _ c ↦
      (advances_optionalExpression hr hb _ c).less.andThen fun condition _ ↦
        (advances_expectSymbol _ _).andThen fun _ c ↦
          (advances_optionalExpression hr hb _ c).less.andThen fun _ _ ↦
            (advances_expectSymbol _ _).andThen fun _ c ↦ (hr.statement c).andThen fun _ _ ↦
              (?_ : Advances _ 0 room _)
  cases condition with
  | some e => exact advances_pure _
  | none => exact advances_freshId.andThen fun _ _ ↦ advances_pure _

theorem advances_ifStatement (c : Cursor) : Advances (r.ifStatement bound) 1 room c :=
  (advances_expectSymbol _ _).andThen fun _ c ↦ (advances_assignment hr hb c).less.andThen
    fun _ _ ↦ (advances_expectSymbol _ _).andThen fun _ c ↦ (hr.statement c).andThen
      fun _ c ↦ advances_accept_bind (by nofun)
        (fun c ↦ (((hr.statement c).map some).mono (Nat.le_refl _) (Nat.sub_le _ _)).andThen
          fun _ _ ↦ advances_pure _)
        ((advances_pure none).andThen fun _ _ ↦ advances_pure _)

theorem advances_whileStatement (c : Cursor) : Advances (r.whileStatement bound) 1 room c :=
  (advances_expectSymbol _ _).andThen fun _ c ↦ (advances_assignment hr hb c).less.andThen
    fun _ _ ↦ (advances_expectSymbol _ _).andThen fun _ c ↦ (hr.statement c).andThen
      fun _ _ ↦ advances_pure _

theorem advances_printStatement (line : Nat) (c : Cursor) :
    Advances (r.printStatement bound line) 1 room c :=
  (advances_assignment hr hb c).less.andThen fun _ _ ↦ (advances_expectSymbol _ _).andThen
    fun _ _ ↦ advances_pure _

theorem advances_returnStatement (line : Nat) (c : Cursor) :
    Advances (r.returnStatement bound line) 1 room c :=
  (advances_optionalExpression hr hb _ c).less.before fun _ _ ↦
    (advances_expectSymbol _ _).andThen fun _ _ ↦ advances_pure _

theorem advances_plainStatement (c : Cursor) :
    Advances (r.plainStatement bound) 1 (room + 1) c := by
  refine advances_cursor ?_
  dsimp only
  split
  case h_1 hkind =>
    exact advances_skip_bind hkind nofun (advances_forStatement hr hb)
  case h_2 hkind =>
    exact advances_skip_bind hkind nofun (advances_ifStatement hr hb)
  case h_3 hkind =>
    exact advances_skip_bind hkind nofun (advances_whileStatement hr hb)
  case h_4 hkind =>
    exact advances_skip_bind hkind nofun (advances_returnStatement hr hb _)
  case h_5 hkind =>
    exact advances_skip_bind hkind nofun fun c ↦
      (advances_block hr (Nat.le_of_lt hb) c).map Stmt.block
  case h_6 hkind =>
    exact advances_skip_bind hkind nofun (advances_printStatement hr hb _)
  case h_7 => exact advances_expressionStatement hr hb c

/-! ### Declarations -/

omit hr hb in
theorem advances_superclassClause (c : Cursor) : Advances superclassClause 0 room c :=
  advances_accept_bind (by nofun)
    (fun _ ↦ (advances_expectName _).andThen fun _ _ ↦ advances_freshId.andThen
      fun _ _ ↦ advances_pure _)
    (advances_pure none)

theorem advances_classDeclaration (c : Cursor) :
    Advances (r.classDeclaration bound) 1 room c := by
  have hmethods (c : Cursor) :
      Advances (itemsUntil Cursor.atBlockEnd (r.function bound .method) bound) 0 room c :=
    advances_itemsUntil (fun c _ ↦ advances_function hr (Nat.le_of_lt hb) .method c)
      (Nat.le_of_lt hb) c
  exact (advances_expectName _).andThen fun _ c ↦ (advances_superclassClause c).andThen
    fun _ _ ↦ (advances_expectSymbol _ _).andThen fun _ c ↦ (hmethods c).andThen
      fun _ _ ↦ (advances_expectSymbol _ _).andThen fun _ _ ↦ advances_pure _

theorem advances_plainDeclaration (c : Cursor) :
    Advances (r.plainDeclaration bound) 1 (room + 1) c := by
  refine advances_cursor ?_
  split
  · next hkind =>
    exact advances_skip_bind hkind nofun (advances_classDeclaration hr hb)
  · next hkind =>
    exact advances_skip_bind hkind nofun fun c ↦
      (advances_varDeclaration hr hb c).less
  · next hkind =>
    exact advances_cond _
      (fun _ ↦ advances_skip_bind hkind nofun fun c ↦
        (advances_function hr (Nat.le_of_lt hb) .function c).map Stmt.funDecl)
      fun _ ↦ advances_plainStatement hr hb c
  · exact advances_plainStatement hr hb c

/-! ### All rules -/

theorem Advance.outer : (r.outer bound).Advance (room + 1) where
  expression := advances_assignment hr hb
  unary := advances_unaryLevel hr hb
  statement := advances_plainStatement hr hb
  declaration c := (advances_plainDeclaration hr hb c).recover

end Outer

/-- A token is taken before the rules come back to themselves, so that rules of some depth have
room for as many tokens. -/
theorem advance_atDepth {depth : Nat} (h : depth ≤ bound) :
    (atDepth bound depth).Advance depth := by
  induction depth with
  | zero =>
    exact ⟨fun _ ↦ advances_tooDeep, fun _ ↦ advances_tooDeep, fun _ ↦ advances_tooDeep,
      fun _ ↦ advances_tooDeep⟩
  | succ depth ih => exact (ih (Nat.le_of_lt h)).outer h

/-- The parsers that a grammar with the given inner rules consists of: those rules, what is built
of them, and the ways to move over one token. -/
inductive IsRule (r : Rules) (bound : Nat) : {α : Type} → Parse α → Prop
  | skip : IsRule r bound skip
  | accept (kind : TokenKind) : IsRule r bound (accept kind)
  | expectSymbol (s : Symbol) (spot : Spot) : IsRule r bound (expectSymbol s spot)
  | expectName (role : NameRole) : IsRule r bound (expectName role)
  | innerExpression : IsRule r bound r.expression
  | innerUnary : IsRule r bound r.unary
  | innerStatement : IsRule r bound r.statement
  | innerDeclaration : IsRule r bound r.declaration
  | block : IsRule r bound (r.block bound)
  | functionTail (form : FunctionForm) : IsRule r bound (r.functionTail bound form)
  | function (form : FunctionForm) : IsRule r bound (r.function bound form)
  | primary : IsRule r bound (r.primary bound)
  | finishCall (callee : Expr) : IsRule r bound (r.finishCall bound callee)
  | call : IsRule r bound (r.call bound)
  | unaryLevel : IsRule r bound (r.unaryLevel bound)
  | factor : IsRule r bound (r.factor bound)
  | term : IsRule r bound (r.term bound)
  | comparison : IsRule r bound (r.comparison bound)
  | equality : IsRule r bound (r.equality bound)
  | logicAnd : IsRule r bound (r.logicAnd bound)
  | logicOr : IsRule r bound (r.logicOr bound)
  | assignment : IsRule r bound (r.assignment bound)
  | expressionStatement : IsRule r bound (r.expressionStatement bound)
  | varDeclaration : IsRule r bound (r.varDeclaration bound)
  | optionalExpression (s : Symbol) : IsRule r bound (r.optionalExpression bound s)
  | forInitializer : IsRule r bound (r.forInitializer bound)
  | forStatement : IsRule r bound (r.forStatement bound)
  | ifStatement : IsRule r bound (r.ifStatement bound)
  | whileStatement : IsRule r bound (r.whileStatement bound)
  | printStatement (line : Nat) : IsRule r bound (r.printStatement bound line)
  | returnStatement (line : Nat) : IsRule r bound (r.returnStatement bound line)
  | plainStatement : IsRule r bound (r.plainStatement bound)
  | superclassClause : IsRule r bound superclassClause
  | classDeclaration : IsRule r bound (r.classDeclaration bound)
  | plainDeclaration : IsRule r bound (r.plainDeclaration bound)
  | declaration : IsRule r bound (r.outer bound).declaration

/-- No rule goes back. -/
theorem IsRule.advances {α : Type} {p : Parse α} (h : r.IsRule bound p) (hr : r.Advance room)
    (hb : room < bound) (c : Cursor) : Advances p 0 0 c := by
  have hb' := Nat.le_of_lt hb
  suffices hp : ∃ least room, Advances p least room c by
    obtain ⟨least, room, hp⟩ := hp
    exact hp.mono (Nat.zero_le _) (Nat.zero_le _)
  have hskip (c : Cursor) : Advances Parse.skip 0 0 c :=
    ⟨⟨List.tail_suffix _, rfl, fun _ _ ↦ .inl⟩, (List.tail_suffix c.rest).length_le⟩
  cases h with
  | skip => exact ⟨_, _, hskip c⟩
  | accept kind =>
    exact ⟨_, _, advances_cursor (advances_cond _
      (fun _ ↦ (hskip c).andThen fun _ _ ↦ advances_pure true) fun _ ↦ advances_pure false)⟩
  | expectSymbol s spot => exact ⟨1, 0, advances_expectSymbol s spot⟩
  | expectName role => exact ⟨1, 0, advances_expectName role⟩
  | innerExpression => exact ⟨_, _, hr.expression c⟩
  | innerUnary => exact ⟨_, _, hr.unary c⟩
  | innerStatement => exact ⟨_, _, hr.statement c⟩
  | innerDeclaration => exact ⟨_, _, hr.declaration c⟩
  | block => exact ⟨_, _, advances_block hr hb' c⟩
  | functionTail form => exact ⟨_, _, advances_functionTail hr hb' form c⟩
  | function form => exact ⟨_, _, advances_function hr hb' form c⟩
  | primary => exact ⟨_, _, advances_primary hr hb c⟩
  | finishCall callee => exact ⟨_, _, advances_finishCall hr hb' callee c⟩
  | call => exact ⟨_, _, advances_call hr hb c⟩
  | unaryLevel => exact ⟨_, _, advances_unaryLevel hr hb c⟩
  | factor => exact ⟨_, _, advances_factor hr hb c⟩
  | term => exact ⟨_, _, advances_term hr hb c⟩
  | comparison => exact ⟨_, _, advances_comparison hr hb c⟩
  | equality => exact ⟨_, _, advances_equality hr hb c⟩
  | logicAnd => exact ⟨_, _, advances_logicAnd hr hb c⟩
  | logicOr => exact ⟨_, _, advances_logicOr hr hb c⟩
  | assignment => exact ⟨_, _, advances_assignment hr hb c⟩
  | expressionStatement => exact ⟨_, _, advances_expressionStatement hr hb c⟩
  | varDeclaration => exact ⟨_, _, advances_varDeclaration hr hb c⟩
  | optionalExpression s => exact ⟨_, _, advances_optionalExpression hr hb s c⟩
  | forInitializer => exact ⟨_, _, advances_forInitializer hr hb c⟩
  | forStatement => exact ⟨_, _, advances_forStatement hr hb c⟩
  | ifStatement => exact ⟨_, _, advances_ifStatement hr hb c⟩
  | whileStatement => exact ⟨_, _, advances_whileStatement hr hb c⟩
  | printStatement line => exact ⟨_, _, advances_printStatement hr hb line c⟩
  | returnStatement line => exact ⟨_, _, advances_returnStatement hr hb line c⟩
  | plainStatement => exact ⟨_, _, advances_plainStatement hr hb c⟩
  | superclassClause => exact ⟨0, 0, advances_superclassClause c⟩
  | classDeclaration => exact ⟨_, _, advances_classDeclaration hr hb c⟩
  | plainDeclaration => exact ⟨_, _, advances_plainDeclaration hr hb c⟩
  | declaration => exact ⟨_, _, (Advance.outer hr hb).declaration c⟩

end Rules

end LexScript
