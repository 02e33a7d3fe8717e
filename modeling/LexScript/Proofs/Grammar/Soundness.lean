import LexScript.Proofs.Grammar.Completeness

/-!
# What parses without an error is derivable

A parser *yields* something if the tokens it takes without reporting an error stand for it. An
error stays recorded once it is, so a parser reports nothing only if none of its parts does:
what the parts yield can be put together along the text of a rule.

The rules may give an `else` only to the nearest conditional, but this is left to the converse;
here it is enough that the tokens have some derivation.

## Main definitions

* `Parse.Yields` : what holds of the tokens a parser takes if it reports nothing.
* `Rules.Sound` : the rules yield derivations.

## Main statements

* `Rules.sound_atDepth` : the rules are sound at every depth.
* `firstId_le_nextId` : no id is given out twice.
* `derivable_of_parse` : tokens that parse without an error form a program.
-/

namespace LexScript

open Grammar Parse

/-! ### Parsers that report nothing -/

namespace Parse

variable {α β : Type} {c : Cursor} {R : List Token → α → Nat → Prop}

/-- The second cursor has the errors of the first one, and ids that the first one has given out
are not given out again. -/
structure LeadsTo (c c' : Cursor) : Prop where
  errors : c.errors.size ≤ c'.errors.size
  nextId : c.nextId ≤ c'.nextId

theorem LeadsTo.refl (c : Cursor) : LeadsTo c c := ⟨Nat.le_refl _, Nat.le_refl _⟩

theorem LeadsTo.trans {c₁ c₂ c₃ : Cursor} (h : LeadsTo c₁ c₂) (h' : LeadsTo c₂ c₃) :
    LeadsTo c₁ c₃ := ⟨Nat.le_trans h.errors h'.errors, Nat.le_trans h.nextId h'.nextId⟩

/-- From the cursor, a parser takes no recorded error and no id back, and if it records no error,
the tokens it takes, its result and the next unused id are related by `R`. -/
def Yields (p : Parse α) (c : Cursor) (R : List Token → α → Nat → Prop) : Prop :=
  match p c with
  | .ok a c' => LeadsTo c c' ∧
      (c'.errors.size = c.errors.size → ∃ ts, c.rest = ts ++ c'.rest ∧ R ts a c'.nextId)
  | .error _ c' => LeadsTo c c'

theorem yields_pure {a : α} (h : R [] a c.nextId) : Yields (pure a) c R :=
  ⟨.refl c, fun _ ↦ ⟨[], rfl, h⟩⟩

theorem yields_throw (e : SyntaxError) : Yields (throw e) c R := LeadsTo.refl c

theorem yields_fail (fault : SyntaxFault) : Yields (fail fault) c R := LeadsTo.refl c

theorem Yields.imp {p : Parse α} {R' : List Token → α → Nat → Prop} (h : Yields p c R)
    (hR : ∀ ts a k, R ts a k → R' ts a k) : Yields p c R' := by
  unfold Yields at h ⊢
  split at h
  · obtain ⟨hle, h⟩ := h
    refine ⟨hle, fun heq ↦ ?_⟩
    obtain ⟨ts, hts, ha⟩ := h heq
    exact ⟨ts, hts, hR _ _ _ ha⟩
  · exact h

/-- What a parser yields can be used by the one that goes on with its result. -/
theorem Yields.bind {p : Parse α} {f : α → Parse β} {S : List Token → β → Nat → Prop}
    (hp : Yields p c R)
    (hf : ∀ a c', Yields (f a) c' fun us b k ↦ ∀ ts, R ts a c'.nextId → S (ts ++ us) b k) :
    Yields (p >>= f) c S := by
  unfold Yields at hp ⊢
  rw [bind_apply]
  cases h : p c with
  | error e c' => rwa [h] at hp
  | ok a c' =>
    simp only [h] at hp
    obtain ⟨hle, hp⟩ := hp
    have hf := hf a c'
    unfold Yields at hf
    simp only
    split at hf
    · obtain ⟨hle', hf⟩ := hf
      have hsize := hle.errors
      have hsize' := hle'.errors
      refine ⟨hle.trans hle', fun heq ↦ ?_⟩
      obtain ⟨ts, hts, ha⟩ := hp (by omega)
      obtain ⟨us, hus, hb⟩ := hf (by omega)
      exact ⟨ts ++ us, by rw [hts, hus, List.append_assoc], hb ts ha⟩
    · exact hle.trans hf

theorem Yields.map {p : Parse α} (hp : Yields p c R) (f : α → β) :
    Yields (f <$> p) c fun ts b k ↦ ∃ a, b = f a ∧ R ts a k := by
  unfold Yields at hp ⊢
  rw [map_apply]
  cases h : p c with
  | error e c' => simpa only [h] using hp
  | ok a c' =>
    simp only [h] at hp ⊢
    obtain ⟨hle, hp⟩ := hp
    refine ⟨hle, fun heq ↦ ?_⟩
    obtain ⟨ts, hts, ha⟩ := hp heq
    exact ⟨ts, hts, a, rfl, ha⟩

/-- A parser that takes tokens and then goes on as another one. -/
theorem yields_of_apply_eq_behind {p q : Parse α} {c' : Cursor}
    {R' : List Token → α → Nat → Prop} (us : List Token) (hq : Yields q c' R') (h : p c = q c')
    (hc : LeadsTo c c') (hrest : c.rest = us ++ c'.rest)
    (hR : c'.errors.size = c.errors.size → ∀ ts a k, R' ts a k → R (us ++ ts) a k) :
    Yields p c R := by
  have hsize := hc.errors
  unfold Yields at hq ⊢
  rw [h]
  split at hq
  · obtain ⟨hle, hq⟩ := hq
    have hsize' := hle.errors
    refine ⟨hc.trans hle, fun heq ↦ ?_⟩
    obtain ⟨ts, hts, ha⟩ := hq (by omega)
    exact ⟨us ++ ts, by rw [hrest, hts, List.append_assoc], hR (by omega) ts _ _ ha⟩
  · exact hc.trans hq

theorem yields_of_apply_eq {p q : Parse α} (h : p c = q c) (hq : Yields q c R) : Yields p c R :=
  yields_of_apply_eq_behind [] hq h (.refl c) rfl fun _ _ _ _ ↦ id

theorem yields_cursor {f : Cursor → Parse α} (h : Yields (f c) c R) :
    Yields (cursor >>= f) c R :=
  yields_of_apply_eq (by simp) h

theorem yields_freshId {f : Nat → Parse α}
    (h : Yields (f c.nextId) { c with nextId := c.nextId + 1 } R) :
    Yields (freshId >>= f) c R :=
  yields_of_apply_eq_behind [] h (by simp) ⟨Nat.le_refl _, Nat.le_succ _⟩ rfl
    fun _ _ _ _ ↦ id

/-- Moving over a token that is there. -/
theorem yields_skip {f : Unit → Parse α} (hc : c.token.kind ≠ .endOfFile)
    (h : Yields (f ()) { c with rest := c.rest.tail } fun ts a k ↦ R (c.token :: ts) a k) :
    Yields (skip >>= f) c R := by
  have hrest : c.rest = [c.token] ++ c.rest.tail := by
    obtain ⟨rest, line, n, errors⟩ := c
    cases rest with
    | nil => simp [Cursor.token] at hc
    | cons t ts => rfl
  exact yields_of_apply_eq_behind [c.token] h (by simp) ⟨Nat.le_refl _, Nat.le_refl _⟩ hrest
    fun _ _ _ _ ↦ id

theorem yields_record {fault : SyntaxFault} {f : Unit → Parse α} (h : Yields (f ())
    { c with errors := c.errors.push ⟨fault, c.token⟩ } fun _ _ _ ↦ True) :
    Yields (record fault >>= f) c R :=
  yields_of_apply_eq_behind [] h (by simp [record]) ⟨by simp, Nat.le_refl _⟩ rfl
    fun heq ↦ absurd heq (by simp)

theorem yields_accept {kind : TokenKind} {f : Bool → Parse α} (hk : kind ≠ .endOfFile)
    (ht : ∀ line, c.token = ⟨kind, line⟩ →
      Yields (f true) { c with rest := c.rest.tail } fun ts a k ↦ R (⟨kind, line⟩ :: ts) a k)
    (hf : Yields (f false) c R) : Yields (accept kind >>= f) c R := by
  by_cases hc : c.sees kind
  · have htoken : c.token = ⟨kind, c.token.line⟩ := by
      have : c.token.kind = kind := by simpa [Cursor.sees] using hc
      rw [← this]
    refine yields_of_apply_eq (q := skip >>= fun _ ↦ f true) (by simp [hc]) ?_
    refine yields_skip (by rwa [htoken]) ?_
    rw [htoken]
    exact ht _ htoken
  · exact yields_of_apply_eq (by simp [hc]) hf

theorem yields_expectSymbol {s : Symbol} {spot : Spot} {f : Nat → Parse α}
    (h : ∀ line, Yields (f line) { c with rest := c.rest.tail } fun ts a k ↦
      R (sym s line :: ts) a k) : Yields (expectSymbol s spot >>= f) c R := by
  by_cases hc : c.token.kind = .symbol s
  · have htoken : c.token = sym s c.token.line := by
      rw [sym, ← hc]
    refine yields_of_apply_eq (q := skip >>= fun _ ↦ f c.token.line)
      (by simp [expectSymbol, hc]) ?_
    refine yields_skip (by simp [hc]) ?_
    rw [htoken]
    exact h _
  · exact yields_of_apply_eq (q := fail (.missingSymbol s spot))
      (by simp [expectSymbol, hc, fail]) (yields_fail _)

theorem yields_expectName {role : NameRole} {f : Ident → Parse α}
    (h : ∀ x, Yields (f x) { c with rest := c.rest.tail } fun ts a k ↦ R (named x :: ts) a k) :
    Yields (expectName role >>= f) c R := by
  by_cases hc : ∃ x, c.token = named x
  · obtain ⟨x, hc⟩ := hc
    refine yields_of_apply_eq (q := skip >>= fun _ ↦ f x) (by simp [expectName, hc]) ?_
    refine yields_skip (by simp [hc]) ?_
    rw [hc]
    exact h x
  · have hfail : expectName role c = fail (.missingName role) c := by
      simp only [expectName, bind_apply, cursor_apply]
      generalize ht : c.token = t at hc ⊢
      obtain ⟨kind, line⟩ := t
      cases kind with
      | identifier text => exact absurd ⟨⟨text, line⟩, rfl⟩ hc
      | _ => rfl
    exact yields_of_apply_eq (q := fail (.missingName role)) (by simp [hfail, fail])
      (yields_fail _)

/-- Items with commas between them, given what the items and longer and longer lists stand for. -/
theorem yields_commaSeparated {excess : SyntaxFault} {item : Parse α}
    {P : List Token → Nat → α → Nat → Prop} {L : List Token → Nat → List α → Nat → Prop}
    (hitem : ∀ c, item.Yields c fun ts a k ↦ P ts c.nextId a k)
    (last : ∀ {ts n a m}, P ts n a m → L ts n [a] m)
    (more : ∀ {ts us n a as m k l}, P ts n a m → L us m as k →
      L (ts ++ sym .comma l :: us) n (a :: as) k)
    (bound count : Nat) (c : Cursor) :
    (commaSeparated excess item bound count).Yields c fun ts as k ↦
      L ts c.nextId as k ∧ count + as.length ≤ maxArity := by
  induction bound generalizing count c with
  | zero => exact yields_fail _
  | succ bound ih =>
    unfold commaSeparated
    dsimp only
    split
    · refine yields_record ((hitem _).bind fun a c' ↦ yields_accept (by simp) (fun _ _ ↦ ?_)
        (yields_pure fun _ _ ↦ trivial))
      exact (ih _ _).bind fun as c'' ↦ yields_pure fun _ _ _ _ ↦ trivial
    · refine (hitem c).bind fun a c' ↦ yields_accept (by simp) (fun l _ ↦ ?_) ?_
      · refine (ih (count + 1) _).bind fun as c'' ↦ yields_pure ?_
        rintro us ⟨has, hlen⟩ ts ha
        refine ⟨?_, by simp only [List.length_cons]; omega⟩
        simpa using more (l := l) ha has
      · refine yields_pure fun ts ha ↦ ⟨?_, by simp only [List.length_singleton]; omega⟩
        simpa using last ha

/-- Items one behind the other, given what the items and longer and longer lists stand for. -/
theorem yields_itemsUntil {stop : Cursor → Bool} {item : Parse α}
    {P : List Token → Nat → α → Nat → Prop} {L : List Token → Nat → List α → Nat → Prop}
    (hitem : ∀ c, item.Yields c fun ts a k ↦ P ts c.nextId a k)
    (none : ∀ {n}, L [] n [] n)
    (more : ∀ {ts us n a as m k}, P ts n a m → L us m as k → L (ts ++ us) n (a :: as) k)
    (bound : Nat) (c : Cursor) :
    (itemsUntil stop item bound).Yields c fun ts as k ↦ L ts c.nextId as k := by
  induction bound generalizing c with
  | zero => exact yields_fail _
  | succ bound ih =>
    unfold itemsUntil
    refine yields_cursor ?_
    split
    · exact yields_pure none
    · refine (hitem c).bind fun a c' ↦ (ih c').bind fun as c'' ↦ yields_pure ?_
      intro us has ts ha
      simpa using more ha has

/-- Items end where they are to stop. -/
theorem stop_of_itemsUntil {stop : Cursor → Bool} {item : Parse α} {bound : Nat} {as : List α}
    {c' : Cursor} (h : itemsUntil stop item bound c = .ok as c') : stop c' = true := by
  induction bound generalizing c as with
  | zero => cases h
  | succ bound ih =>
    simp only [itemsUntil, bind_apply, cursor_apply] at h
    split at h
    · cases h
      assumption
    · obtain ⟨a, c₁, -, h⟩ := eq_ok_of_bind h
      obtain ⟨as', c₂, h', h⟩ := eq_ok_of_bind h
      cases h
      exact ih h'

end Parse

/-! ### Trees of variables and properties -/

namespace Grammar

variable {rule : ElseRule}

/-- Whether a tree is made by an operator. -/
def isOperation : Expr → Bool
  | .unary .. | .binary .. | .logical .. => true
  | _ => false

/-- A tree that no operator makes is an operand of every level. -/
theorem Derives.operand_of_level {l : Level} {ts : List Token} {e : Expr} {n m : Nat}
    (h : Derives rule (.level l) ts n (.expr e) m) (he : isOperation e = false) :
    Derives rule l.operand ts n (.expr e) m := by
  generalize ht : Tree.expr e = t at h
  cases h with
  | tighter inner => cases ht; exact inner
  | joined hop =>
    cases ht
    obtain ⟨op, -, rfl⟩ | ⟨op, -, rfl⟩ := Level.join?_cases hop <;> cases he

/-- A tree that no operator makes is a call, a property or simpler than that. -/
theorem Derives.call_of_level {ts : List Token} {e : Expr} {n m : Nat}
    (h : Derives rule (.level .disjunction) ts n (.expr e) m) (he : isOperation e = false) :
    Derives rule .call ts n (.expr e) m := by
  have conjunction : Derives rule (.level .conjunction) ts n (.expr e) m := h.operand_of_level he
  have equality : Derives rule (.level .equality) ts n (.expr e) m :=
    conjunction.operand_of_level he
  have comparison : Derives rule (.level .comparison) ts n (.expr e) m :=
    equality.operand_of_level he
  have term : Derives rule (.level .term) ts n (.expr e) m := comparison.operand_of_level he
  have factor : Derives rule (.level .factor) ts n (.expr e) m := term.operand_of_level he
  have unary : Derives rule .unary ts n (.expr e) m := factor.operand_of_level he
  cases unary with
  | unprefixed inner => exact inner
  | prefixed => cases he

/-- The only phrase of a variable is its name. -/
theorem Derives.read_cases {ts : List Token} {i n m : Nat} {x : Ident}
    (h : Derives rule .call ts n (.expr (.read i x)) m) : ts = [named x] ∧ m = n + 1 := by
  cases h with
  | operand inner =>
    cases inner with
    | name => exact ⟨rfl, rfl⟩

/-- The only phrase of a property is a phrase of the object with a dot and the name. -/
theorem Derives.get_cases {ts : List Token} {i n m : Nat} {o : Expr} {x : Ident}
    (h : Derives rule .call ts n (.expr (.get i o x)) m) :
    ∃ us l k, ts = us ++ [sym .dot l, named x] ∧ Derives rule .call us n (.expr o) k ∧
      m = k + 1 := by
  cases h with
  | operand inner => cases inner
  | get object => exact ⟨_, _, _, rfl, object, rfl⟩

end Grammar

/-! ### What the rules yield -/

/-- The rules that others come back to yield derivations. -/
structure Rules.Sound (r : Rules) : Prop where
  expression (c : Cursor) :
    r.expression.Yields c fun ts e k ↦ Derives .any .expression ts c.nextId (.expr e) k
  unary (c : Cursor) :
    r.unary.Yields c fun ts e k ↦ Derives .any .unary ts c.nextId (.expr e) k
  statement (c : Cursor) :
    r.statement.Yields c fun ts s k ↦ ∃ o, Derives .any (.statement o) ts c.nextId (.stmt s) k
  declaration (c : Cursor) :
    r.declaration.Yields c fun ts s k ↦
      ∃ s', s = some s' ∧ Derives .any .declaration ts c.nextId (.stmt s') k

namespace Rules

variable {r : Rules} {bound : Nat}

/-! ### Functions -/

theorem yields_parameterList (c : Cursor) :
    (commaSeparated .tooManyParameters (expectName .parameter) bound 0).Yields c
      fun ts xs k ↦ k = c.nextId ∧ Derives .any .parameters ts c.nextId (.names xs) c.nextId := by
  have item (c : Cursor) : (expectName .parameter).Yields c fun ts x k ↦
      ts = [named x] ∧ k = c.nextId := by
    refine yields_of_apply_eq (q := expectName .parameter >>= pure) (by rw [bind_pure]) ?_
    exact yields_expectName fun x ↦ yields_pure ⟨rfl, rfl⟩
  refine (yields_commaSeparated (P := fun ts n x m ↦ ts = [named x] ∧ m = n) item
    (L := fun ts n xs m ↦ m = n ∧ Derives .any .parameterList ts n (.names xs) n)
    ?_ ?_ bound 0 c).imp ?_
  · rintro _ n x m ⟨rfl, rfl⟩
    exact ⟨rfl, .lastParameter⟩
  · rintro _ us n x xs m k l ⟨rfl, rfl⟩ ⟨rfl, hxs⟩
    exact ⟨rfl, .parameter hxs⟩
  · rintro ts xs k ⟨⟨hk, hxs⟩, hlen⟩
    exact ⟨hk, .someParameters hxs (by omega)⟩

theorem yields_declarations (hr : r.Sound) (stop : Cursor → Bool) (c : Cursor) :
    (itemsUntil stop r.declaration bound).Yields c fun ts ss k ↦
      Derives .any .declarations ts c.nextId (.stmts (ss.filterMap id)) k := by
  refine yields_itemsUntil
    (P := fun ts n s m ↦ ∃ s', s = some s' ∧ Derives .any .declaration ts n (.stmt s') m)
    (L := fun ts n ss m ↦ Derives .any .declarations ts n (.stmts (ss.filterMap id)) m)
    hr.declaration .noDeclarations ?_ bound c
  rintro ts us n _ ss m k ⟨s, rfl, hs⟩ hss
  exact .declarations hs hss

/-- Behind an opening brace, the rest of a block. -/
theorem yields_block (hr : r.Sound) (c : Cursor) :
    (r.block bound).Yields c fun ts ss k ↦
      ∀ l, Derives .any .block (sym .leftBrace l :: ts) c.nextId (.stmts ss) k := by
  refine (yields_declarations hr _ c).bind fun ss c' ↦ yields_expectSymbol fun l' ↦ yields_pure ?_
  exact fun ts h l ↦ .block h

theorem yields_behindParameters (hr : r.Sound) (form : FunctionForm) (xs : List Ident)
    (c : Cursor) :
    (r.behindParameters bound form xs).Yields c fun ts f k ↦ ∃ l vs,
      ts = sym .rightParen l :: vs ∧ f.1 = xs ∧ Derives .any .block vs c.nextId (.stmts f.2) k := by
  refine yields_expectSymbol fun l ↦ yields_expectSymbol fun l' ↦
    (yields_block hr _).bind fun ss c' ↦ yields_pure ?_
  intro ts hss
  exact ⟨_, _, rfl, rfl, by simpa using hss l'⟩

theorem yields_functionTail (hr : r.Sound) (form : FunctionForm) (c : Cursor) :
    (r.functionTail bound form).Yields c fun ts f k ↦ ∃ us l vs,
      ts = us ++ sym .rightParen l :: vs ∧
      Derives .any .parameters us c.nextId (.names f.1) c.nextId ∧
      Derives .any .block vs c.nextId (.stmts f.2) k := by
  unfold functionTail
  refine yields_cursor ?_
  dsimp only
  split
  · refine (yields_behindParameters hr form [] c).imp ?_
    rintro ts ⟨_, ss⟩ k ⟨l, vs, rfl, rfl, hss⟩
    exact ⟨[], l, vs, rfl, .noParameters, hss⟩
  · refine (yields_parameterList c).bind fun xs c' ↦
      (yields_behindParameters hr form xs c').imp ?_
    rintro _ ⟨_, ss⟩ k ⟨l, vs, rfl, rfl, hss⟩ us ⟨hk, hxs⟩
    exact ⟨us, l, vs, rfl, hxs, hk ▸ hss⟩

theorem yields_function (hr : r.Sound) (form : FunctionForm) (c : Cursor) :
    (r.function bound form).Yields c fun ts f k ↦
      Derives .any .function ts c.nextId (.function f) k := by
  refine yields_expectName fun x ↦ yields_expectSymbol fun l ↦
    (yields_functionTail hr form _).bind fun f c' ↦ yields_pure ?_
  rintro _ ⟨us, l', vs, rfl, params, body⟩
  simpa using .function params body

/-! ### Operands -/

theorem yields_leaf {make : Nat → Expr} {c : Cursor} {P : List Token → Expr → Nat → Prop}
    (hc : c.token.kind ≠ .endOfFile) (h : P [c.token] (make c.nextId) (c.nextId + 1)) :
    (leaf make).Yields c P := by
  exact yields_skip hc (yields_freshId (yields_pure h))

theorem yields_primary (hr : r.Sound) (c : Cursor) :
    (r.primary bound).Yields c fun ts e k ↦ Derives .any .primary ts c.nextId (.expr e) k := by
  refine yields_cursor ?_
  dsimp only
  generalize ht : c.token = t
  obtain ⟨kind, line⟩ := t
  cases kind with
  | symbol s =>
    cases s with
    | leftParen =>
      refine yields_skip (by simp [ht]) ((hr.expression _).bind fun e c' ↦
        yields_expectSymbol fun l ↦ yields_freshId (yields_pure ?_))
      intro ts inner
      rw [ht]
      exact .grouping inner
    | _ => exact yields_fail _
  | keyword k =>
    cases k with
    | falseWord | trueWord | nilWord =>
      exact yields_leaf (by simp [ht]) (by rw [ht]; exact .constant rfl)
    | thisWord => exact yields_leaf (by simp [ht]) (by rw [ht]; exact .this)
    | superWord =>
      refine yields_skip (by simp [ht]) (yields_expectSymbol fun l ↦ yields_expectName fun x ↦
        yields_freshId (yields_pure ?_))
      rw [ht]
      exact .super
    | funWord =>
      refine yields_skip (by simp [ht]) (yields_expectSymbol fun l ↦
        (yields_functionTail hr .lambda _).bind fun f c' ↦ yields_freshId (yields_pure ?_))
      rintro _ ⟨us, l', vs, rfl, params, body⟩
      rw [ht]
      simpa using .lambda params body
    | _ => exact yields_fail _
  | identifier x =>
    exact yields_leaf (by simp [ht]) (by rw [ht]; exact .name (x := ⟨x, line⟩))
  | string | number => exact yields_leaf (by simp [ht]) (by rw [ht]; exact .constant rfl)
  | endOfFile => exact yields_fail _

/-! ### Calls and properties -/

/-- Behind a callee, the arguments of a call. -/
theorem yields_finishCall (hr : r.Sound) (callee : Expr) (c : Cursor) :
    (r.finishCall bound callee).Yields c fun us e k ↦ ∀ ts n l,
      Derives .any .call ts n (.expr callee) c.nextId →
        Derives .any .call (ts ++ sym .leftParen l :: us) n (.expr e) k := by
  have tail (es : List Expr) (c : Cursor) :
      Yields (do
        let line ← expectSymbol .rightParen .afterArguments
        pure (Expr.call (← freshId) callee line es)) c fun us e k ↦ ∃ line,
          us = [sym .rightParen line] ∧ e = Expr.call c.nextId callee line es ∧ k = c.nextId + 1 :=
    yields_expectSymbol fun l ↦ yields_freshId (yields_pure ⟨l, rfl, rfl, rfl⟩)
  unfold finishCall
  refine yields_cursor ?_
  dsimp only
  split
  · refine (tail [] c).imp ?_
    rintro us e k ⟨line, rfl, rfl, rfl⟩ ts n l h
    exact .call h .noArguments
  · refine Yields.bind (yields_commaSeparated
      (L := fun ts n es m ↦ Derives .any .argumentList ts n (.exprs es) m) hr.expression
      .lastArgument .argument bound 0 c) fun es c' ↦ (tail es c').imp ?_
    rintro us e k ⟨line, rfl, rfl, rfl⟩ vs ⟨hes, hlen⟩ ts n l h
    exact .call h (.someArguments hes (by omega))

/-- Behind an operand, its calls and properties. -/
theorem yields_callTail (hr : r.Sound) (turns : Nat) (e : Expr) (c : Cursor) :
    (r.callTail bound turns e).Yields c fun us e' k ↦ ∀ ts n,
      Derives .any .call ts n (.expr e) c.nextId →
        Derives .any .call (ts ++ us) n (.expr e') k := by
  induction turns generalizing e c with
  | zero => exact yields_fail _
  | succ turns ih =>
    unfold callTail
    refine yields_accept (by simp) (fun l _ ↦ ?_) (yields_accept (by simp) (fun l _ ↦ ?_) ?_)
    · refine (yields_finishCall hr e _).bind fun e' c' ↦ (ih e' c').imp ?_
      intro vs e'' k h us he ts n hts
      simpa using h _ n (he ts n l hts)
    · refine yields_expectName fun x ↦ yields_freshId ((ih _ _).imp ?_)
      intro vs e' k h ts n hts
      simpa using h _ n (.get (l := l) hts)
    · exact yields_pure fun ts n hts ↦ by simpa using hts

theorem yields_call (hr : r.Sound) (c : Cursor) :
    (r.call bound).Yields c fun ts e k ↦ Derives .any .call ts c.nextId (.expr e) k := by
  refine (yields_primary hr c).bind fun e c' ↦ (yields_callTail hr bound e c').imp ?_
  exact fun us e' k h ts inner ↦ h ts _ (.operand inner)

/-! ### Operators -/

theorem yields_unaryLevel (hr : r.Sound) (c : Cursor) :
    (r.unaryLevel bound).Yields c fun ts e k ↦ Derives .any .unary ts c.nextId (.expr e) k := by
  unfold unaryLevel
  refine yields_cursor ?_
  dsimp only
  split
  · rename_i op hop
    refine yields_skip ?_ ((hr.unary _).bind fun e c' ↦ yields_freshId (yields_pure ?_))
    · intro h
      rw [h] at hop
      cases hop
    · intro ts operand
      simpa using .prefixed hop operand
  · exact (yields_call hr c).imp fun ts e k inner ↦ .unprefixed inner

section Level

variable {β : Type} {op? : TokenKind → Option β} {l : Level}
  {join : Nat → β → Nat → Expr → Expr → Expr} {operand : Parse Expr}
  (hop : ∀ kind, l.join? kind = (op? kind).map fun op id line a b ↦ join id op line a b)
  (hoperand : ∀ c, operand.Yields c fun ts e k ↦ Derives .any l.operand ts c.nextId (.expr e) k)

include hop hoperand

theorem yields_operatorTail (turns : Nat) (a : Expr) (c : Cursor) :
    (operatorTail op? join operand turns a).Yields c fun us e k ↦ ∀ ts n,
      Derives .any (.level l) ts n (.expr a) c.nextId →
        Derives .any (.level l) (ts ++ us) n (.expr e) k := by
  induction turns generalizing a c with
  | zero => exact yields_fail _
  | succ turns ih =>
    unfold operatorTail
    refine yields_cursor ?_
    dsimp only
    split
    · rename_i op hkind
      have hjoin : l.join? c.token.kind = some fun id line a b ↦ join id op line a b := by
        rw [hop, hkind, Option.map_some]
      refine yields_skip ?_ ((hoperand _).bind fun b c' ↦ yields_freshId ((ih _ _).imp ?_))
      · intro h
        rw [h] at hjoin
        cases l <;> cases hjoin
      · intro vs e k h us hb ts n ha
        simpa using h _ n (.joined hjoin ha hb)
    · exact yields_pure fun ts n ha ↦ by simpa using ha

theorem yields_level (c : Cursor) :
    (level bound op? join operand).Yields c fun ts e k ↦
      Derives .any (.level l) ts c.nextId (.expr e) k := by
  refine (hoperand c).bind fun a c' ↦ (yields_operatorTail hop hoperand bound a c').imp ?_
  exact fun us e k h ts ha ↦ h ts _ (.tighter ha)

end Level

theorem yields_logicOr (hr : r.Sound) (c : Cursor) :
    (r.logicOr bound).Yields c fun ts e k ↦
      Derives .any (.level .disjunction) ts c.nextId (.expr e) k := by
  refine yields_level (l := .disjunction) ?_ (yields_level (l := .conjunction) ?_
    (yields_level (l := .equality) ?_ (yields_level (l := .comparison) ?_
      (yields_level (l := .term) ?_ (yields_level (l := .factor) ?_ (yields_unaryLevel hr)))))) c
  all_goals
    rintro (s | k | _ | _ | _ | _) <;> first | rfl | (cases s <;> rfl) | (cases k <;> rfl)

/-! ### Assignments -/

theorem yields_assignment (hr : r.Sound) (c : Cursor) :
    (r.assignment bound).Yields c fun ts e k ↦
      Derives .any .expression ts c.nextId (.expr e) k := by
  refine (yields_logicOr hr c).bind fun target c' ↦ yields_cursor ?_
  dsimp only
  split
  · rename_i hequal
    have hequal : c'.token.kind = .symbol .equal := by simpa using hequal
    have htoken : c'.token = sym .equal c'.token.line := by rw [sym, ← hequal]
    refine yields_skip (by simp [hequal]) ((hr.expression _).bind fun e c'' ↦ ?_)
    cases target with
    | read i x =>
      refine yields_freshId (yields_pure ?_)
      intro us value ts htarget
      obtain ⟨rfl, hn⟩ := (htarget.call_of_level rfl).read_cases
      rw [htoken]
      simp only [hn] at value
      simpa using .assign value
    | get i o x =>
      refine yields_freshId (yields_pure ?_)
      intro us value ts htarget
      obtain ⟨vs, l, m, rfl, object, hn⟩ := (htarget.call_of_level rfl).get_cases
      rw [htoken]
      simp only [hn] at value
      simpa using .set (l := l) object value
    | _ => exact yields_throw _
  · exact yields_pure fun ts h ↦ by simpa using .value h

/-! ### Statements -/

theorem yields_expressionStatement (hr : r.Sound) (c : Cursor) :
    (r.expressionStatement bound).Yields c fun ts s k ↦
      Derives .any .exprStmt ts c.nextId (.stmt s) k := by
  refine (yields_assignment hr c).bind fun e c' ↦ yields_expectSymbol fun l ↦ yields_pure ?_
  exact fun ts value ↦ .exprStmt value

/-- Behind `var`, the rest of a declaration. -/
theorem yields_varDeclaration (hr : r.Sound) (c : Cursor) :
    (r.varDeclaration bound).Yields c fun ts s k ↦
      ∀ l, Derives .any .varDecl (word .varWord l :: ts) c.nextId (.stmt s) k := by
  have tail (x : Ident) (e : Option Expr) (c : Cursor) :
      Yields (do
        let _ ← expectSymbol .semicolon .afterVariableDeclaration
        pure (Stmt.varDecl x e)) c fun ts s k ↦ ∃ l,
          ts = [sym .semicolon l] ∧ s = .varDecl x e ∧ k = c.nextId :=
    yields_expectSymbol fun l ↦ yields_pure ⟨l, rfl, rfl, rfl⟩
  refine yields_expectName fun x ↦ ?_
  dsimp only
  refine yields_accept (by simp) (fun l _ ↦ ?_) ?_
  · refine ((yields_assignment hr _).map some).bind fun e c' ↦ (tail x e c').imp ?_
    rintro _ s k ⟨l', rfl, rfl, rfl⟩ ts ⟨e, rfl, value⟩ line
    exact .varValue value
  · refine (tail x none _).imp ?_
    rintro _ s k ⟨l, rfl, rfl, rfl⟩ line
    exact .varNil

theorem yields_optionalExpression (hr : r.Sound) (s : Symbol) (c : Cursor) :
    (r.optionalExpression bound s).Yields c fun ts e k ↦
      Derives .any .optionalExpression ts c.nextId (.optExpr e) k := by
  refine yields_cursor ?_
  split
  · exact yields_pure .noExpression
  · refine ((yields_assignment hr c).map some).imp ?_
    rintro ts _ k ⟨e, rfl, inner⟩
    exact .someExpression inner

theorem yields_forInitializer (hr : r.Sound) (c : Cursor) :
    (r.forInitializer bound).Yields c fun ts s k ↦
      Derives .any .forInitializer ts c.nextId (.optStmt s) k := by
  refine yields_accept (by simp) (fun l _ ↦ yields_pure .noInitializer)
    (yields_accept (by simp) (fun l _ ↦ ?_) ?_)
  · refine ((yields_varDeclaration hr _).map some).imp ?_
    rintro ts _ k ⟨s, rfl, inner⟩
    exact .varInitializer (inner l)
  · refine ((yields_expressionStatement hr c).map some).imp ?_
    rintro ts _ k ⟨s, rfl, inner⟩
    exact .exprInitializer inner

/-- Behind the keyword of a statement, the rest of it. -/
def YieldsBehind (p : Parse Stmt) (keyword : Token) : Prop :=
  ∀ c, p.Yields c fun ts s k ↦ ∃ o, Derives .any (.statement o) (keyword :: ts) c.nextId (.stmt s) k

theorem yields_forStatement (hr : r.Sound) (line : Nat) :
    YieldsBehind (r.forStatement bound) (word .forWord line) := by
  intro c
  refine yields_expectSymbol fun l ↦ (yields_forInitializer hr _).bind fun i c₁ ↦
    (yields_optionalExpression hr _ _).bind fun e c₂ ↦ yields_expectSymbol fun l' ↦
    (yields_optionalExpression hr _ _).bind fun a c₃ ↦ yields_expectSymbol fun l'' ↦
    (hr.statement _).bind fun s c₄ ↦ ?_
  dsimp only
  cases e with
  | some e =>
    refine yields_pure ?_
    rintro vs ⟨o, body⟩ us increment ts condition ws initializer
    rw [forLoop_eq]
    exact ⟨o, by simpa using .forLoop initializer condition increment body⟩
  | none =>
    refine yields_freshId (yields_pure ?_)
    rintro vs ⟨o, body⟩ us increment ts condition ws initializer
    rw [forLoop_eq]
    exact ⟨o, by simpa using .forLoop initializer condition increment body⟩

theorem yields_ifStatement (hr : r.Sound) (line : Nat) :
    YieldsBehind (r.ifStatement bound) (word .ifWord line) := by
  intro c
  refine yields_expectSymbol fun l ↦ (yields_assignment hr _).bind fun e c₁ ↦
    yields_expectSymbol fun l' ↦ (hr.statement _).bind fun s c₂ ↦ ?_
  dsimp only
  refine yields_accept (by simp) (fun l'' _ ↦ ?_) (yields_pure ?_)
  · refine ((hr.statement _).map some).bind fun _ c₃ ↦ yields_pure ?_
    rintro vs ⟨s', rfl, o', elseBranch⟩ us ⟨o, thenBranch⟩ ts condition
    exact ⟨o', by simpa using .ifElse condition thenBranch (fun h ↦ nomatch h) elseBranch⟩
  · rintro us ⟨o, thenBranch⟩ ts condition
    exact ⟨true, by simpa using .ifThen condition thenBranch⟩

theorem yields_whileStatement (hr : r.Sound) (line : Nat) :
    YieldsBehind (r.whileStatement bound) (word .whileWord line) := by
  intro c
  refine yields_expectSymbol fun l ↦ (yields_assignment hr _).bind fun e c₁ ↦
    yields_expectSymbol fun l' ↦ (hr.statement _).bind fun s c₂ ↦ yields_pure ?_
  rintro us ⟨o, body⟩ ts condition
  exact ⟨o, by simpa using .whileLoop condition body⟩

theorem yields_printStatement (hr : r.Sound) (line : Nat) :
    YieldsBehind (r.printStatement bound line) (word .printWord line) := by
  intro c
  refine (yields_assignment hr _).bind fun e c₁ ↦ yields_expectSymbol fun l ↦ yields_pure ?_
  exact fun ts value ↦ ⟨false, .print value⟩

theorem yields_returnStatement (hr : r.Sound) (line : Nat) :
    YieldsBehind (r.returnStatement bound line) (word .returnWord line) := by
  intro c
  refine (yields_optionalExpression hr _ _).bind fun e c₁ ↦ yields_expectSymbol fun l ↦
    yields_pure ?_
  exact fun ts value ↦ ⟨false, .returns value⟩

theorem yields_plainStatement (hr : r.Sound) (c : Cursor) :
    (r.plainStatement bound).Yields c fun ts s k ↦
      ∃ o, Derives .any (.statement o) ts c.nextId (.stmt s) k := by
  have expression : (r.expressionStatement bound).Yields c fun ts s k ↦
      ∃ o, Derives .any (.statement o) ts c.nextId (.stmt s) k :=
    (yields_expressionStatement hr c).imp fun ts s k inner ↦ ⟨false, .expression inner⟩
  have behind {p : Parse Stmt} (h : YieldsBehind p c.token) (ht : c.token.kind ≠ .endOfFile) :
      Yields (skip >>= fun _ ↦ p) c fun ts s k ↦
        ∃ o, Derives .any (.statement o) ts c.nextId (.stmt s) k :=
    yields_skip ht (h _)
  refine yields_cursor ?_
  dsimp only
  generalize ht : c.token = t at behind
  obtain ⟨kind, line⟩ := t
  cases kind with
  | symbol s =>
    cases s with
    | leftBrace =>
      refine behind (fun c ↦ ((yields_block hr _).map Stmt.block).imp ?_) (by simp)
      rintro ts _ k ⟨ss, rfl, body⟩
      exact ⟨false, .blockStmt (body line)⟩
    | _ => exact expression
  | keyword k =>
    cases k with
    | forWord => exact behind (yields_forStatement hr line) (by simp)
    | ifWord => exact behind (yields_ifStatement hr line) (by simp)
    | whileWord => exact behind (yields_whileStatement hr line) (by simp)
    | printWord => exact behind (yields_printStatement hr line) (by simp)
    | returnWord => exact behind (yields_returnStatement hr line) (by simp)
    | _ => exact expression
  | _ => exact expression

/-! ### Declarations -/

theorem yields_functions (hr : r.Sound) (size : Nat) (c : Cursor) :
    (itemsUntil Cursor.atBlockEnd (r.function bound .method) size).Yields c fun ts fs k ↦
      Derives .any .functions ts c.nextId (.functions fs) k :=
  yields_itemsUntil (L := fun ts n fs m ↦ Derives .any .functions ts n (.functions fs) m)
    (yields_function hr .method) .noFunctions .functions size c

theorem yields_superclassClause (c : Cursor) :
    superclassClause.Yields c fun ts y k ↦
      ts = [] ∧ y = none ∧ k = c.nextId ∨
        ∃ l x, ts = [sym .less l, named x] ∧ y = some ⟨c.nextId, x⟩ ∧ k = c.nextId + 1 := by
  refine yields_accept (by simp) (fun l _ ↦ yields_expectName fun x ↦
    yields_freshId (yields_pure ?_)) (yields_pure ?_)
  · exact .inr ⟨l, x, rfl, rfl, rfl⟩
  · exact .inl ⟨rfl, rfl, rfl⟩

/-- Behind `class`, the rest of a declaration. -/
theorem yields_classDeclaration (hr : r.Sound) (c : Cursor) :
    (r.classDeclaration bound).Yields c fun ts s k ↦
      ∀ line, Derives .any .declaration (word .classWord line :: ts) c.nextId (.stmt s) k := by
  refine yields_expectName fun x ↦ (yields_superclassClause _).bind fun y c₁ ↦
    yields_expectSymbol fun l ↦ (yields_functions hr bound _).bind fun fs c₂ ↦
    yields_expectSymbol fun l' ↦ yields_pure ?_
  rintro ts methods _ (⟨rfl, rfl, hn⟩ | ⟨l'', y, rfl, rfl, hn⟩) line
  all_goals simp only [hn] at methods
  · simpa using .classDecl methods
  · simpa using .subclassDecl methods

theorem yields_plainDeclaration (hr : r.Sound) (c : Cursor) :
    (r.plainDeclaration bound).Yields c fun ts s k ↦
      Derives .any .declaration ts c.nextId (.stmt s) k := by
  have statement : (r.plainStatement bound).Yields c fun ts s k ↦
      Derives .any .declaration ts c.nextId (.stmt s) k :=
    (yields_plainStatement hr c).imp fun ts s k ⟨o, inner⟩ ↦ .statement inner
  refine yields_cursor ?_
  generalize ht : c.token = t
  obtain ⟨kind, line⟩ := t
  cases kind with
  | keyword k =>
    cases k with
    | classWord =>
      refine yields_skip (by simp [ht]) ((yields_classDeclaration hr _).imp fun ts s k h ↦ ?_)
      rw [ht]
      exact h line
    | varWord =>
      refine yields_skip (by simp [ht]) ((yields_varDeclaration hr _).imp fun ts s k h ↦ ?_)
      rw [ht]
      exact .varDecl (h line)
    | funWord =>
      simp only
      split
      · refine yields_skip (by simp [ht]) (((yields_function hr _ _).map _).imp ?_)
        rintro ts _ k ⟨f, rfl, h⟩
        rw [ht]
        exact .funDecl h
      · exact statement
    | _ => exact statement
  | _ => exact statement

/-! ### All rules -/

theorem sound_outer (hr : r.Sound) : (r.outer bound).Sound where
  expression := yields_assignment hr
  unary := yields_unaryLevel hr
  statement := yields_plainStatement hr
  declaration c := by
    have h : (r.plainDeclaration bound).Yields c _ := yields_plainDeclaration hr c
    unfold Parse.Yields at h ⊢
    simp only [outer, recover]
    cases hp : r.plainDeclaration bound c with
    | ok s c' =>
      simp only [hp] at h ⊢
      obtain ⟨hle, h⟩ := h
      refine ⟨hle, fun heq ↦ ?_⟩
      obtain ⟨ts, hts, h⟩ := h heq
      exact ⟨ts, hts, s, rfl, h⟩
    | error e c' =>
      simp only [hp] at h ⊢
      have hsize := h.errors
      simp only [Array.size_push]
      exact ⟨⟨by simp only [Array.size_push]; omega, h.nextId⟩, fun heq ↦ by omega⟩

/-- The rules are sound at every depth. -/
theorem sound_atDepth (bound depth : Nat) : (atDepth bound depth).Sound := by
  induction depth with
  | zero =>
    exact {
      expression := fun _ ↦ yields_fail _
      unary := fun _ ↦ yields_fail _
      statement := fun _ ↦ yields_fail _
      declaration := fun _ ↦ yields_fail _ }
  | succ depth ih => exact sound_outer ih

end Rules

/-- What is derivable of the tokens of a program. -/
theorem yields_program (firstId : Nat) (tokens : List Token) :
    (itemsUntil Cursor.atEnd (Rules.forTokens tokens).declaration (enoughDepth tokens)).Yields
      (Cursor.start firstId tokens) fun ts ss k ↦
        Derives .any .declarations ts firstId (.stmts (ss.filterMap id)) k :=
  Rules.yields_declarations (Rules.sound_atDepth _ _) Cursor.atEnd _

/-- Parsing gives out no id a second time, whether or not it reports errors. -/
theorem firstId_le_nextId (firstId : Nat) (tokens : List Token) :
    firstId ≤ (parse firstId tokens).nextId := by
  have yields := yields_program firstId tokens
  unfold Parse.Yields at yields
  unfold parse
  dsimp only
  split
  · rename_i hc
    rw [hc] at yields
    exact yields.1.nextId
  · rename_i hc
    rw [hc] at yields
    exact yields.nextId

/-- Tokens that parse without an error form a program. -/
theorem derivable_of_parse {firstId : Nat} {tokens : List Token}
    (h : (parse firstId tokens).errors = []) :
    Derivable (tokens.takeWhile (!Cursor.isEnd ·)) := by
  have yields := yields_program firstId tokens
  unfold Parse.Yields at yields
  simp only [parse] at h
  split at h
  · rename_i ss c' hc
    simp only [Array.toList_eq_nil_iff] at h
    simp only [hc, h] at yields
    obtain ⟨ts, hts, program⟩ := yields.2 rfl
    have hend : c'.rest = [] := by simpa [Cursor.atEnd] using stop_of_itemsUntil hc
    rw [hend, List.append_nil] at hts
    exact ⟨_, _, _, by rw [← hts] at program; exact program⟩
  · simp at h

end LexScript
