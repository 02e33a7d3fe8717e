import LexScript.Proofs.Grammar.FlatStatements
import LexScript.Proofs.Grammar.Locality
import LexScript.Proofs.Grammar.Recovery
import LexScript.Proofs.Grammar.Acceptance
import LexScript.Proofs.Relabelling.Nodes
import LexScript.Proofs.Sessions.FirstIds

/-!
# Errors stay with their declaration

A list of tokens that parses without an error, and a flat statement whether or not it does, are
parsed by themselves: with other tokens behind them they yield the same statements and errors, and
what stands behind them is parsed as if it stood alone. The tokens behind must not begin with an
`else`, which would belong to a conditional in front of it.

So each piece of a list of tokens keeps its statements and its errors, however many malformed flat
statements there are in a row.

## Main definitions

* `IsEndless`, `BeginsWithoutElse` : what is asked of a piece and of what stands behind it.
* `Cursor.KeepsErrors` : what is left of a piece keeps its errors.

## Main statements

* `parse_append` : a piece and what stands behind it are parsed one after the other.
* `parse_flatten` : the pieces of a list of tokens are parsed one after the other.
* `parse_neighbours` : the same, with ids left out.
-/

namespace LexScript

open Cursor Parse

/-! ### Loops over a piece -/

/-- If each turn of a loop over a piece does the same with surroundings, the loop with surroundings
first makes those turns. -/
theorem Parse.itemsUntil_within {α : Type} {p p' : Parse α} {w : Surroundings}
    {P : Cursor → Prop}
    (hturn : ∀ c, P c → c.rest ≠ [] → ∃ a c', p c = .ok a c' ∧
      p' (c.within w) = .ok a (c'.within w) ∧ c'.rest.length < c.rest.length ∧ P c')
    {bound : Nat} {c : Cursor} (hc : P c) (hb : c.rest.length < bound) :
    ∃ as c', itemsUntil atEnd p bound c = .ok as c' ∧ c'.rest = [] ∧ P c' ∧
      as.length ≤ c.rest.length ∧
      ∀ k, itemsUntil atEnd p' (as.length + k) (c.within w) =
        ((as ++ ·) <$> itemsUntil atEnd p' k) (c'.within w) := by
  induction bound generalizing c with
  | zero => omega
  | succ bound ih =>
    by_cases hrest : c.rest = []
    · refine ⟨[], c, by simp [itemsUntil, atEnd, hrest], hrest, hc, Nat.zero_le _, fun k ↦ ?_⟩
      rw [List.length_nil, Nat.zero_add, map_apply]
      cases itemsUntil atEnd p' k (c.within w) <;> rfl
    · obtain ⟨a, c₁, hp, hp', hlt, hc₁⟩ := hturn c hc hrest
      obtain ⟨as, c', hitems, hend, hc', hlen, hitems'⟩ := ih hc₁ (by omega)
      have hmore : c.atEnd = false := by simpa [atEnd] using hrest
      have hmore' : (c.within w).atEnd = false := by
        rw [atEnd_within fun h ↦ absurd h hrest, hmore]
      refine ⟨a :: as, c', by simp [itemsUntil, hmore, hp, hitems], hend, hc', ?_, fun k ↦ ?_⟩
      · rw [List.length_cons]
        omega
      · have hturns : (a :: as).length + k = as.length + k + 1 := by rw [List.length_cons]; omega
        rw [hturns, itemsUntil]
        simp only [bind_apply, cursor_apply, hmore', Bool.false_eq_true, if_false, hp', hitems' k,
          map_apply]
        cases itemsUntil atEnd p' k (c'.within w) <;> rfl

/-! ### Single declarations -/

namespace Rules

variable {r r' : Rules} {w : Surroundings} {bound bound' : Nat} {c c' : Cursor}

/-- A declaration that leaves no error behind is the same with surroundings. -/
theorem declaration_of_clean (hr : r.Carry w r') (hb : bound ≤ bound') (hw : w.NoElse)
    {item : Option Stmt} (h : (r.outer bound).declaration c = .ok item c') (hc' : c'.errors = #[]) :
    (r'.outer bound').declaration (c.within w) = .ok item (c'.within w) ∧
      c'.rest.length < c.rest.length := by
  have hplain := carries_plainDeclaration hr hb c
  unfold Carries at hplain
  simp only [outer, recover] at h ⊢
  split at h
  · next hok =>
    cases h
    rw [hok] at hplain
    obtain ⟨-, hlen, hsame⟩ := hplain
    rw [hsame (by simp [IsSound, hc']) fun _ ↦ .inr hw]
    exact ⟨rfl, by omega⟩
  · cases h
    simp at hc'

/-- A flat statement is taken up, or given up, as a whole, and so it is with surroundings. -/
theorem declaration_of_isFlat (hr : r.Carry w r') (hb : bound ≤ bound') (hw : w.NoElse)
    (hstay : r.Stay) {room : Nat} (hadvance : r.Advance room) (hroom : room < bound)
    (hlen : c.rest.length ≤ room) (hc : IsFlat c.rest) (hsound : c.IsSound) :
    ∃ item c', (r.outer bound).declaration c = .ok item c' ∧
      (r'.outer bound').declaration (c.within w) = .ok item (c'.within w) ∧ c'.rest = [] := by
  have hcarry := carries_plainDeclaration hr hb c
  have hstays := stays_declaration bound hstay hc
  have hdeep := advances_plainDeclaration hadvance hroom c
  have hsound' {c' : Cursor} (hto : c.LeadsTo (room + 1) c') : c'.IsSound := fun e he ↦
    (hto.errors (Nat.lt_succ_of_le hlen) e he).elim (hsound e) id
  unfold Carries at hcarry
  unfold Stays at hstays
  unfold Advances at hdeep
  simp only [outer, recover]
  cases hplain : r.plainDeclaration bound c with
  | ok s c' =>
    rw [hplain] at hcarry hstays hdeep
    rw [hcarry.2.2 (hsound' hdeep.1) fun _ ↦ .inr hw]
    exact ⟨some s, c', rfl, rfl, hstays⟩
  | error e c' =>
    rw [hplain] at hcarry hstays hdeep
    rw [hcarry.2 (hsound' hdeep.1) (hdeep.2 (Nat.lt_succ_of_le hlen))
      fun h ↦ absurd h hstays.rest_ne_nil]
    obtain ⟨ts, line, hrest, hts⟩ := hstays
    have hresume (us : List Token) : resume (c'.rest ++ us) = us := by
      rw [hrest, List.append_assoc]
      exact resume_of_inStatement hts us
    have hnil : resume c'.rest = [] := by rw [← List.append_nil c'.rest, hresume]
    refine ⟨none, _, rfl, ?_, hnil⟩
    simp only [within, hresume, hnil, List.nil_append, Array.append_push]

end Rules

/-! ### A piece and what stands behind it -/

/-- Whether a list of tokens has no end in it. -/
def IsEndless (ts : List Token) : Prop := ∀ t ∈ ts, isEnd t = false

instance (ts : List Token) : Decidable (IsEndless ts) :=
  inferInstanceAs (Decidable (∀ t ∈ ts, isEnd t = false))

/-- What stands behind a piece does not go on with a conditional in it. -/
def BeginsWithoutElse (ts : List Token) : Prop := ∀ t ∈ ts.head?, t.kind ≠ .keyword .elseWord

instance (ts : List Token) : Decidable (BeginsWithoutElse ts) :=
  inferInstanceAs (Decidable (∀ t ∈ ts.head?, t.kind ≠ .keyword .elseWord))

variable {A B : List Token} {n : Nat}

/-- The cursor at the start of a list without an end. -/
theorem IsEndless.start_eq (hA : IsEndless A) (n : Nat) :
    start n A = ⟨A, (A.getLast?.map Token.line).getD 1, n, #[]⟩ := by
  have hfind : A.find? isEnd = none :=
    List.find?_eq_none.2 fun t ht ↦ Bool.eq_false_iff.1 (hA t ht)
  have hwhole : A.takeWhile (!isEnd ·) = A := by
    rw [← List.append_nil A, List.takeWhile_append_of_pos fun t ht ↦ by simp [hA t ht]]
    rfl
  simp only [start, hfind, hwhole]

theorem IsEndless.append (hA : IsEndless A) (hB : IsEndless B) : IsEndless (A ++ B) :=
  fun t ht ↦ (List.mem_append.1 ht).elim (hA t) (hB t)

/-- The start of a piece, with what stands behind it, is the start of the whole. -/
theorem within_start (hA : IsEndless A) (hB : IsEndless B) :
    (start n A).within ⟨#[], B⟩ = start n (A ++ B) := by
  rw [hA.start_eq, (hA.append hB).start_eq, within, List.getLast?_append]
  cases B.getLast? <;> rfl

/-- The start of what stands behind a piece that is used up, with the errors of the piece. -/
theorem within_end {c : Cursor} (hc : c.rest = []) (hB : IsEndless B) (hne : B ≠ []) :
    c.within ⟨#[], B⟩ = (start c.nextId B).within ⟨c.errors, []⟩ := by
  simp [hB.start_eq, within, hc, List.getLast?_eq_some_getLast hne]

/-- The rules for a list of tokens, one step of the way in. -/
theorem Rules.declaration_forTokens (ts : List Token) :
    (Rules.forTokens ts).declaration =
      ((Rules.atDepth (enoughDepth ts) ts.length).outer (enoughDepth ts)).declaration := rfl

/-- Where no bound is reached a declaration is the same by rules with larger bounds, whatever errors
are recorded before. -/
theorem exists_declaration_within {bound depth : Nat} (hbound : enoughDepth B ≤ bound)
    (hdepth : enoughDepth B ≤ depth) (errors : Array SyntaxError) {c : Cursor}
    (hc : c.IsSound ∧ c.rest.length < enoughDepth B) (hne : c.rest ≠ []) :
    ∃ a c', (Rules.forTokens B).declaration c = .ok a c' ∧
      (Rules.atDepth bound depth).declaration (c.within ⟨errors, []⟩) =
        .ok a (c'.within ⟨errors, []⟩) ∧
      c'.rest.length < c.rest.length ∧ c'.IsSound ∧ c'.rest.length < enoughDepth B := by
  have hcarry : (Rules.forTokens B).Carry ⟨errors, []⟩ (Rules.atDepth bound depth) :=
    Rules.carry_atDepth hbound hdepth
  have hdecl := hcarry.declaration c
  have hdeep := (advance_forTokens B).declaration c
  unfold Carries at hdecl
  unfold Advances at hdeep
  cases hout : (Rules.forTokens B).declaration c with
  | error e c' =>
    rw [Rules.declaration_forTokens, Rules.outer] at hout
    simp only [recover] at hout
    split at hout <;> cases hout
  | ok a c' =>
    rw [hout] at hdecl hdeep
    obtain ⟨hto, hlen⟩ := hdeep
    have hpos := List.length_pos_iff.2 hne
    have hsound : c'.IsSound := fun e he ↦ (hto.errors hc.2 e he).elim (hc.1 e) id
    exact ⟨a, c', rfl, hdecl.2.2 hsound fun _ ↦ .inl rfl, by omega, hsound, by omega⟩

/-- Parsing comes to the end of the tokens, and any rules with larger bounds do the same with
errors recorded before. -/
theorem exists_declarations (hB : IsEndless B) (errors : Array SyntaxError) (bound depth : Nat)
    (hbound : enoughDepth B ≤ bound) (hdepth : enoughDepth B ≤ depth) :
    ∃ items, ∃ c' : Cursor, parse n B = ⟨items.filterMap id, c'.errors.toList, c'.nextId⟩ ∧
      items.length ≤ B.length ∧ ∀ k, itemsUntil atEnd (Rules.atDepth bound depth).declaration
        (items.length + (k + 1)) ((start n B).within ⟨errors, []⟩) =
          .ok items (c'.within ⟨errors, []⟩) := by
  have hsound : (start n B).IsSound := by simp [IsSound, start]
  obtain ⟨items, c', hitems, hend, -, hlen, hitems'⟩ := itemsUntil_within
    (fun _ hc hne ↦ exists_declaration_within hbound hdepth errors hc hne)
    ⟨hsound, length_start_lt n B⟩ (length_start_lt n B)
  refine ⟨items, c', ?_, by rwa [hB.start_eq] at hlen, fun k ↦ ?_⟩
  · simp only [parse, hitems]
  · have hdone : (c'.within ⟨errors, []⟩).atEnd = true := by simp [atEnd, within, hend]
    rw [hitems' (k + 1), map_apply, itemsUntil]
    simp only [bind_apply, cursor_apply, hdone, if_true, pure_apply, List.append_nil]

/-- No error is dropped while declarations are parsed. -/
theorem reaches_declarations {bound depth turns : Nat} {c c' : Cursor}
    {items : List (Option Stmt)}
    (h : itemsUntil atEnd (Rules.atDepth bound depth).declaration turns c = .ok items c') :
    c.Reaches c' := by
  have hself : (Rules.atDepth bound depth).Carry ⟨#[], []⟩ (Rules.atDepth bound depth) :=
    Rules.carry_atDepth (Nat.le_refl _) (Nat.le_refl _)
  have hitems := Carries.itemsUntil (fun _ ↦ atEnd_within) hself.declaration
    (Nat.le_refl turns) c
  unfold Carries at hitems
  rw [h] at hitems
  exact hitems.1

/-- What is left of a piece keeps its errors: nothing, a flat statement, or declarations without an
error. -/
inductive Cursor.KeepsErrors (A : List Token) (c : Cursor) : Prop where
  | nothing (hrest : c.rest = [])
  | flat (hflat : IsFlat c.rest) (hsound : c.IsSound) (hlen : c.rest.length ≤ A.length)
  | clean {turns : Nat} {items : List (Option Stmt)} {c' : Cursor}
      (hitems : itemsUntil atEnd (Rules.forTokens A).declaration turns c = .ok items c')
      (herrors : c'.errors = #[])

/-- A declaration is the same by rules with larger bounds where something stands behind the piece,
and what is left keeps its errors too. -/
theorem Cursor.KeepsErrors.exists_declaration {bound depth : Nat}
    (hbound : enoughDepth A ≤ bound) (hdepth : A.length ≤ depth) (helse : BeginsWithoutElse B)
    {c : Cursor} (hc : c.KeepsErrors A) (hne : c.rest ≠ []) :
    ∃ a c', (Rules.forTokens A).declaration c = .ok a c' ∧
      (Rules.atDepth bound (depth + 1)).declaration (c.within ⟨#[], B⟩) =
        .ok a (c'.within ⟨#[], B⟩) ∧
      c'.rest.length < c.rest.length ∧ c'.KeepsErrors A := by
  have hr : (Rules.atDepth (enoughDepth A) A.length).Carry ⟨#[], B⟩ (Rules.atDepth bound depth) :=
    Rules.carry_atDepth hbound hdepth
  cases hc with
  | nothing hnil => exact absurd hnil hne
  | flat hflat hsound hlen =>
    obtain ⟨item, c', hdecl, hdecl', hend⟩ := Rules.declaration_of_isFlat hr hbound helse
      (Rules.stay_atDepth _ _) (Rules.advance_atDepth (Nat.le_succ _)) (Nat.lt_succ_self _) hlen
      hflat hsound
    refine ⟨item, c', hdecl, hdecl', ?_, .nothing hend⟩
    rw [hend]
    exact List.length_pos_iff.2 hne
  | @clean turns items c' hitems herrors =>
    cases turns with
    | zero => cases hitems
    | succ turns =>
      have hmore : c.atEnd = false := by simpa [atEnd] using hne
      simp only [itemsUntil, bind_apply, cursor_apply, hmore, Bool.false_eq_true, if_false]
        at hitems
      obtain ⟨a, c₁, hdecl, hitems⟩ := eq_ok_of_bind hitems
      obtain ⟨as, c₂, hothers, hitems⟩ := eq_ok_of_bind hitems
      cases hitems
      have hclean : c₁.errors = #[] := Array.eq_empty_iff_forall_not_mem.2 fun e he ↦ by
        simpa [herrors] using (reaches_declarations hothers).errors e he
      obtain ⟨hdecl', hlt⟩ := Rules.declaration_of_clean hr hbound helse hdecl hclean
      exact ⟨a, c₁, hdecl, hdecl', hlt, .clean hothers herrors⟩

theorem keepsErrors_start (hA : IsEndless A) (h : (parse n A).errors = [] ∨ IsFlat A) :
    (start n A).KeepsErrors A := by
  rcases h with herrors | hflat
  · unfold parse at herrors
    dsimp only at herrors
    cases hitems : itemsUntil atEnd (Rules.forTokens A).declaration (enoughDepth A)
      (start n A) with
    | ok items c' =>
      rw [hitems] at herrors
      exact .clean hitems (by simpa using herrors)
    | error e c' => simp [hitems] at herrors
  · have hstart := hA.start_eq n
    exact .flat (by rwa [hstart]) (by simp [IsSound, start])
      (Nat.le_of_eq (congrArg (·.rest.length) hstart))

/-- Parsing a piece that keeps its errors comes to its end, and rules with larger bounds first do
the same where something stands behind the piece. -/
theorem exists_declarations_within (hA : IsEndless A) (helse : BeginsWithoutElse B)
    (h : (parse n A).errors = [] ∨ IsFlat A) (bound depth : Nat)
    (hbound : enoughDepth A ≤ bound) (hdepth : enoughDepth A ≤ depth) :
    ∃ items, ∃ c' : Cursor, parse n A = ⟨items.filterMap id, c'.errors.toList, c'.nextId⟩ ∧
      c'.rest = [] ∧ items.length ≤ A.length ∧
      ∀ k, itemsUntil atEnd (Rules.atDepth bound depth).declaration (items.length + k)
          ((start n A).within ⟨#[], B⟩) =
        ((items ++ ·) <$> itemsUntil atEnd (Rules.atDepth bound depth).declaration k)
          (c'.within ⟨#[], B⟩) := by
  obtain ⟨depth, rfl⟩ := Nat.exists_eq_succ_of_ne_zero (Nat.ne_zero_of_lt hdepth)
  obtain ⟨items, c', hitems, hend, -, hlen, hitems'⟩ := itemsUntil_within
    (fun _ hc hne ↦ hc.exists_declaration hbound (Nat.le_of_succ_le_succ hdepth) helse hne)
    (keepsErrors_start hA h) (length_start_lt n A)
  exact ⟨items, c', by simp only [parse, hitems], hend, by rwa [hA.start_eq] at hlen, hitems'⟩

/-- A piece that keeps its errors and what stands behind it are parsed one after the other. -/
theorem parse_append (hA : IsEndless A) (hB : IsEndless B) (helse : BeginsWithoutElse B)
    (h : (parse n A).errors = [] ∨ IsFlat A) :
    parse n (A ++ B) =
      ⟨(parse n A).statements ++ (parse (parse n A).nextId B).statements,
        (parse n A).errors ++ (parse (parse n A).nextId B).errors,
        (parse (parse n A).nextId B).nextId⟩ := by
  have hlenAB : enoughDepth (A ++ B) = A.length + enoughDepth B := by
    simp [enoughDepth, Nat.add_assoc]
  have hleA : enoughDepth A ≤ enoughDepth (A ++ B) := by simp [enoughDepth]
  have hleB : enoughDepth B ≤ enoughDepth (A ++ B) := by simp [enoughDepth]
  obtain ⟨items, c, hparse, hend, hlen, hitems⟩ :=
    exists_declarations_within hA helse h _ _ hleA hleA
  by_cases hne : B = []
  · subst hne
    rw [List.append_nil, hparse]
    simp [parse, start, itemsUntil, atEnd, enoughDepth]
  · obtain ⟨items', c', hparse', hlen', hitems'⟩ :=
      exists_declarations (n := c.nextId) hB c.errors _ _ hleB hleB
    obtain ⟨k, hk⟩ : ∃ k, enoughDepth (A ++ B) = items.length + (items'.length + (k + 1)) :=
      ⟨A.length - items.length + (B.length - items'.length), by
        rw [hlenAB, enoughDepth]
        omega⟩
    have hwhole := hitems (items'.length + (k + 1))
    rw [← hk, within_start hA hB, map_apply, within_end hend hB hne, hitems' k] at hwhole
    rw [hparse, parse, Rules.forTokens, hwhole]
    simp [hparse', within]

/-! ### Many pieces -/

/-- A program does not begin with an `else`. -/
theorem Grammar.Derivable.beginsWithoutElse (h : Derivable A) : BeginsWithoutElse A := by
  obtain ⟨_, _, _, h⟩ := h
  cases h with
  | noDeclarations => nofun
  | @declarations ts us _ _ _ _ _ first others =>
    have hopens := first.opens
    rcases ts with _ | ⟨⟨kind, line⟩, ts⟩
    · nomatch hopens
    · rintro _ ⟨rfl⟩ rfl
      nomatch hopens

theorem IsEndless.takeWhile_eq (hA : IsEndless A) : A.takeWhile (!isEnd ·) = A :=
  congrArg Cursor.rest (hA.start_eq 0)

/-- Neither a program nor a flat statement begins with an `else`. -/
theorem beginsWithoutElse_append (hA : IsEndless A) (h : (parse n A).errors = [] ∨ IsFlat A)
    (hB : BeginsWithoutElse B) : BeginsWithoutElse (A ++ B) := by
  cases A with
  | nil => exact hB
  | cons t ts =>
    rcases h with herrors | hflat
    · have hderivable := derivable_of_parse herrors
      rw [hA.takeWhile_eq] at hderivable
      exact hderivable.beginsWithoutElse
    · rintro _ ⟨rfl⟩
      exact hflat.noElse t List.mem_cons_self

theorem beginsWithoutElse_flatten {pieces : List (List Token)}
    (hpieces : ∀ C ∈ pieces, IsEndless C ∧ ((parse n C).errors = [] ∨ IsFlat C))
    (hB : IsEndless B) (helse : BeginsWithoutElse B) :
    IsEndless (pieces.flatten ++ B) ∧ BeginsWithoutElse (pieces.flatten ++ B) := by
  induction pieces with
  | nil => exact ⟨hB, helse⟩
  | cons C pieces ih =>
    obtain ⟨hC, hkeeps⟩ := hpieces C List.mem_cons_self
    have ih := ih fun D hD ↦ hpieces D (List.mem_cons_of_mem C hD)
    rw [List.flatten_cons, List.append_assoc]
    exact ⟨hC.append ih.1, beginsWithoutElse_append hC hkeeps ih.2⟩

/-- Neither errors nor, up to ids, statements depend on the first id. -/
theorem parse_idless (n m : Nat) (A : List Token) :
    (parse n A).errors = (parse m A).errors ∧
      relabelProgram .idless (parse n A).statements =
        relabelProgram .idless (parse m A).statements := by
  have hzero (n : Nat) : (parse n A).errors = (parse 0 A).errors ∧
      relabelProgram .idless (parse n A).statements =
        relabelProgram .idless (parse 0 A).statements := by
    have hadd := parse_add 0 n A
    rw [Nat.zero_add] at hadd
    rw [hadd, relabelProgram_relabelProgram]
    exact ⟨rfl, rfl⟩
  exact ⟨(hzero n).1.trans (hzero m).1.symm, (hzero n).2.trans (hzero m).2.symm⟩

theorem relabelProgram_append {ρ : Relabelling} (p q : List Stmt) :
    relabelProgram ρ (p ++ q) = relabelProgram ρ p ++ relabelProgram ρ q := by
  induction p with
  | nil => rfl
  | cons s p ih => rw [List.cons_append, relabelProgram, relabelProgram, ih, List.cons_append]

/-- Pieces that keep their errors, and what stands behind them, each yield what they yield alone. -/
theorem parse_flatten {pieces : List (List Token)}
    (hpieces : ∀ C ∈ pieces, IsEndless C ∧ ((parse n C).errors = [] ∨ IsFlat C))
    (hB : IsEndless B) (helse : BeginsWithoutElse B) (i : Nat) :
    (parse i (pieces.flatten ++ B)).errors =
        pieces.flatMap (fun C ↦ (parse n C).errors) ++ (parse n B).errors ∧
      relabelProgram .idless (parse i (pieces.flatten ++ B)).statements =
        pieces.flatMap (fun C ↦ relabelProgram .idless (parse n C).statements) ++
          relabelProgram .idless (parse n B).statements := by
  induction pieces generalizing i with
  | nil => exact parse_idless i n B
  | cons C pieces ih =>
    obtain ⟨hC, hkeeps⟩ := hpieces C List.mem_cons_self
    have hothers := fun D hD ↦ hpieces D (List.mem_cons_of_mem C hD)
    have hbehind := beginsWithoutElse_flatten hothers hB helse
    have hkeeps : (parse i C).errors = [] ∨ IsFlat C := by rwa [(parse_idless i n C).1]
    have ih := ih hothers (parse i C).nextId
    rw [List.flatten_cons, List.append_assoc, parse_append hC hbehind.1 hbehind.2 hkeeps]
    simp only [List.flatMap_cons, List.append_assoc, relabelProgram_append, ih.1, ih.2,
      (parse_idless i n C).1, (parse_idless i n C).2, and_self]

/-- Syntax errors do not spread. Let `A` be tokens that are parsed without an error or a flat
statement, well formed or not, and let `B` be any tokens that do not begin with an `else`. Then `A`
followed by `B` is parsed as `A` and after it, with the ids that come next, `B`; up to ids these
are the statements and errors of the two alone. The same holds of any number of such pieces in
front, so each keeps its statements and its errors. -/
theorem parse_neighbours {m : Nat} (hA : IsEndless A) (hB : IsEndless B)
    (helse : BeginsWithoutElse B) (h : (parse m A).errors = [] ∨ IsFlat A) :
    (∀ n, parse n (A ++ B) =
      ⟨(parse n A).statements ++ (parse (parse n A).nextId B).statements,
        (parse n A).errors ++ (parse (parse n A).nextId B).errors,
        (parse (parse n A).nextId B).nextId⟩) ∧
    (∀ n i j,
      (parse n (A ++ B)).errors = (parse i A).errors ++ (parse j B).errors ∧
      relabelProgram .idless (parse n (A ++ B)).statements =
        relabelProgram .idless (parse i A).statements ++
          relabelProgram .idless (parse j B).statements) ∧
    ∀ pieces : List (List Token),
      (∀ C ∈ pieces, IsEndless C ∧ ((parse m C).errors = [] ∨ IsFlat C)) → ∀ n,
        (parse n (pieces.flatten ++ (A ++ B))).errors =
          pieces.flatMap (fun C ↦ (parse m C).errors) ++
            ((parse m A).errors ++ (parse m B).errors) ∧
        relabelProgram .idless (parse n (pieces.flatten ++ (A ++ B))).statements =
          pieces.flatMap (fun C ↦ relabelProgram .idless (parse m C).statements) ++
            (relabelProgram .idless (parse m A).statements ++
              relabelProgram .idless (parse m B).statements) := by
  have hwhole (n : Nat) := parse_append hA hB helse (n := n) (by rwa [(parse_idless n m A).1])
  have hpair (n i j : Nat) :
      (parse n (A ++ B)).errors = (parse i A).errors ++ (parse j B).errors ∧
      relabelProgram .idless (parse n (A ++ B)).statements =
        relabelProgram .idless (parse i A).statements ++
          relabelProgram .idless (parse j B).statements := by
    rw [hwhole n]
    simp only [relabelProgram_append, (parse_idless n i A).1, (parse_idless n i A).2,
      (parse_idless _ j B).1, (parse_idless _ j B).2, and_self]
  refine ⟨hwhole, hpair, fun pieces hpieces n ↦ ?_⟩
  rw [← (hpair m m m).1, ← (hpair m m m).2]
  exact parse_flatten hpieces (hA.append hB) (beginsWithoutElse_append hA h helse) n

/-- In `x + ; x + ; y ;` both missing operands are reported, and the statement behind them is read
with the id that comes next. -/
theorem parse_neighbours_missing_operands :
    let A : List Token :=
      [⟨.identifier "x", 1⟩, ⟨.symbol .plus, 1⟩, ⟨.symbol .semicolon, 1⟩]
    let B : List Token := [⟨.identifier "y", 2⟩, ⟨.symbol .semicolon, 2⟩]
    let e : SyntaxError := ⟨.noExpression, ⟨.symbol .semicolon, 1⟩⟩
    parse 0 (A ++ B) = ⟨[.expression (.read 1 ⟨"y", 2⟩)], [e], 2⟩ ∧
      (parse 0 (A ++ (A ++ B))).errors = [e, e] := by
  intro A B e
  have hflat : IsFlat A := by decide
  obtain ⟨hwhole, -, hrow⟩ := parse_neighbours (m := 0) (A := A) (B := B) (by decide) (by decide)
    (by decide) (.inr hflat)
  refine ⟨(hwhole 0).trans rfl, ?_⟩
  exact (hrow [A] (by simpa using ⟨by decide, .inr hflat⟩) 0).1.trans rfl

end LexScript
