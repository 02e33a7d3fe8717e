import Mathlib.Data.List.Forall2
import LexScript.Proofs.Sessions.Reading
import LexScript.Proofs.Renaming.Programs

/-!
# Sources with a renamed variable

The grammar does not look at names. So a source in which some identifiers got another name is
read without an error like the source that it was, and gives out the same ids. What it is read as
differs from the program that it was, but only in names.

## Main definitions

* `Token.RenamesTo`, `Item.RenamesTo` : tokens and items that may have got another name.
* `Grammar.Tree.IsLike` : trees of the same kind and length.
* `Grammar.Tree.variables` : the identifiers that are declared or looked up in a tree.

## Main statements

* `Grammar.Derives.exists_of_renamesTo` : a derivation of renamed tokens.
* `Grammar.Derives.named_mem` : identifiers that are declared or looked up are among the tokens.
* `readSource_of_renamesTo` : a renamed source is read without an error.
-/

namespace LexScript

open Grammar

/-- A token is kept, or it is the one name and becomes the other one. -/
inductive Token.RenamesTo (x y : String) : Token → Token → Prop where
  | kept (t : Token) : Token.RenamesTo x y t t
  | renamed (line : Nat) : Token.RenamesTo x y ⟨.identifier x, line⟩ ⟨.identifier y, line⟩

/-- An item is kept, or it is the one name and becomes the other one. -/
inductive Item.RenamesTo (x y : String) : Item → Item → Prop where
  | token {t t' : Token} (h : t.RenamesTo x y t') : Item.RenamesTo x y (.token t) (.token t')
  | error (e : LexError) : Item.RenamesTo x y (.error e) (.error e)

/-- The name that an item is, if it is one. -/
def Item.name? : Item → Option String
  | .token ⟨.identifier name, _⟩ => some name
  | _ => none

theorem Token.renamesTo_iff {x y : String} {t t' : Token} :
    t.RenamesTo x y t' ↔ t' = t ∨ t.kind = .identifier x ∧ t' = ⟨.identifier y, t.line⟩ := by
  refine ⟨fun h ↦ ?_, ?_⟩
  · cases h with
    | kept => exact .inl rfl
    | renamed line => exact .inr ⟨rfl, rfl⟩
  · rintro (rfl | ⟨hkind, rfl⟩)
    · exact .kept t'
    · obtain ⟨kind, line⟩ := t
      cases hkind
      exact .renamed line

instance (x y : String) (t t' : Token) : Decidable (t.RenamesTo x y t') :=
  decidable_of_iff _ Token.renamesTo_iff.symm

instance (x y : String) : (item item' : Item) → Decidable (item.RenamesTo x y item')
  | .token t, .token t' =>
    decidable_of_iff (t.RenamesTo x y t') ⟨.token, fun h ↦ by cases h; assumption⟩
  | .error e, .error e' =>
    decidable_of_iff (e' = e) ⟨fun h ↦ h.symm ▸ .error e, fun h ↦ by cases h; rfl⟩
  | .token _, .error _ => isFalse nofun
  | .error _, .token _ => isFalse nofun

variable {x y : String}

/-! ### Tokens -/

theorem Token.RenamesTo.eq {t t' : Token} (h : t.RenamesTo x y t')
    (hkind : ∀ name, t.kind ≠ .identifier name) : t' = t := by
  cases h with
  | kept => rfl
  | renamed line => exact absurd rfl (hkind x)

theorem Token.RenamesTo.exists_named {z : Ident} {t : Token} (h : (named z).RenamesTo x y t) :
    ∃ z', t = named z' := by
  cases h with
  | kept => exact ⟨z, rfl⟩
  | renamed => exact ⟨⟨y, z.line⟩, rfl⟩

section Lists

variable {ts us vs : List Token} {line : Nat}

/-- What becomes of tokens behind one another. -/
theorem forall₂_append_left_iff {R : Token → Token → Prop} :
    List.Forall₂ R (ts ++ us) vs ↔
      ∃ ts' us', List.Forall₂ R ts ts' ∧ List.Forall₂ R us us' ∧ vs = ts' ++ us' := by
  refine ⟨fun h ↦ ⟨vs.take ts.length, vs.drop ts.length, ?_, ?_, ?_⟩, ?_⟩
  · simpa using List.forall₂_take ts.length h
  · simpa using List.forall₂_drop ts.length h
  · exact (List.take_append_drop _ _).symm
  · rintro ⟨ts', us', hts, hus, rfl⟩
    exact List.rel_append hts hus

theorem forall₂_fixed_cons {kind : TokenKind} (hkind : ∀ name, kind ≠ .identifier name) :
    List.Forall₂ (Token.RenamesTo x y) (⟨kind, line⟩ :: ts) vs ↔
      ∃ ts', List.Forall₂ (Token.RenamesTo x y) ts ts' ∧ vs = ⟨kind, line⟩ :: ts' := by
  rw [List.forall₂_cons_left_iff]
  refine ⟨?_, fun ⟨ts', hts, hvs⟩ ↦ ⟨_, ts', .kept _, hts, hvs⟩⟩
  rintro ⟨t, ts', ht, hts, rfl⟩
  cases ht.eq hkind
  exact ⟨ts', hts, rfl⟩

theorem forall₂_sym_cons {s : Symbol} :
    List.Forall₂ (Token.RenamesTo x y) (sym s line :: ts) vs ↔
      ∃ ts', List.Forall₂ (Token.RenamesTo x y) ts ts' ∧ vs = sym s line :: ts' :=
  forall₂_fixed_cons (by simp)

theorem forall₂_word_cons {k : Keyword} :
    List.Forall₂ (Token.RenamesTo x y) (word k line :: ts) vs ↔
      ∃ ts', List.Forall₂ (Token.RenamesTo x y) ts ts' ∧ vs = word k line :: ts' :=
  forall₂_fixed_cons (by simp)

theorem exists_named_cons {z : Ident}
    (h : List.Forall₂ (Token.RenamesTo x y) (named z :: ts) vs) :
    ∃ z' ts', List.Forall₂ (Token.RenamesTo x y) ts ts' ∧ vs = named z' :: ts' := by
  obtain ⟨_, ts', hz, hts, rfl⟩ := List.forall₂_cons_left_iff.1 h
  obtain ⟨z', rfl⟩ := hz.exists_named
  exact ⟨z', ts', hts, rfl⟩

end Lists

/-- What becomes of items without an error are tokens. -/
theorem exists_tokens_of_renamesTo {ts : List Token} {items : List Item}
    (h : List.Forall₂ (Item.RenamesTo x y) (ts.map .token) items) :
    ∃ ts', items = ts'.map .token ∧ List.Forall₂ (Token.RenamesTo x y) ts ts' := by
  induction ts generalizing items with
  | nil => exact ⟨[], List.forall₂_nil_left_iff.1 h, .nil⟩
  | cons t ts ih =>
    obtain ⟨_, items', hfirst, hothers, rfl⟩ := List.forall₂_cons_left_iff.1 h
    obtain ⟨ts', rfl, hts⟩ := ih hothers
    cases hfirst with
    | token ht => exact ⟨_ :: ts', rfl, .cons ht hts⟩

/-! ### Derivations -/

namespace Grammar

/-- Trees are of the same kind, and lists in them have the same length. -/
inductive Tree.IsLike : Tree → Tree → Prop where
  | expr {e e' : Expr} : Tree.IsLike (.expr e) (.expr e')
  | optExpr {e e' : Option Expr} (h : e.isSome = e'.isSome) : Tree.IsLike (.optExpr e) (.optExpr e')
  | exprs {es es' : List Expr} (h : es.length = es'.length) : Tree.IsLike (.exprs es) (.exprs es')
  | names {xs xs' : List Ident} (h : xs.length = xs'.length) : Tree.IsLike (.names xs) (.names xs')
  | stmt {s s' : Stmt} : Tree.IsLike (.stmt s) (.stmt s')
  | optStmt {s s' : Option Stmt} : Tree.IsLike (.optStmt s) (.optStmt s')
  | stmts {ss ss' : List Stmt} : Tree.IsLike (.stmts ss) (.stmts ss')
  | function {f f' : FunctionDecl} : Tree.IsLike (.function f) (.function f')
  | functions {fs fs' : List FunctionDecl} : Tree.IsLike (.functions fs) (.functions fs')

theorem loopCondition_snd {c c' : Option Expr} (h : c.isSome = c'.isSome) (n : Nat) :
    (loopCondition c' n).2 = (loopCondition c n).2 := by
  cases c <;> cases c' <;> simp_all [loopCondition]

theorem ne_identifier_of_constant? {kind : TokenKind} {v : Literal} (h : constant? kind = some v)
    (name : String) : kind ≠ .identifier name := by
  rintro rfl
  cases h

theorem ne_identifier_of_prefix? {kind : TokenKind} {op : UnaryOp} (h : prefix? kind = some op)
    (name : String) : kind ≠ .identifier name := by
  rintro rfl
  cases h

theorem Level.ne_identifier_of_join? {l : Level} {kind : TokenKind}
    {join : Nat → Nat → Expr → Expr → Expr} (h : l.join? kind = some join) (name : String) :
    kind ≠ .identifier name := by
  rintro rfl
  cases l <;> cases h

variable {rule : ElseRule}

/-- Tokens some of whose names got another one are a phrase of the same category, whose tree has
ids in the same range. -/
theorem Derives.exists_of_renamesTo {c : Category} {ts : List Token} {t : Tree} {n m : Nat}
    (h : Derives rule c ts n t m) : ∀ {ts' : List Token},
      List.Forall₂ (Token.RenamesTo x y) ts ts' →
        ∃ t', t.IsLike t' ∧ Derives rule c ts' n t' m := by
  induction h with
  | constant h =>
    intro ts' hts
    obtain ⟨_, hnil, rfl⟩ := (forall₂_fixed_cons (ne_identifier_of_constant? h)).1 hts
    cases hnil
    exact ⟨_, .expr, .constant h⟩
  | name =>
    intro ts' hts
    obtain ⟨z, _, hnil, rfl⟩ := exists_named_cons hts
    cases hnil
    exact ⟨_, .expr, .name⟩
  | this =>
    intro ts' hts
    obtain ⟨_, hnil, rfl⟩ := forall₂_word_cons.1 hts
    cases hnil
    exact ⟨_, .expr, .this⟩
  | super =>
    intro ts' hts
    simp only [forall₂_word_cons, forall₂_sym_cons] at hts
    obtain ⟨_, ⟨_, hts, rfl⟩, rfl⟩ := hts
    obtain ⟨z, _, hnil, rfl⟩ := exists_named_cons hts
    cases hnil
    exact ⟨_, .expr, .super⟩
  | grouping _ ih =>
    intro ts' hts
    simp only [forall₂_sym_cons, forall₂_append_left_iff, List.forall₂_nil_left_iff] at hts
    obtain ⟨_, ⟨us, _, hus, ⟨_, rfl, rfl⟩, rfl⟩, rfl⟩ := hts
    obtain ⟨_, ⟨⟩, inner⟩ := ih hus
    exact ⟨_, .expr, .grouping inner⟩
  | lambda _ _ ih ih' =>
    intro ts' hts
    simp only [forall₂_sym_cons, forall₂_word_cons, forall₂_append_left_iff] at hts
    obtain ⟨_, ⟨_, ⟨us, _, hus, ⟨vs, hvs, rfl⟩, rfl⟩, rfl⟩, rfl⟩ := hts
    obtain ⟨_, ⟨⟩, params⟩ := ih hus
    obtain ⟨_, ⟨⟩, body⟩ := ih' hvs
    exact ⟨_, .expr, .lambda params body⟩
  | operand _ ih =>
    intro ts' hts
    obtain ⟨_, ⟨⟩, inner⟩ := ih hts
    exact ⟨_, .expr, .operand inner⟩
  | call _ _ ih ih' =>
    intro ts' hts
    simp only [forall₂_sym_cons, forall₂_append_left_iff, List.forall₂_nil_left_iff] at hts
    obtain ⟨us, _, hus, ⟨_, ⟨vs, _, hvs, ⟨_, rfl, rfl⟩, rfl⟩, rfl⟩, rfl⟩ := hts
    obtain ⟨_, ⟨⟩, callee⟩ := ih hus
    obtain ⟨_, ⟨⟩, arguments⟩ := ih' hvs
    exact ⟨_, .expr, .call callee arguments⟩
  | get _ ih =>
    intro ts' hts
    simp only [forall₂_sym_cons, forall₂_append_left_iff] at hts
    obtain ⟨us, _, hus, ⟨_, hx, rfl⟩, rfl⟩ := hts
    obtain ⟨z, _, hnil, rfl⟩ := exists_named_cons hx
    cases hnil
    obtain ⟨_, ⟨⟩, object⟩ := ih hus
    exact ⟨_, .expr, .get object⟩
  | unprefixed _ ih =>
    intro ts' hts
    obtain ⟨_, ⟨⟩, inner⟩ := ih hts
    exact ⟨_, .expr, .unprefixed inner⟩
  | prefixed h _ ih =>
    intro ts' hts
    obtain ⟨us, hus, rfl⟩ := (forall₂_fixed_cons (ne_identifier_of_prefix? h)).1 hts
    obtain ⟨_, ⟨⟩, operand⟩ := ih hus
    exact ⟨_, .expr, .prefixed h operand⟩
  | tighter _ ih =>
    intro ts' hts
    obtain ⟨_, ⟨⟩, inner⟩ := ih hts
    exact ⟨_, .expr, .tighter inner⟩
  | joined h _ _ ih ih' =>
    intro ts' hts
    simp only [forall₂_append_left_iff, forall₂_fixed_cons (Level.ne_identifier_of_join? h)] at hts
    obtain ⟨us, _, hus, ⟨vs, hvs, rfl⟩, rfl⟩ := hts
    obtain ⟨_, ⟨⟩, left⟩ := ih hus
    obtain ⟨_, ⟨⟩, right⟩ := ih' hvs
    exact ⟨_, .expr, .joined h left right⟩
  | value _ ih =>
    intro ts' hts
    obtain ⟨_, ⟨⟩, inner⟩ := ih hts
    exact ⟨_, .expr, .value inner⟩
  | assign _ ih =>
    intro ts' hts
    obtain ⟨z, _, htail, rfl⟩ := exists_named_cons hts
    obtain ⟨us, hus, rfl⟩ := forall₂_sym_cons.1 htail
    obtain ⟨_, ⟨⟩, value⟩ := ih hus
    exact ⟨_, .expr, .assign value⟩
  | set _ _ ih ih' =>
    intro ts' hts
    simp only [forall₂_append_left_iff, forall₂_sym_cons] at hts
    obtain ⟨us, _, hus, ⟨_, hx, rfl⟩, rfl⟩ := hts
    obtain ⟨z, _, htail, rfl⟩ := exists_named_cons hx
    obtain ⟨vs, hvs, rfl⟩ := forall₂_sym_cons.1 htail
    obtain ⟨_, ⟨⟩, object⟩ := ih hus
    obtain ⟨_, ⟨⟩, value⟩ := ih' hvs
    exact ⟨_, .expr, .set object value⟩
  | noExpression =>
    intro ts' hts
    cases hts
    exact ⟨_, .optExpr rfl, .noExpression⟩
  | someExpression _ ih =>
    intro ts' hts
    obtain ⟨_, ⟨⟩, inner⟩ := ih hts
    exact ⟨_, .optExpr (by rfl), .someExpression inner⟩
  | noArguments =>
    intro ts' hts
    cases hts
    exact ⟨_, .exprs rfl, .noArguments⟩
  | someArguments _ h ih =>
    intro ts' hts
    obtain ⟨_, hlike, list⟩ := ih hts
    cases hlike with
    | exprs hlength => exact ⟨_, .exprs hlength, .someArguments list (hlength ▸ h)⟩
  | lastArgument _ ih =>
    intro ts' hts
    obtain ⟨_, ⟨⟩, last⟩ := ih hts
    exact ⟨_, .exprs (by rfl), .lastArgument last⟩
  | argument _ _ ih ih' =>
    intro ts' hts
    simp only [forall₂_append_left_iff, forall₂_sym_cons] at hts
    obtain ⟨us, _, hus, ⟨vs, hvs, rfl⟩, rfl⟩ := hts
    obtain ⟨_, ⟨⟩, first⟩ := ih hus
    obtain ⟨_, hlike, others⟩ := ih' hvs
    cases hlike with
    | exprs hlength => exact ⟨_, .exprs (congrArg (· + 1) hlength), .argument first others⟩
  | noParameters =>
    intro ts' hts
    cases hts
    exact ⟨_, .names rfl, .noParameters⟩
  | someParameters _ h ih =>
    intro ts' hts
    obtain ⟨_, hlike, list⟩ := ih hts
    cases hlike with
    | names hlength => exact ⟨_, .names hlength, .someParameters list (hlength ▸ h)⟩
  | lastParameter =>
    intro ts' hts
    obtain ⟨z, _, hnil, rfl⟩ := exists_named_cons hts
    cases hnil
    exact ⟨_, .names (by rfl), .lastParameter⟩
  | parameter _ ih =>
    intro ts' hts
    obtain ⟨z, _, htail, rfl⟩ := exists_named_cons hts
    obtain ⟨us, hus, rfl⟩ := forall₂_sym_cons.1 htail
    obtain ⟨_, hlike, others⟩ := ih hus
    cases hlike with
    | names hlength => exact ⟨_, .names (congrArg (· + 1) hlength), .parameter others⟩
  | block _ ih =>
    intro ts' hts
    simp only [forall₂_sym_cons, forall₂_append_left_iff, List.forall₂_nil_left_iff] at hts
    obtain ⟨_, ⟨us, _, hus, ⟨_, rfl, rfl⟩, rfl⟩, rfl⟩ := hts
    obtain ⟨_, ⟨⟩, body⟩ := ih hus
    exact ⟨_, .stmts, .block body⟩
  | function _ _ ih ih' =>
    intro ts' hts
    obtain ⟨z, _, htail, rfl⟩ := exists_named_cons hts
    simp only [forall₂_sym_cons, forall₂_append_left_iff] at htail
    obtain ⟨_, ⟨us, _, hus, ⟨vs, hvs, rfl⟩, rfl⟩, rfl⟩ := htail
    obtain ⟨_, ⟨⟩, params⟩ := ih hus
    obtain ⟨_, ⟨⟩, body⟩ := ih' hvs
    exact ⟨_, .function, .function params body⟩
  | noFunctions =>
    intro ts' hts
    cases hts
    exact ⟨_, .functions, .noFunctions⟩
  | functions _ _ ih ih' =>
    intro ts' hts
    obtain ⟨us, vs, hus, hvs, rfl⟩ := forall₂_append_left_iff.1 hts
    obtain ⟨_, ⟨⟩, first⟩ := ih hus
    obtain ⟨_, ⟨⟩, others⟩ := ih' hvs
    exact ⟨_, .functions, .functions first others⟩
  | varNil =>
    intro ts' hts
    obtain ⟨_, htail, rfl⟩ := forall₂_word_cons.1 hts
    obtain ⟨z, _, hend, rfl⟩ := exists_named_cons htail
    obtain ⟨_, hnil, rfl⟩ := forall₂_sym_cons.1 hend
    cases hnil
    exact ⟨_, .stmt, .varNil⟩
  | varValue _ ih =>
    intro ts' hts
    obtain ⟨_, htail, rfl⟩ := forall₂_word_cons.1 hts
    obtain ⟨z, _, hrest, rfl⟩ := exists_named_cons htail
    simp only [forall₂_sym_cons, forall₂_append_left_iff, List.forall₂_nil_left_iff] at hrest
    obtain ⟨_, ⟨us, _, hus, ⟨_, rfl, rfl⟩, rfl⟩, rfl⟩ := hrest
    obtain ⟨_, ⟨⟩, value⟩ := ih hus
    exact ⟨_, .stmt, .varValue value⟩
  | exprStmt _ ih =>
    intro ts' hts
    simp only [forall₂_sym_cons, forall₂_append_left_iff, List.forall₂_nil_left_iff] at hts
    obtain ⟨us, _, hus, ⟨_, rfl, rfl⟩, rfl⟩ := hts
    obtain ⟨_, ⟨⟩, value⟩ := ih hus
    exact ⟨_, .stmt, .exprStmt value⟩
  | expression _ ih =>
    intro ts' hts
    obtain ⟨_, ⟨⟩, inner⟩ := ih hts
    exact ⟨_, .stmt, .expression inner⟩
  | print _ ih =>
    intro ts' hts
    simp only [forall₂_sym_cons, forall₂_word_cons, forall₂_append_left_iff,
      List.forall₂_nil_left_iff] at hts
    obtain ⟨_, ⟨us, _, hus, ⟨_, rfl, rfl⟩, rfl⟩, rfl⟩ := hts
    obtain ⟨_, ⟨⟩, value⟩ := ih hus
    exact ⟨_, .stmt, .print value⟩
  | returns _ ih =>
    intro ts' hts
    simp only [forall₂_sym_cons, forall₂_word_cons, forall₂_append_left_iff,
      List.forall₂_nil_left_iff] at hts
    obtain ⟨_, ⟨us, _, hus, ⟨_, rfl, rfl⟩, rfl⟩, rfl⟩ := hts
    obtain ⟨_, ⟨⟩, value⟩ := ih hus
    exact ⟨_, .stmt, .returns value⟩
  | blockStmt _ ih =>
    intro ts' hts
    obtain ⟨_, ⟨⟩, body⟩ := ih hts
    exact ⟨_, .stmt, .blockStmt body⟩
  | ifThen _ _ ih ih' =>
    intro ts' hts
    simp only [forall₂_sym_cons, forall₂_word_cons, forall₂_append_left_iff] at hts
    obtain ⟨_, ⟨_, ⟨us, _, hus, ⟨vs, hvs, rfl⟩, rfl⟩, rfl⟩, rfl⟩ := hts
    obtain ⟨_, ⟨⟩, condition⟩ := ih hus
    obtain ⟨_, ⟨⟩, thenBranch⟩ := ih' hvs
    exact ⟨_, .stmt, .ifThen condition thenBranch⟩
  | ifElse _ _ closed _ ih ih' ih'' =>
    intro ts' hts
    simp only [forall₂_sym_cons, forall₂_word_cons, forall₂_append_left_iff] at hts
    obtain ⟨_, ⟨_, ⟨us, _, hus, ⟨_, ⟨vs, _, hvs, ⟨ws, hws, rfl⟩, rfl⟩, rfl⟩, rfl⟩, rfl⟩, rfl⟩ := hts
    obtain ⟨_, ⟨⟩, condition⟩ := ih hus
    obtain ⟨_, ⟨⟩, thenBranch⟩ := ih' hvs
    obtain ⟨_, ⟨⟩, elseBranch⟩ := ih'' hws
    exact ⟨_, .stmt, .ifElse condition thenBranch closed elseBranch⟩
  | whileLoop _ _ ih ih' =>
    intro ts' hts
    simp only [forall₂_sym_cons, forall₂_word_cons, forall₂_append_left_iff] at hts
    obtain ⟨_, ⟨_, ⟨us, _, hus, ⟨vs, hvs, rfl⟩, rfl⟩, rfl⟩, rfl⟩ := hts
    obtain ⟨_, ⟨⟩, condition⟩ := ih hus
    obtain ⟨_, ⟨⟩, body⟩ := ih' hvs
    exact ⟨_, .stmt, .whileLoop condition body⟩
  | noInitializer =>
    intro ts' hts
    obtain ⟨_, hnil, rfl⟩ := forall₂_sym_cons.1 hts
    cases hnil
    exact ⟨_, .optStmt, .noInitializer⟩
  | varInitializer _ ih =>
    intro ts' hts
    obtain ⟨_, ⟨⟩, inner⟩ := ih hts
    exact ⟨_, .optStmt, .varInitializer inner⟩
  | exprInitializer _ ih =>
    intro ts' hts
    obtain ⟨_, ⟨⟩, inner⟩ := ih hts
    exact ⟨_, .optStmt, .exprInitializer inner⟩
  | forLoop _ _ _ _ ih ih' ih'' ih₃ =>
    intro ts' hts
    simp only [forall₂_sym_cons, forall₂_word_cons, forall₂_append_left_iff] at hts
    obtain ⟨_, ⟨_, ⟨us, _, hus, ⟨vs, _, hvs, ⟨_, ⟨ws, _, hws, ⟨zs, hzs, rfl⟩, rfl⟩, rfl⟩, rfl⟩,
      rfl⟩, rfl⟩, rfl⟩ := hts
    obtain ⟨_, ⟨⟩, initializer⟩ := ih hus
    obtain ⟨_, hlike, condition⟩ := ih' hvs
    obtain ⟨_, ⟨⟩, increment⟩ := ih'' hws
    obtain ⟨_, ⟨⟩, body⟩ := ih₃ hzs
    cases hlike with
    | optExpr hsome =>
      rw [← loopCondition_snd hsome]
      exact ⟨_, .stmt, .forLoop initializer condition increment body⟩
  | statement _ ih =>
    intro ts' hts
    obtain ⟨_, ⟨⟩, inner⟩ := ih hts
    exact ⟨_, .stmt, .statement inner⟩
  | varDecl _ ih =>
    intro ts' hts
    obtain ⟨_, ⟨⟩, inner⟩ := ih hts
    exact ⟨_, .stmt, .varDecl inner⟩
  | funDecl _ ih =>
    intro ts' hts
    obtain ⟨us, hus, rfl⟩ := forall₂_word_cons.1 hts
    obtain ⟨_, ⟨⟩, decl⟩ := ih hus
    exact ⟨_, .stmt, .funDecl decl⟩
  | classDecl _ ih =>
    intro ts' hts
    obtain ⟨_, htail, rfl⟩ := forall₂_word_cons.1 hts
    obtain ⟨z, _, hrest, rfl⟩ := exists_named_cons htail
    simp only [forall₂_sym_cons, forall₂_append_left_iff, List.forall₂_nil_left_iff] at hrest
    obtain ⟨_, ⟨us, _, hus, ⟨_, rfl, rfl⟩, rfl⟩, rfl⟩ := hrest
    obtain ⟨_, ⟨⟩, methods⟩ := ih hus
    exact ⟨_, .stmt, .classDecl methods⟩
  | subclassDecl _ ih =>
    intro ts' hts
    obtain ⟨_, htail, rfl⟩ := forall₂_word_cons.1 hts
    obtain ⟨z, _, hsuper, rfl⟩ := exists_named_cons htail
    obtain ⟨_, hname, rfl⟩ := forall₂_sym_cons.1 hsuper
    obtain ⟨z', _, hrest, rfl⟩ := exists_named_cons hname
    simp only [forall₂_sym_cons, forall₂_append_left_iff, List.forall₂_nil_left_iff] at hrest
    obtain ⟨_, ⟨us, _, hus, ⟨_, rfl, rfl⟩, rfl⟩, rfl⟩ := hrest
    obtain ⟨_, ⟨⟩, methods⟩ := ih hus
    exact ⟨_, .stmt, .subclassDecl methods⟩
  | noDeclarations =>
    intro ts' hts
    cases hts
    exact ⟨_, .stmts, .noDeclarations⟩
  | declarations _ _ ih ih' =>
    intro ts' hts
    obtain ⟨us, vs, hus, hvs, rfl⟩ := forall₂_append_left_iff.1 hts
    obtain ⟨_, ⟨⟩, first⟩ := ih hus
    obtain ⟨_, ⟨⟩, others⟩ := ih' hvs
    exact ⟨_, .stmts, .declarations first others⟩

/-! ### Names -/

/-- The identifiers that are declared or looked up in what a phrase stands for. -/
def Tree.variables : Tree → List Ident
  | .expr e | .optExpr (some e) => e.variables
  | .optExpr none | .optStmt none => []
  | .exprs es => variablesOfExprs es
  | .names xs => xs
  | .stmt s | .optStmt (some s) => s.variables
  | .stmts ss => variablesOfProgram ss
  | .function f => f.name :: f.variables
  | .functions fs => variablesOfMethods fs

theorem Level.variables_join {l : Level} {kind : TokenKind}
    {join : Nat → Nat → Expr → Expr → Expr} (h : l.join? kind = some join) (a b : Expr)
    (id line : Nat) : (join id line a b).variables = a.variables ++ b.variables := by
  unfold join? at h
  split at h <;> cases h <;> rw [Expr.variables]

theorem mem_variables_loopCondition {c : Option Expr} {n : Nat} {z : Ident}
    (h : z ∈ (loopCondition c n).1.variables) : z ∈ (Tree.optExpr c).variables := by
  cases c with
  | none => simp only [loopCondition, Expr.variables, List.not_mem_nil] at h
  | some e => exact h

theorem mem_variables_withIncrement {a : Option Expr} {s : Stmt} {z : Ident}
    (h : z ∈ (withIncrement a s).variables) :
    z ∈ s.variables ∨ z ∈ (Tree.optExpr a).variables := by
  cases a with
  | none => exact .inl h
  | some e => simpa [withIncrement, Stmt.variables, variablesOfProgram, Tree.variables] using h

theorem mem_variables_withInitializer {i : Option Stmt} {s : Stmt} {z : Ident}
    (h : z ∈ (withInitializer i s).variables) :
    z ∈ (Tree.optStmt i).variables ∨ z ∈ s.variables := by
  cases i with
  | none => exact .inr h
  | some s' => simpa [withInitializer, Stmt.variables, variablesOfProgram, Tree.variables] using h

/-- What is declared or looked up is named by a token. -/
theorem Derives.named_mem {c : Category} {ts : List Token} {t : Tree} {n m : Nat}
    (h : Derives rule c ts n t m) : ∀ z ∈ t.variables, named z ∈ ts := by
  induction h with
  | joined h _ _ ih ih' =>
    intro z hz
    rw [Tree.variables, Level.variables_join h, List.mem_append] at hz
    rcases hz with hz | hz
    · exact List.mem_append_left _ (ih z hz)
    · exact List.mem_append_right _ (List.mem_cons_of_mem _ (ih' z hz))
  | @returns _ e _ _ _ _ _ ih =>
    intro z hz
    cases e with
    | none => simp [Tree.variables, Stmt.variables] at hz
    | some e =>
      have := ih z (by simpa [Tree.variables, Stmt.variables] using hz)
      simp [this]
  | forLoop _ _ _ _ ih ih' ih'' ih₃ =>
    intro z hz
    rcases mem_variables_withInitializer hz with hz | hz
    · simp [ih z hz]
    rw [Stmt.variables, List.mem_append] at hz
    rcases hz with hz | hz
    · simp [ih' z (mem_variables_loopCondition hz)]
    rcases mem_variables_withIncrement hz with hz | hz
    · simp [ih₃ z hz]
    · simp [ih'' z hz]
  -- What the others declare or look up is theirs or that of their parts.
  | _ =>
    grind [Tree.variables, Expr.variables, Stmt.variables, FunctionDecl.variables,
      variablesOfExprs, variablesOfProgram, variablesOfMethods, FunctionDecl.name]

end Grammar

/-! ### Sources -/

/-- A source in which some names got another one is read without an error, and gives out the same
ids. -/
theorem readSource_of_renamesTo {n m : Nat} {source source' : String} {program : List Stmt}
    (h : readSource n source = ⟨[], program, m⟩)
    (hitems : List.Forall₂ (Item.RenamesTo x y) (scan source) (scan source')) :
    ∃ program', readSource n source' = ⟨[], program', m⟩ := by
  obtain ⟨ts, hderives, ⟨line, hscan⟩, -⟩ := exists_tokens_of_readSource h
  rw [hscan] at hitems
  obtain ⟨tokens, htokens, hrenames⟩ := exists_tokens_of_renamesTo hitems
  obtain ⟨ts', _, hts, hend, rfl⟩ := forall₂_append_left_iff.1 hrenames
  obtain ⟨_, hnil, rfl⟩ := (forall₂_fixed_cons (by simp)).1 hend
  cases hnil
  obtain ⟨_, ⟨⟩, hderives'⟩ := hderives.exists_of_renamesTo hts
  exact ⟨_, readSource_of_derives htokens hderives'⟩

/-- No identifier that a program declares or looks up is a name that its source does not have. -/
theorem ne_of_mem_variables {n m : Nat} {source : String} {program : List Stmt}
    (h : readSource n source = ⟨[], program, m⟩)
    (hy : ∀ item ∈ scan source, item.name? ≠ some y) :
    ∀ z ∈ variablesOfProgram program, z.text ≠ y := by
  obtain ⟨ts, hderives, ⟨line, hscan⟩, -⟩ := exists_tokens_of_readSource h
  rintro z hz rfl
  refine hy (.token (named z)) ?_ rfl
  rw [hscan]
  exact List.mem_map_of_mem (List.mem_append_left _ (hderives.named_mem z hz))

end LexScript
