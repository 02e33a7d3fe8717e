import LexScript.Program.Alike
import LexScript.Proofs.Relabelling.Derivations

/-!
# Programs that are alike

Programs that are alike differ in ids and lines, and besides these only in the sign of zeros and in
what is no number at all. Where no number has a sign they are the same when they are blank.

## Main statements

* `relabelProgram_blank` : programs that are alike are the same when they are blank.
-/

namespace LexScript

/-- No number in some nodes has a sign. -/
def AreUnsigned (nodes : List Expr) : Prop := ∀ e ∈ nodes, e.IsUnsigned

@[simp, grind =] theorem areUnsigned_cons {e : Expr} {nodes : List Expr} :
    AreUnsigned (e :: nodes) ↔ e.IsUnsigned ∧ AreUnsigned nodes := List.forall_mem_cons

@[simp, grind =] theorem areUnsigned_append {nodes nodes' : List Expr} :
    AreUnsigned (nodes ++ nodes') ↔ AreUnsigned nodes ∧ AreUnsigned nodes' :=
  List.forall_mem_append

namespace Relabelling

@[simp, grind =] theorem blank_ids (i : Nat) : blank.ids i = 0 := rfl

@[simp, grind =] theorem blank_lines (line : Nat) : blank.lines line = 0 := rfl

end Relabelling

theorem Number.eq_of_equals {x y : Number} (h : x.equals y = true) (hx : x.isNegative = false)
    (hy : y.isNegative = false) : x = y := by
  simp only [equals, Bool.and_eq_true, Bool.or_eq_true, decide_eq_true_eq] at h
  obtain ⟨-, rfl | ⟨hzero, hzero'⟩⟩ := h
  · rfl
  · obtain ⟨bits⟩ := x
    obtain ⟨bits'⟩ := y
    have hzero : bits.toNat % 2 ^ 63 = 0 := of_decide_eq_true hzero
    have hzero' : bits'.toNat % 2 ^ 63 = 0 := of_decide_eq_true hzero'
    have hx : ¬ 2 ^ 63 ≤ bits.toNat := of_decide_eq_false hx
    have hy : ¬ 2 ^ 63 ≤ bits'.toNat := of_decide_eq_false hy
    rw [mk.injEq, ← UInt64.toNat_inj]
    omega

@[grind →] theorem Ident.relabel_blank {x y : Ident} (h : x.alike y = true) :
    x.relabel .blank = y.relabel .blank := by
  have htext : x.text = y.text := beq_iff_eq.1 h
  simp only [Ident.relabel, htext, Relabelling.blank_lines]

@[grind →] theorem Ident.map_relabel_blank {xs ys : List Ident} (h : alikeIdents xs ys = true) :
    xs.map (Ident.relabel .blank) = ys.map (Ident.relabel .blank) := by
  have hblank : Ident.relabel .blank = (⟨·, 0⟩) ∘ Ident.text := rfl
  rw [hblank, ← List.map_map, ← List.map_map, beq_iff_eq.1 h]

theorem Literal.eq_of_alike {v w : Literal} {i j : Nat} (h : v.alike w = true)
    (hv : (Expr.literal i v).IsUnsigned) (hw : (Expr.literal j w).IsUnsigned) : v = w := by
  cases v <;> cases w <;> simp only [Literal.alike, beq_iff_eq, reduceCtorEq] at h
  case number => rw [Number.eq_of_equals h hv.1 hw.1]
  all_goals simp [h]

theorem SuperclassName.map_relabel_blank {s t : Option SuperclassName}
    (h : alikeSuperclasses s t = true) :
    s.map (SuperclassName.relabel .blank) = t.map (SuperclassName.relabel .blank) := by
  cases s <;> cases t <;> simp only [alikeSuperclasses, Bool.false_eq_true] at h
  · rfl
  · simp only [Option.map_some, SuperclassName.relabel, Ident.relabel_blank h,
      Relabelling.blank_ids]

mutual

theorem Expr.relabel_blank : ∀ e f : Expr, e.alike f = true → AreUnsigned e.nodes →
    AreUnsigned f.nodes → e.relabel .blank = f.relabel .blank
  | .literal _ v, f, h, he, hf => by
    cases f <;> simp only [Expr.alike, Bool.false_eq_true] at h
    simp only [Expr.nodes, areUnsigned_cons] at he hf
    simp only [Expr.relabel, Literal.eq_of_alike h he.1 hf.1, Relabelling.blank_ids]
  | .read _ _, f, h, _, _ | .this _ _, f, h, _, _ | .super _ _ _, f, h, _, _ => by
    cases f <;> simp only [Expr.alike, Bool.false_eq_true] at h
    grind [Expr.relabel]
  | .grouping _ e, f, h, he, hf | .unary _ _ _ e, f, h, he, hf | .assign _ _ e, f, h, he, hf
  | .get _ e _, f, h, he, hf => by
    have ih := e.relabel_blank
    cases f <;> simp only [Expr.alike, Bool.false_eq_true] at h
    simp only [Expr.nodes] at he hf
    grind [Expr.relabel]
  | .binary _ _ _ left right, f, h, he, hf | .logical _ _ _ left right, f, h, he, hf
  | .set _ left _ right, f, h, he, hf => by
    have ih := left.relabel_blank
    have ih' := right.relabel_blank
    cases f <;> simp only [Expr.alike, Bool.false_eq_true] at h
    simp only [Expr.nodes] at he hf
    grind [Expr.relabel]
  | .call _ callee _ arguments, f, h, he, hf => by
    have ih := callee.relabel_blank
    have ih' := relabelExprs_blank arguments
    cases f <;> simp only [Expr.alike, Bool.false_eq_true] at h
    simp only [Expr.nodes] at he hf
    grind [Expr.relabel]
  | .lambda _ _ _ body, f, h, he, hf => by
    have ih := relabelProgram_blank body
    cases f <;> simp only [Expr.alike, Bool.false_eq_true] at h
    simp only [Expr.nodes] at he hf
    grind [Expr.relabel]

theorem relabelExprs_blank : ∀ es fs : List Expr, alikeExprs es fs = true →
    AreUnsigned (nodesOfExprs es) → AreUnsigned (nodesOfExprs fs) →
      relabelExprs .blank es = relabelExprs .blank fs
  | [], fs, h, _, _ => by
    cases fs <;> simp only [alikeExprs, Bool.false_eq_true] at h
    rfl
  | e :: es, fs, h, he, hf => by
    have ih := e.relabel_blank
    have ih' := relabelExprs_blank es
    cases fs <;> simp only [alikeExprs, Bool.false_eq_true] at h
    simp only [nodesOfExprs] at he hf
    grind [relabelExprs]

theorem Stmt.relabel_blank : ∀ s t : Stmt, s.alike t = true → AreUnsigned s.nodes →
    AreUnsigned t.nodes → s.relabel .blank = t.relabel .blank
  | .expression e, t, h, hs, ht | .print _ e, t, h, hs, ht => by
    have ih := e.relabel_blank
    cases t <;> simp only [Stmt.alike, Bool.false_eq_true] at h
    simp only [Stmt.nodes] at hs ht
    grind [Stmt.relabel]
  | .varDecl _ none, t, h, _, _ => by
    cases t with
    | varDecl _ value =>
      cases value <;> simp only [Stmt.alike, Bool.false_eq_true] at h
      simp only [Stmt.relabel, Ident.relabel_blank h]
    | _ => simp [Stmt.alike] at h
  | .varDecl _ (some e), t, h, hs, ht => by
    cases t with
    | varDecl _ value =>
      cases value <;> simp only [Stmt.alike, Bool.false_eq_true, Bool.and_eq_true] at h
      simp only [Stmt.nodes] at hs ht
      simp only [Stmt.relabel, Ident.relabel_blank h.1, e.relabel_blank _ h.2 hs ht]
    | _ => simp [Stmt.alike] at h
  | .returns _ none, t, h, _, _ => by
    cases t with
    | returns _ value =>
      cases value <;> simp only [Stmt.alike, Bool.false_eq_true] at h
      simp only [Stmt.relabel, Relabelling.blank_lines]
    | _ => simp [Stmt.alike] at h
  | .returns _ (some e), t, h, hs, ht => by
    cases t with
    | returns _ value =>
      cases value <;> simp only [Stmt.alike, Bool.false_eq_true] at h
      simp only [Stmt.nodes] at hs ht
      simp only [Stmt.relabel, e.relabel_blank _ h hs ht, Relabelling.blank_lines]
    | _ => simp [Stmt.alike] at h
  | .block body, t, h, hs, ht => by
    cases t <;> simp only [Stmt.alike, Bool.false_eq_true] at h
    simp only [Stmt.nodes] at hs ht
    simp only [Stmt.relabel, relabelProgram_blank body _ h hs ht]
  | .ifElse condition thenBranch none, t, h, hs, ht => by
    cases t with
    | ifElse _ _ elseBranch =>
      cases elseBranch <;> simp only [Stmt.alike, Bool.false_eq_true, Bool.and_eq_true] at h
      simp only [Stmt.nodes, areUnsigned_append] at hs ht
      simp only [Stmt.relabel, condition.relabel_blank _ h.1 hs.1 ht.1,
        thenBranch.relabel_blank _ h.2 hs.2 ht.2]
    | _ => simp [Stmt.alike] at h
  | .ifElse condition thenBranch (some elseBranch), t, h, hs, ht => by
    cases t with
    | ifElse _ _ elseBranch' =>
      cases elseBranch' <;> simp only [Stmt.alike, Bool.false_eq_true, Bool.and_eq_true] at h
      simp only [Stmt.nodes, areUnsigned_append] at hs ht
      simp only [Stmt.relabel, condition.relabel_blank _ h.1.1 hs.1 ht.1,
        thenBranch.relabel_blank _ h.1.2 hs.2.1 ht.2.1,
        elseBranch.relabel_blank _ h.2 hs.2.2 ht.2.2]
    | _ => simp [Stmt.alike] at h
  | .whileLoop condition body, t, h, hs, ht => by
    cases t <;> simp only [Stmt.alike, Bool.false_eq_true, Bool.and_eq_true] at h
    simp only [Stmt.nodes, areUnsigned_append] at hs ht
    simp only [Stmt.relabel, condition.relabel_blank _ h.1 hs.1 ht.1,
      body.relabel_blank _ h.2 hs.2 ht.2]
  | .funDecl decl, t, h, hs, ht => by
    cases t <;> simp only [Stmt.alike, Bool.false_eq_true] at h
    simp only [Stmt.nodes] at hs ht
    simp only [Stmt.relabel, decl.relabel_blank _ h hs ht]
  | .classDecl _ superclass methods, t, h, hs, ht => by
    cases t with
    | classDecl _ superclass' methods' =>
      simp only [Stmt.alike, Bool.and_eq_true] at h
      have hs : AreUnsigned (nodesOfMethods methods) := by
        cases superclass <;> simp_all [Stmt.nodes]
      have ht : AreUnsigned (nodesOfMethods methods') := by
        cases superclass' <;> simp_all [Stmt.nodes]
      simp only [Stmt.relabel, Ident.relabel_blank h.1.1, SuperclassName.map_relabel_blank h.1.2,
        relabelMethods_blank methods _ h.2 hs ht]
    | _ => simp [Stmt.alike] at h

theorem FunctionDecl.relabel_blank : ∀ f g : FunctionDecl, f.alike g = true →
    AreUnsigned f.nodes → AreUnsigned g.nodes → f.relabel .blank = g.relabel .blank
  | .mk _ _ body, .mk _ _ _, h, hf, hg => by
    simp only [FunctionDecl.alike, Bool.and_eq_true] at h
    simp only [FunctionDecl.nodes] at hf hg
    simp only [FunctionDecl.relabel, Ident.relabel_blank h.1.1, Ident.map_relabel_blank h.1.2,
      relabelProgram_blank body _ h.2 hf hg]

theorem relabelProgram_blank : ∀ ss ts : List Stmt, alikeStmts ss ts = true →
    AreUnsigned (nodesOfProgram ss) → AreUnsigned (nodesOfProgram ts) →
      relabelProgram .blank ss = relabelProgram .blank ts
  | [], ts, h, _, _ => by
    cases ts <;> simp only [alikeStmts, Bool.false_eq_true] at h
    rfl
  | s :: ss, ts, h, hs, ht => by
    have ih := s.relabel_blank
    have ih' := relabelProgram_blank ss
    cases ts <;> simp only [alikeStmts, Bool.false_eq_true] at h
    simp only [nodesOfProgram] at hs ht
    grind [relabelProgram]

theorem relabelMethods_blank : ∀ fs gs : List FunctionDecl, alikeFunctions fs gs = true →
    AreUnsigned (nodesOfMethods fs) → AreUnsigned (nodesOfMethods gs) →
      relabelMethods .blank fs = relabelMethods .blank gs
  | [], gs, h, _, _ => by
    cases gs <;> simp only [alikeFunctions, Bool.false_eq_true] at h
    rfl
  | f :: fs, gs, h, hf, hg => by
    have ih := f.relabel_blank
    have ih' := relabelMethods_blank fs
    cases gs <;> simp only [alikeFunctions, Bool.false_eq_true] at h
    simp only [nodesOfMethods] at hf hg
    grind [relabelMethods]

end

end LexScript
